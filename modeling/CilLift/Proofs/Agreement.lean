import CilLift.Proofs.Custody
import CilLift.Proofs.Nodes

/-!
Two runs side by side. They agree if they give one result and leave related states, or fail with
related errors. Labels occur in errors only, so that merging paths under one label agrees with
merging them under another.
-/

namespace CilLift

open CilLift.Expr Work

section Agrees

variable {ε σ α β : Type} {errors : ε → ε → Prop} {states : σ → σ → Prop}

/-- Both outcomes are successes with one result in related states, or failures with related errors. -/
inductive Agree (errors : ε → ε → Prop) (states : σ → σ → Prop) :
    EStateM.Result ε σ α → EStateM.Result ε σ α → Prop where
  | ok {result : α} {first second : σ} (related : states first second) :
    Agree errors states (.ok result first) (.ok result second)
  | error {error other : ε} {first second : σ} (related : errors error other) :
    Agree errors states (.error error first) (.error other second)

/-- From related states the two steps have outcomes that agree. -/
def Agrees (errors : ε → ε → Prop) (states : σ → σ → Prop) (step other : EStateM ε σ α) : Prop :=
  ∀ first second, states first second → Agree errors states (step first) (other second)

theorem agrees_pure (result : α) : Agrees errors states (pure result : EStateM ε σ α) (pure result) :=
  fun _ _ related => .ok related

theorem agrees_throw {error other : ε} (related : errors error other) :
    Agrees errors states (throw error : EStateM ε σ α) (throw other) :=
  fun _ _ _ => .error related

theorem agrees_get {next next' : σ → EStateM ε σ α} (later : ∀ first second, states first second →
      Agrees errors states (next first) (next' second)) :
    Agrees errors states (get >>= next) (get >>= next') :=
  fun first second related => later first second related first second related

theorem agrees_set {first second : σ} (related : states first second) :
    Agrees errors states (set first : EStateM ε σ PUnit) (set second) :=
  fun _ _ _ => .ok related

theorem agrees_modify {change change' : σ → σ}
    (related : ∀ first second, states first second → states (change first) (change' second)) :
    Agrees errors states (modify change : EStateM ε σ PUnit) (modify change') :=
  fun first second before => .ok (related first second before)

theorem agrees_lift {errors : Error → Error → Prop} {value : Except Error α}
    (yields : Yields (fun error => errors error error) value fun _ => True) :
    Agrees errors states (liftM value : EStateM Error σ α) (liftM value) := by
  intro first second related
  cases value with
  | ok result => exact .ok related
  | error error => exact .error yields

theorem agrees_of_total {step : EStateM ε σ α}
    (total : ∀ state, ∃ result next, step state = .ok result next) :
    Agrees errors Eq step step := by
  rintro state _ rfl
  obtain ⟨result, next, success⟩ := total state
  rw [success]
  exact .ok rfl

theorem Agree.andThen {before after : σ → σ → Prop} {step other : EStateM ε σ β}
    {next next' : β → EStateM ε σ α} {first second : σ}
    (agree : Agree errors before (step first) (other second))
    (later : ∀ result first second, before first second →
      Agree errors after (next result first) (next' result second)) :
    Agree errors after ((step >>= next) first) ((other >>= next') second) := by
  change Agree errors after (EStateM.bind step next first) (EStateM.bind other next' second)
  unfold EStateM.bind
  cases stepped : step first <;> cases otherStepped : other second <;>
    rw [stepped, otherStepped] at agree <;> cases agree
  · exact later _ _ _ ‹_›
  · exact .error ‹_›

theorem agree_afterSame {step : EStateM ε σ β} {next next' : β → EStateM ε σ α} {state : σ}
    (reflexive : ∀ error, errors error error)
    (later : ∀ result middle, step state = .ok result middle →
      Agree errors states (next result middle) (next' result middle)) :
    Agree errors states ((step >>= next) state) ((step >>= next') state) := by
  change Agree errors states (EStateM.bind step next state) (EStateM.bind step next' state)
  unfold EStateM.bind
  cases stepped : step state with
  | ok result middle => exact later result middle stepped
  | error error middle => exact .error (reflexive error)

theorem Agree.mono {weaker : σ → σ → Prop} {outcome other : EStateM.Result ε σ α}
    (agree : Agree errors states outcome other)
    (implies : ∀ first second, states first second → weaker first second) :
    Agree errors weaker outcome other := by
  cases agree with
  | ok related => exact .ok (implies _ _ related)
  | error related => exact .error related

namespace Agrees

theorem andThen {step other : EStateM ε σ β} {next next' : β → EStateM ε σ α}
    (agrees : Agrees errors states step other)
    (later : ∀ result, Agrees errors states (next result) (next' result)) :
    Agrees errors states (step >>= next) (other >>= next') :=
  fun first second related => (agrees first second related).andThen later

theorem forM {items : List β} {body body' : β → EStateM ε σ PUnit}
    (each : ∀ item, Agrees errors states (body item) (body' item)) :
    Agrees errors states (items.forM body) (items.forM body') := by
  induction items with
  | nil => exact agrees_pure _
  | cons item rest ih => exact (each item).andThen fun _ => ih

theorem mapM {items : List β} {body body' : β → EStateM ε σ α}
    (each : ∀ item, Agrees errors states (body item) (body' item)) :
    Agrees errors states (items.mapM body) (items.mapM body') := by
  induction items with
  | nil => exact agrees_pure _
  | cons item rest ih =>
    rw [List.mapM_cons, List.mapM_cons]
    exact (each item).andThen fun _ => ih.andThen fun _ => agrees_pure _

end Agrees

end Agrees

namespace Error

/-- Errors of one kind, whatever they report. -/
def SameKind (error other : Error) : Prop := error.ctorIdx = other.ctorIdx

/-- The error does not say that delegates are nested too deeply. -/
def IsOwn (error : Error) : Prop := error ≠ .nestingLimit

/-- The relation holds between errors of one kind, unless they come out of nested delegates. -/
def Lenient (errors : Error → Error → Prop) : Prop :=
  ∀ error other, error.SameKind other → error.IsOwn → errors error other

theorem IsFault.isOwn {error : Error} (isFault : error.IsFault) : error.IsOwn := by
  rintro rfl
  exact isFault

end Error

namespace Error.Lenient

variable {errors : Error → Error → Prop} (lenient : Lenient errors) (label other : Label)

include lenient

section

variable {σ α : Type} {states : σ → σ → Prop}

theorem shape (fault other : ShapeFault) :
    Agrees errors states (throw (.shape fault) : EStateM Error σ α) (throw (.shape other)) :=
  agrees_throw (lenient _ _ rfl nofun)

theorem lift {value : Except Error α} {good : α → Prop} (yields : Yields IsFault value good) :
    Agrees errors states (liftM value : EStateM Error σ α) (liftM value) :=
  agrees_lift (yields.mono (fun _ _ => trivial) fun error isFault =>
    lenient error error rfl isFault.isOwn)

end

/-! Merging paths. -/

theorem popPlaceholder (id : StackId) (branch : BranchId) :
    Agrees errors Eq (popPlaceholder label id branch) (popPlaceholder other id branch) := by
  refine (agrees_of_total fun _ => ⟨_, _, rfl⟩).andThen fun found => ?_
  split
  · exact agrees_pure _
  · exact lenient.shape _ _

theorem replacePlaceholder (id : StackId) (old new : BranchId) :
    Agrees errors Eq (replacePlaceholder label id old new) (replacePlaceholder other id old new) :=
  (lenient.popPlaceholder label other id old).andThen fun _ =>
    agrees_of_total fun _ => ⟨_, _, rfl⟩

theorem assignLocal (id : StackId) (index : Nat) (value : Expr) :
    Agrees errors Eq (assignLocal id index value) (assignLocal id index value) := by
  refine (agrees_of_total fun _ => ⟨_, _, rfl⟩).andThen fun slot => ?_
  refine (agrees_of_total fun _ => ⟨_, _, rfl⟩).andThen fun space => ?_
  have faults : Yields IsFault (slot.assign value space.emission) fun _ => True :=
    (coerce_faults value slot.type).andThen fun _ _ => trivial
  exact (lenient.lift faults).andThen fun _ => agrees_of_total fun _ => ⟨_, _, rfl⟩

theorem joinSlot (test : Expr) (onTrue onFalse target : StackId) (index : Nat) :
    Agrees errors Eq (joinSlot test onTrue onFalse target index)
      (joinSlot test onTrue onFalse target index) := by
  refine (agrees_of_total fun _ => ⟨_, _, rfl⟩).andThen fun trueSlot => ?_
  refine (agrees_of_total fun _ => ⟨_, _, rfl⟩).andThen fun falseSlot => ?_
  split
  · exact agrees_of_total fun _ => ⟨_, _, rfl⟩
  · refine (agrees_of_total fun _ => ⟨_, _, rfl⟩).andThen fun trueValue => ?_
    refine (agrees_of_total fun _ => ⟨_, _, rfl⟩).andThen fun falseValue => ?_
    split
    · exact (lenient.lift (condition_forms ..)).andThen fun merged =>
        lenient.assignLocal target index merged
    · exact agrees_of_total fun _ => ⟨_, _, rfl⟩

theorem joinLocals (test : Expr) (onTrue onFalse target : StackId) :
    Agrees errors Eq (joinLocals test onTrue onFalse target) (joinLocals test onTrue onFalse target) :=
  (agrees_of_total fun _ => ⟨_, _, rfl⟩).andThen fun _ =>
    Agrees.forM fun index => lenient.joinSlot test onTrue onFalse target index

theorem joinValues (branch : BranchId) (fork : Fork) :
    Agrees errors Eq (joinValues label branch fork) (joinValues other branch fork) := by
  refine (agrees_of_total fun _ => ⟨_, _, rfl⟩).andThen fun trueValue => ?_
  refine (agrees_of_total fun _ => ⟨_, _, rfl⟩).andThen fun falseValue => ?_
  split
  · exact (lenient.lift (condition_forms ..)).andThen fun _ =>
      agrees_of_total fun _ => ⟨_, _, rfl⟩
  · exact agrees_pure _
  · exact lenient.shape _ _

theorem joinSides (branch : BranchId) :
    Agrees errors Eq (joinSides label branch) (joinSides other branch) := by
  refine (agrees_of_total fun _ => ⟨_, _, rfl⟩).andThen fun space => ?_
  refine (lenient.popPlaceholder label other _ branch).andThen fun _ => ?_
  refine (lenient.joinValues label other branch _).andThen fun _ => ?_
  exact (lenient.joinLocals _ _ _ _).andThen fun _ => agrees_of_total fun _ => ⟨_, _, rfl⟩

theorem regraft (old : BranchId) (parent : StackId) (test : Expr) (onTrue onFalse : StackId) :
    Agrees errors Eq (regraft label old parent test onTrue onFalse)
      (regraft other old parent test onTrue onFalse) :=
  (agrees_of_total fun _ => ⟨_, _, rfl⟩).andThen fun new =>
    lenient.replacePlaceholder label other parent old new

theorem testOrNegation {σ : Type} {states : σ → σ → Prop} (fork : Fork) (isKept : Bool) :
    Agrees errors states (liftM (testOrNegation fork isKept) : EStateM Error σ Expr)
      (liftM (testOrNegation fork isKept)) :=
  lenient.lift (Custody.testOrNegation_forms fork isKept)

theorem joinDiamond (first second : StackId) (firstBranch secondBranch : BranchId) :
    Agrees errors Eq (joinDiamond label first second firstBranch secondBranch)
      (joinDiamond other first second firstBranch secondBranch) := by
  refine (agrees_of_total fun _ => ⟨_, _, rfl⟩).andThen fun space => ?_
  dsimp only
  split
  · split
    · refine (lenient.testOrNegation _ _).andThen fun firstTest => ?_
      refine (agrees_of_total fun _ => ⟨_, _, rfl⟩).andThen fun _ => ?_
      refine (lenient.testOrNegation _ _).andThen fun secondTest => ?_
      refine (lenient.testOrNegation _ _).andThen fun rootTest => ?_
      refine (agrees_of_total fun _ => ⟨_, _, rfl⟩).andThen fun rootTest => ?_
      refine (lenient.joinLocals _ _ _ _).andThen fun _ => ?_
      refine (lenient.joinLocals _ _ _ _).andThen fun _ => ?_
      refine (lenient.lift (condition_forms ..)).andThen fun test => ?_
      exact (lenient.regraft label other _ _ _ _ _).andThen fun _ => agrees_pure _
    · exact agrees_pure _
  · exact agrees_pure _

theorem joinNested (older younger : StackId) (olderBranch youngerBranch : BranchId) :
    Agrees errors Eq (joinNested label older younger olderBranch youngerBranch)
      (joinNested other older younger olderBranch youngerBranch) := by
  refine (agrees_of_total fun _ => ⟨_, _, rfl⟩).andThen fun space => ?_
  refine (lenient.lift (Custody.nestedTest_forms ..)).andThen fun test => ?_
  refine (lenient.joinLocals _ _ _ _).andThen fun _ => ?_
  exact (lenient.regraft label other _ _ _ _ _).andThen fun _ => agrees_pure _

theorem depthOf (id : StackId) : Agrees errors Eq (depthOf id) (depthOf id) := by
  refine (agrees_of_total fun _ => ⟨_, _, rfl⟩).andThen fun space => ?_
  cases space.depth? id with
  | some depth => exact agrees_pure _
  | none => exact agrees_throw (lenient _ _ rfl nofun)

theorem joinPair (first second : StackId) :
    Agrees errors Eq (joinPair label first second) (joinPair other first second) := by
  refine (lenient.depthOf first).andThen fun firstDepth => ?_
  refine (lenient.depthOf second).andThen fun secondDepth => ?_
  refine (agrees_of_total fun _ => ⟨_, _, rfl⟩).andThen fun space => ?_
  dsimp only
  split
  · split
    · split
      · exact (lenient.joinSides label other _).andThen fun _ => agrees_pure _
      · split
        · exact lenient.joinDiamond label other first second _ _
        · exact agrees_pure _
    · split
      · split
        · exact (lenient.joinNested label other _ _ _ _).andThen fun _ => agrees_pure _
        · exact (lenient.joinNested label other _ _ _ _).andThen fun _ => agrees_pure _
      · exact agrees_pure _
  · exact agrees_pure _

theorem joinAll (latest : StackId) (earlier : List StackId) :
    Agrees errors Eq (joinAll label latest earlier) (joinAll other latest earlier) := by
  induction earlier generalizing latest with
  | nil => exact agrees_pure _
  | cons first rest ih =>
    refine (lenient.joinPair label other first latest).andThen fun merged => ?_
    split
    · exact ih _
    · refine (ih first).andThen fun first => ?_
      refine (lenient.joinPair label other first latest).andThen fun merged => ?_
      split
      · exact agrees_pure _
      · exact agrees_throw (lenient _ _ rfl nofun)

theorem join (waiting : List StackId) : Agrees errors Eq (join label waiting) (join other waiting) := by
  unfold Work.join
  split
  · exact lenient.shape _ _
  · exact lenient.joinAll label other _ _

end Error.Lenient

end CilLift
