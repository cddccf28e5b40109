import CilLift.Proofs.Operands

/-!
Which paths a merge absorbs. The sides of a fork that are merged are done with; a merge below both
sides of one fork is done with a third path as well, whether or not it has come to the same label.
So a path that waits is there when its label is reached unless such a merge has absorbed it.
-/

namespace CilLift

open List Machine Work Workspace Option Trace

namespace Workspace

variable {space next last : Workspace} {id : StackId}

/-- The same paths have been absorbed. -/
def SameMarks (space next : Workspace) : Prop :=
  ∀ id, (next.stack id).isReduced = (space.stack id).isReduced

namespace SameMarks

theorem refl (space : Workspace) : space.SameMarks space := fun _ => rfl

theorem trans (same : space.SameMarks next) (same' : next.SameMarks last) : space.SameMarks last :=
  fun id => (same' id).trans (same id)

theorem modifyStack (space : Workspace) (id : StackId) {change : EvalStack → EvalStack}
    (keeps : ∀ stack, (change stack).isReduced = stack.isReduced) :
    space.SameMarks (space.modifyStack id change) :=
  fun other => keep_modifyStack EvalStack.isReduced id other keeps

theorem forked (space : Workspace) (parent : StackId) (test : Expr) :
    space.SameMarks (space.forked parent test) :=
  fun id => keep_forked EvalStack.isReduced (fun _ _ => rfl) space parent id test

theorem reforked (space : Workspace) (parent : StackId) (test : Expr)
    (onTrue onFalse : StackId) :
    space.SameMarks (space.reforked parent test onTrue onFalse) :=
  fun id => keep_reforked EvalStack.isReduced (fun _ _ => rfl) space parent id test _ _

end SameMarks

end Workspace

namespace Work

open Workspace (SameMarks)

/-- The step absorbs no path. -/
def MarksNone {α : Type} (step : Work α) : Prop :=
  ∀ space, Ensures (fun _ => True) step space fun _ next => space.SameMarks next

namespace MarksNone

variable {α β : Type} (label : Label) (id : StackId)

theorem andThen {step : Work β} {second : β → Work α} (first : MarksNone step)
    (next : ∀ result, MarksNone (second result)) : MarksNone (step >>= second) :=
  fun space => (first space).andThen fun result middle same =>
    (next result middle).mono fun _ _ same' => same.trans same'

theorem pure (result : α) : MarksNone (pure result) := fun space => .refl space

theorem read : MarksNone (get : Work Workspace) := fun space => .refl space

theorem throw (error : Error) : MarksNone (throw error : Work α) := fun _ => trivial

theorem lift (value : Except Error α) : MarksNone (liftM value) := by
  cases value with
  | ok result => exact pure result
  | error error => exact throw error

theorem emit (step : Emission → α × Emission) : MarksNone (emit step) := fun _ _ => rfl

theorem pushUntracked (value : Expr) : MarksNone (pushUntracked id value) :=
  (emit _).andThen fun _ space => .modifyStack space id fun _ => rfl

theorem push (value : Expr) : MarksNone (push id value) :=
  (emit _).andThen fun _ => (emit _).andThen fun _ => pushUntracked id _

theorem pop? : MarksNone (pop? id) := by
  intro space
  refine (ensures_modifyGet _).2 ?_
  split
  · exact .refl space
  · exact .modifyStack space id fun _ => rfl

theorem popPlaceholder (branch : BranchId) : MarksNone (popPlaceholder label id branch) := by
  refine (pop? id).andThen fun found => ?_
  split
  · exact pure ()
  · exact throw _

theorem joinValues (branch : BranchId) (fork : Fork) : MarksNone (joinValues label branch fork) := by
  refine (pop? _).andThen fun trueValue => (pop? _).andThen fun falseValue => ?_
  split
  · exact (lift _).andThen fun _ => push _ _
  · exact pure ()
  · exact throw _

theorem joinLocals (test : Expr) (onTrue onFalse target : StackId) :
    MarksNone (joinLocals test onTrue onFalse target) :=
  fun space => (joinLocals_same test onTrue onFalse target space).mono fun _ _ same => same.isReduced

theorem regraft (old : BranchId) (parent : StackId) (test : Expr)
    (onTrue onFalse : StackId) : MarksNone (regraft label old parent test onTrue onFalse) := by
  refine andThen (fun space => ?_) fun new =>
    (popPlaceholder label parent old).andThen fun _ => pushUntracked parent _
  exact SameMarks.reforked (space.placing test) parent (space.emission.place test).1 onTrue onFalse

theorem joinNested (older younger : StackId) (olderBranch youngerBranch : BranchId) :
    MarksNone (joinNested label older younger olderBranch youngerBranch) := by
  refine read.andThen fun space => ?_
  refine (lift _).andThen fun test => (joinLocals _ _ _ _).andThen fun _ => ?_
  exact (regraft _ _ _ _ _ _).andThen fun _ => pure older

end MarksNone

end Work

namespace Workspace

variable {space next : Workspace} {label : Label} {first second id : StackId}
  {branch firstBranch secondBranch : BranchId} {joined : Option StackId}

/-- The path has been absorbed. -/
def marked (space : Workspace) (id : StackId) : Workspace :=
  space.modifyStack id fun stack => { stack with isReduced := true }

theorem isReduced_marked (space : Workspace) (id other : StackId) :
    ((space.marked id).stack other).isReduced = if id = other ∧ id < space.paths.length then true
      else (space.stack other).isReduced := by
  rw [marked, stack_modifyStack]
  split <;> rfl

/-- Merging the sides of a fork absorbs no other path. -/
theorem isReduced_joinSides {parent : StackId}
    (merge : joinSides label branch space = .ok parent next)
    (notTrue : id ≠ (space.fork branch).onTrue)
    (notFalse : id ≠ (space.fork branch).onFalse) :
    (next.stack id).isReduced = (space.stack id).isReduced := by
  obtain ⟨_, _, ⟨⟩, merge⟩ := andThen_eq_ok.1 merge
  obtain ⟨⟨⟩, opened, opens, merge⟩ := andThen_eq_ok.1 merge
  obtain ⟨⟨⟩, valued, values, merge⟩ := andThen_eq_ok.1 merge
  obtain ⟨⟨⟩, settled, settles, merge⟩ := andThen_eq_ok.1 merge
  have same : space.SameMarks settled :=
    ((MarksNone.popPlaceholder _ _ _ space).of_ok opens).trans
      (((MarksNone.joinValues _ _ _ opened).of_ok values).trans
        ((MarksNone.joinLocals _ _ _ _ valued).of_ok settles))
  cases merge
  change (((settled.marked _).marked _).stack id).isReduced = _
  rw [isReduced_marked, if_neg fun found => notFalse found.1.symm, isReduced_marked,
    if_neg fun found => notTrue found.1.symm]
  exact same id

/-- Two empty paths lie equally deep under different forks. -/
structure Faces (space : Workspace) (first second : StackId)
    (firstBranch secondBranch : BranchId) : Prop where
  sameDepth : space.depth? first = space.depth? second
  bothEmpty : ((space.stack first).isEmpty && (space.stack second).isEmpty) = true
  firstSide : space.parent first = some firstBranch
  secondSide : space.parent second = some secondBranch
  isApart : firstBranch ≠ secondBranch

/-- The paths that a merge of two is done with besides them: the one beside the second, if both
forks lie below one. -/
def Absorbs (space : Workspace) (first second absorbed : StackId) : Prop :=
  ∃ firstBranch secondBranch root, space.Faces first second firstBranch secondBranch ∧
    space.parent (space.fork firstBranch).parent = some root ∧
    space.parent (space.fork secondBranch).parent = some root ∧
    absorbed = (space.fork secondBranch).side !((space.fork secondBranch).onTrue == second)

/-- What a merge of two paths that face each other comes to. -/
theorem isReduced_joinDiamond
    (merge : joinDiamond label first second firstBranch secondBranch space = .ok joined next) :
    (∃ root, space.parent (space.fork firstBranch).parent = some root ∧
      space.parent (space.fork secondBranch).parent = some root ∧
      (space.marked ((space.fork secondBranch).side
        !((space.fork secondBranch).onTrue == second))).SameMarks next) ∨
    (∀ root, space.parent (space.fork firstBranch).parent = some root →
      space.parent (space.fork secondBranch).parent ≠ some root) ∧ next = space := by
  obtain ⟨_, _, ⟨⟩, merge⟩ := andThen_eq_ok.1 merge
  cases firstRoot : space.parent (space.fork firstBranch).parent with
  | none =>
    rw [firstRoot] at merge
    cases merge
    exact .inr ⟨nofun, rfl⟩
  | some root =>
    cases secondRoot : space.parent (space.fork secondBranch).parent with
    | none =>
      rw [firstRoot, secondRoot] at merge
      cases merge
      exact .inr ⟨nofun, rfl⟩
    | some other =>
      rw [firstRoot, secondRoot] at merge
      dsimp only at merge
      by_cases isSame : root = other
      · rw [if_pos isSame] at merge
        refine .inl ⟨root, rfl, congrArg some isSame.symm, ?_⟩
        obtain ⟨firstTest, _, isTest, merge⟩ := andThen_eq_ok.1 merge
        obtain ⟨-, rfl⟩ := liftM_eq_ok.1 isTest
        obtain ⟨⟨⟩, _, ⟨⟩, merge⟩ := andThen_eq_ok.1 merge
        -- Nothing is absorbed after the path beside the second one.
        refine ((?_ : MarksNone _) _).of_ok merge
        refine .andThen (.lift _) fun secondTest => .andThen (.lift _) fun rootTest => ?_
        refine .andThen (.emit _) fun rootTest => .andThen (.joinLocals _ _ _ _) fun _ => ?_
        refine .andThen (.joinLocals _ _ _ _) fun _ => .andThen (.lift _) fun test => ?_
        exact .andThen (.regraft _ _ _ _ _ _) fun _ => .pure _
      · rw [if_neg isSame] at merge
        cases merge
        refine .inr ⟨?_, rfl⟩
        rintro _ ⟨⟩ isOther
        exact isSame (some.inj isOther).symm

/-- Two paths are merged as the sides of their fork or across from each other; what else can become
of them absorbs no path. -/
theorem joinPair_cases (merge : joinPair label first second space = .ok joined next) :
    (∃ branch parent, space.parent first = some branch ∧ space.parent second = some branch ∧
      joinSides label branch space = .ok parent next) ∨
    (∃ firstBranch secondBranch, space.Faces first second firstBranch secondBranch ∧
      joinDiamond label first second firstBranch secondBranch space = .ok joined next) ∨
    ((∀ firstBranch secondBranch, ¬space.Faces first second firstBranch secondBranch) ∧
      space.SameMarks next) := by
  obtain ⟨firstDepth, _, atFirst, merge⟩ := andThen_eq_ok.1 merge
  obtain ⟨isFirst, rfl⟩ := depthOf_eq_ok atFirst
  obtain ⟨secondDepth, _, atSecond, merge⟩ := andThen_eq_ok.1 merge
  obtain ⟨isSecond, rfl⟩ := depthOf_eq_ok atSecond
  obtain ⟨_, _, ⟨⟩, merge⟩ := andThen_eq_ok.1 merge
  cases firstSide : space.parent first with
  | none =>
    rw [firstSide] at merge
    cases merge
    refine .inr (.inr ⟨fun _ _ faces => ?_, .refl space⟩)
    cases firstSide.symm.trans faces.firstSide
  | some firstBranch =>
    cases secondSide : space.parent second with
    | none =>
      rw [firstSide, secondSide] at merge
      cases merge
      refine .inr (.inr ⟨fun _ _ faces => ?_, .refl space⟩)
      cases secondSide.symm.trans faces.secondSide
    | some secondBranch =>
      rw [firstSide, secondSide] at merge
      dsimp only at merge
      by_cases sameDepth : firstDepth = secondDepth
      · rw [if_pos sameDepth] at merge
        by_cases sameBranch : firstBranch = secondBranch
        · rw [if_pos sameBranch] at merge
          obtain ⟨parent, _, merge, ⟨⟩⟩ := andThen_eq_ok.1 merge
          exact .inl ⟨firstBranch, parent, rfl, congrArg some sameBranch.symm, merge⟩
        · rw [if_neg sameBranch] at merge
          by_cases bothEmpty : ((space.stack first).isEmpty && (space.stack second).isEmpty) = true
          · rw [if_pos bothEmpty] at merge
            have sameDepth : space.depth? first = space.depth? second := by
              rw [isFirst, isSecond, sameDepth]
            exact .inr (.inl ⟨firstBranch, secondBranch,
              ⟨sameDepth, bothEmpty, firstSide, secondSide, sameBranch⟩, merge⟩)
          · rw [if_neg bothEmpty] at merge
            cases merge
            exact .inr (.inr ⟨fun _ _ faces => bothEmpty faces.bothEmpty, .refl space⟩)
      · rw [if_neg sameDepth] at merge
        have differs : ∀ firstBranch secondBranch,
            ¬space.Faces first second firstBranch secondBranch := by
          intro _ _ faces
          have same := faces.sameDepth
          rw [isFirst, isSecond] at same
          exact sameDepth (some.inj same)
        refine .inr (.inr ⟨differs, ?_⟩)
        split at merge
        · split at merge
          · obtain ⟨_, _, merge, ⟨⟩⟩ := andThen_eq_ok.1 merge
            exact (MarksNone.joinNested _ _ _ _ _ space).of_ok merge
          · obtain ⟨_, _, merge, ⟨⟩⟩ := andThen_eq_ok.1 merge
            exact (MarksNone.joinNested _ _ _ _ _ space).of_ok merge
        · cases merge
          exact .refl space

variable {start : Nat} {origin : Atlas} {aside : List StackId}

/-- A merge absorbs a path aside exactly if that is beside the second of two paths that face each
other below one fork. -/
theorem Guarded.joinPair_marks (guarded : space.Guarded start origin (second :: first :: aside))
    (isAside : id ∈ aside) (merge : joinPair label first second space = .ok joined next) :
    (next.stack id).isReduced = false ↔
      (space.stack id).isReduced = false ∧ ¬space.Absorbs first second id := by
  obtain ⟨notSecond, distinct⟩ := nodup_cons.1 guarded.distinct
  have notFirst := (nodup_cons.1 distinct).1
  have differs : id ≠ first ∧ id ≠ second := by
    constructor
    · rintro rfl
      exact notFirst isAside
    · rintro rfl
      exact notSecond (mem_cons_of_mem _ isAside)
  rcases joinPair_cases merge with
    ⟨branch, parent, firstSide, secondSide, merge⟩ | ⟨firstBranch, secondBranch, faces, merge⟩ |
    ⟨apart, same⟩
  · have isKept : (next.stack id).isReduced = (space.stack id).isReduced := by
      rcases guarded.areSides firstSide secondSide rfl with ⟨isTrue, isFalse⟩ | ⟨isFalse, isTrue⟩
      · exact isReduced_joinSides merge (isTrue ▸ differs.1) (isFalse ▸ differs.2)
      · exact isReduced_joinSides merge (isTrue ▸ differs.2) (isFalse ▸ differs.1)
    have spares : ¬space.Absorbs first second id := by
      rintro ⟨_, _, _, faces, -⟩
      cases firstSide.symm.trans faces.firstSide
      cases secondSide.symm.trans faces.secondSide
      exact faces.isApart rfl
    rw [isKept]
    exact ⟨fun isLive => ⟨isLive, spares⟩, And.left⟩
  · rcases isReduced_joinDiamond merge with ⟨root, firstRoot, secondRoot, same⟩ | ⟨noRoot, rfl⟩
    · have absorbs : space.Absorbs first second id ↔ id = (space.fork secondBranch).side
          !((space.fork secondBranch).onTrue == second) := by
        constructor
        · rintro ⟨_, _, _, faces', -, -, isAbsorbed⟩
          cases faces.secondSide.symm.trans faces'.secondSide
          exact isAbsorbed
        · exact fun isAbsorbed => ⟨_, _, root, faces, firstRoot, secondRoot, isAbsorbed⟩
      have inside : id < space.paths.length := guarded.inside id (by simp [isAside])
      rw [same id, isReduced_marked, absorbs]
      split
      · rename_i found
        simp [found.1]
      · rename_i notFound
        refine ⟨fun isLive => ⟨isLive, ?_⟩, And.left⟩
        rintro rfl
        exact notFound ⟨rfl, inside⟩
    · refine ⟨fun isLive => ⟨isLive, ?_⟩, And.left⟩
      rintro ⟨_, _, root, faces', firstRoot, secondRoot, -⟩
      cases faces.firstSide.symm.trans faces'.firstSide
      cases faces.secondSide.symm.trans faces'.secondSide
      exact noRoot root firstRoot secondRoot
  · rw [same id]
    refine ⟨fun isLive => ⟨isLive, ?_⟩, And.left⟩
    rintro ⟨_, _, _, faces, -⟩
    exact apart _ _ faces

/-- A join absorbs a path aside exactly if one of the merges that it tries does. -/
theorem Guarded.joinAll_marks {latest merged : StackId} {rest : List StackId}
    (guarded : space.Guarded start origin (latest :: rest ++ aside)) (isAside : id ∈ aside)
    (joins : joinAll label latest rest space = .ok merged next) :
    (next.stack id).isReduced = false ↔ (space.stack id).isReduced = false ∧
        ∀ first second tried, Tries label latest rest space first second tried →
          ¬tried.Absorbs first second id := by
  induction rest generalizing latest aside space next merged with
  | nil =>
    cases joins
    exact ⟨fun isLive => ⟨isLive, nofun⟩, And.left⟩
  | cons first rest ih =>
    obtain ⟨found, between, merge, joins⟩ := andThen_eq_ok.1 joins
    have pair := guarded.joinPair_marks (mem_append_right rest isAside) merge
    have kept := (merges label first latest _ guarded).of_ok merge
    cases found with
    | some joined =>
      rw [ih kept isAside joins, pair]
      constructor
      · rintro ⟨⟨isLive, spares⟩, sparesLater⟩
        refine ⟨isLive, fun _ _ _ tries => ?_⟩
        cases tries with
        | latest => exact spares
        | merged merge' later =>
          cases merge.symm.trans merge'
          exact sparesLater _ _ _ later
        | earlier apart | again apart => cases merge.symm.trans apart
      · rintro ⟨isLive, spares⟩
        exact ⟨⟨isLive, spares _ _ _ .latest⟩, fun _ _ _ later => spares _ _ _ (.merged merge later)⟩
    | none =>
      -- The earlier paths are joined while the latest one waits with the others.
      have waiting : between.Guarded start origin (first :: rest ++ latest :: aside) :=
        kept.fewer (@perm_middle _ latest (first :: rest) aside).subperm
      obtain ⟨earlier, last, joinsEarlier, joins⟩ := andThen_eq_ok.1 joins
      obtain ⟨found, _, mergeLast, joins⟩ := andThen_eq_ok.1 joins
      have ready := (joinAll_keeps (fun _ _ => trivial)
        (fun _ _ _ same guarded => guarded.fewer same.symm.subperm)
        (fun first second _ _ => merges label first second) waiting).of_ok joinsEarlier
      have pairLast := (ready.fewer (Perm.swap ..).subperm).joinPair_marks isAside mergeLast
      cases found with
      | none => cases joins
      | some joined =>
        cases joins
        rw [pairLast, ih waiting (mem_cons_of_mem _ isAside) joinsEarlier, pair]
        constructor
        · rintro ⟨⟨⟨isLive, spares⟩, sparesEarlier⟩, sparesLast⟩
          refine ⟨isLive, fun _ _ _ tries => ?_⟩
          cases tries with
          | latest => exact spares
          | merged merge' => cases merge.symm.trans merge'
          | earlier apart later =>
            cases merge.symm.trans apart
            exact sparesEarlier _ _ _ later
          | again apart others =>
            cases merge.symm.trans apart
            cases joinsEarlier.symm.trans others
            exact sparesLast
        · rintro ⟨isLive, spares⟩
          exact ⟨⟨⟨isLive, spares _ _ _ .latest⟩, fun _ _ _ later =>
            spares _ _ _ (.earlier merge later)⟩, spares _ _ _ (.again merge joinsEarlier)⟩

end Workspace

/-- The same paths have been absorbed as at first. -/
def marking (start : Workspace) : Custody where
  Holds next _ _ := start.SameMarks next
  Tolerates _ := True

section Instructions

variable {α : Type} {start space : Workspace}

theorem Work.MarksNone.keeps {step : Work α} {shared : List Expr} {after : α → List Held}
    (none : step.MarksNone) (same : start.SameMarks space) :
    (marking start).Keeps step space shared after :=
  (none space).mono fun _ _ same' => same.trans same'

theorem marking_lawful (start : Workspace) (touches views : StackId → Prop) :
    (marking start).Lawful touches views where
  answer _ _ := trivial
  perm _ same := same
  drop same := same
  use same := same
  share _ same := same
  forget same := same
  lend _ same := same
  build _ _ same := same
  store _ same := same
  call _ _ _ same := same
  new _ _ same := same
  invoke _ _ _ same := same
  place same := (MarksNone.emit _).keeps same
  push _ same := (MarksNone.push _ _).keeps same
  pop _ same := (MarksNone.pop? _).keeps same
  gather _ same := same.trans (.modifyStack _ _ fun _ => rfl)
  scatter _ _ same := same.trans (.modifyStack _ _ fun _ => rfl)
  readLocal _ _ same := (MarksNone.read.andThen fun _ => .emit _).keeps same
  assignLocal _ _ same := MarksNone.keeps (fun space => (assignLocal_same _ _ _ space).mono
      fun _ _ same => same.isReduced) same
  statement same := ((MarksNone.emit _).andThen fun _ => .emit _).keeps same
  addStatement _ same := (MarksNone.emit _).keeps same
  materialize _ same := (MarksNone.emit _).keeps same

theorem yields_true (value : Except Error α) {post : α → Prop} (done : ∀ result, post result) :
    Yields (fun _ => True) value post := by
  cases value with
  | ok result => exact done result
  | error error => trivial

theorem marking_serves (start : Workspace) (task : Task) (path : StackId) :
    (marking start).Serves task path where
  lawful := marking_lawful start _ _
  parameter _ _ same := same
  target _ _ same := same
  known _ _ same := same
  receive same := same
  methodBody _ _ := yields_true _ fun _ => trivial
  capturedDelegate _ _ := yields_true _ fun _ _ _ _ _ _ _ _ same =>
    (MarksNone.emit _).keeps same
  nested _ _ _ _ _ _ _ _ same := yields_true _ fun _ => (MarksNone.emit _).keeps same

end Instructions

namespace Machine

variable {task : Task} {machine next : Machine} {event : Event} {label other : Label} {id : StackId}
  {start : Nat} {origin : Atlas}

/-- An instruction absorbs no path, and those that wait go on waiting. -/
theorem instruction_marks (task : Task) {path : StackId}
    (isInstruction : event.isInstruction = true) (isCurrent : machine.current = some path) :
    Ensures (fun _ => True) (step task event) machine fun _ next =>
      machine.workspace.SameMarks next.workspace ∧ machine.waiters ⊆ next.waiters := by
  refine (marking_serves machine.workspace task path).step isInstruction isCurrent
    (.refl machine.workspace) (fun _ _ _ _ _ _ _ => .refl machine.workspace)
    fun label => ⟨?_, ?_, ?_⟩
  · intro next same paths
    refine ⟨same, ?_⟩
    change _ ⊆ next.waiters ++ _
    rw [paths.waiters]
    exact subset_append_left ..
  · intro next same paths
    exact ⟨same, paths.waiters ▸ Subset.refl _⟩
  · intro next test same paths
    refine ensures_forkAt ((MarksNone.push path _ _).mono fun _ final same' => ⟨?_, ?_⟩)
    · exact (same.trans (.forked (next.workspace.placing test) path _)).trans same'
    · rw [paths.waiters]
      exact subset_append_left ..

/-- Where paths wait, they are joined, or nobody is left to go on. -/
theorem arriveAt_eq_ok (waits : (machine.waiters.any fun waiter => waiter.1 == other) = true)
    (arrives : arriveAt other machine = .ok () next) :
    next.waiters = machine.waiters.filter (fun waiter => waiter.1 != other) ∧
      (machine.meeting other = [] ∧ next.workspace = machine.workspace ∨
        ∃ joined, join other (machine.meeting other) machine.workspace = .ok joined next.workspace) := by
  cases joins : join other (machine.meeting other) machine.workspace with
  | ok joined space =>
    cases (arriveAt_of_join waits joins).symm.trans arrives
    exact ⟨rfl, .inr ⟨joined, rfl⟩⟩
  | error error stuck =>
    obtain ⟨_, _, ⟨⟩, arrives⟩ := andThen_eq_ok.1 arrives
    rw [if_pos waits] at arrives
    obtain ⟨⟨⟩, _, ⟨⟩, arrives⟩ := andThen_eq_ok.1 arrives
    cases meets : machine.meeting other with
    | nil =>
      rw [meets] at arrives
      cases arrives
      exact ⟨rfl, .inl ⟨rfl, rfl⟩⟩
    | cons first rest =>
      rw [meets] at arrives joins
      obtain ⟨joined, _, works, -⟩ := andThen_eq_ok.1 arrives
      unfold work at works
      rw [joins] at works
      cases works

/-- The pairs that the run tries spare the path. -/
def Spares (task : Task) (events : List Event) (machine : Machine) (id : StackId) : Prop :=
  ∀ label first second space, Tries task events machine label first second space →
    ¬space.Absorbs first second id

/-- A run spares a path if its first event does and the others do. -/
theorem spares_cons_iff {rest : List Event} (steps : step task event machine = .ok () next) :
    Spares task (event :: rest) machine id ↔
      Spares task [event] machine id ∧ Spares task rest next id := by
  constructor
  · intro spares
    refine ⟨fun _ _ _ _ tries => ?_, fun _ _ _ _ tries => spares _ _ _ _ (.later steps tries)⟩
    cases tries with
    | now arrives waits meets tries => exact spares _ _ _ _ (.now arrives waits meets tries)
    | later _ tries => cases tries
  · rintro ⟨spares, sparesLater⟩ _ _ _ _ tries
    cases tries with
    | now arrives waits meets tries => exact spares _ _ _ _ (.now arrives waits meets tries)
    | later steps' tries =>
      cases steps.symm.trans steps'
      exact sparesLater _ _ _ _ tries

theorem spares_of_instruction (isInstruction : event.isInstruction = true) :
    Spares task [event] machine id := by
  intro _ _ _ _ tries
  cases tries with
  | now arrives =>
    cases event with
    | label | finish => cases isInstruction
    | _ => cases arrives
  | later _ tries => cases tries

/-- Where other paths meet, a path that waits elsewhere goes on waiting. It is absorbed exactly if a
pair that is tried absorbs it. -/
theorem arriveAt_marks (guarded : machine.workspace.Guarded start origin machine.active)
    (parked : (label, id) ∈ machine.waiters) (elsewhere : other ≠ label)
    (arrives : arriveAt other machine = .ok () next) :
    (label, id) ∈ next.waiters ∧ ((next.workspace.stack id).isReduced = false ↔
        (machine.workspace.stack id).isReduced = false ∧ Spares task [.label other] machine id) := by
  by_cases waits : (machine.waiters.any fun waiter => waiter.1 == other) = true
  · obtain ⟨isWaiting, joins⟩ := arriveAt_eq_ok waits arrives
    have stays : (label, id) ∈ machine.waiters.filter fun waiter => waiter.1 != other :=
      mem_filter.2 ⟨parked, by simpa using symm elsewhere⟩
    refine ⟨isWaiting ▸ stays, ?_⟩
    rcases joins with ⟨nobody, same⟩ | ⟨joined, joins⟩
    · rw [same]
      refine ⟨fun isLive => ⟨isLive, fun _ _ _ _ tries => ?_⟩, And.left⟩
      cases tries with
      | now arrives _ meets =>
        cases arrives
        rw [nobody] at meets
        cases meets
      | later _ tries => cases tries
    · unfold Work.join at joins
      cases reversed : (machine.meeting other).reverse with
      | nil =>
        rw [reversed] at joins
        cases joins
      | cons latest earlier =>
        rw [reversed] at joins
        have inReverse : (latest :: earlier).Perm (machine.meeting other) :=
          reversed ▸ reverse_perm _
        have ready := (guarded.fewer (machine.meeting_subperm other)).fewer
          (inReverse.append_right _).subperm
        rw [ready.joinAll_marks (mem_map_of_mem stays) joins]
        refine and_congr_right fun _ => ⟨fun spares _ _ _ _ tries => ?_, fun spares _ _ _ tries =>
          spares _ _ _ _ (.now rfl waits reversed tries)⟩
        cases tries with
        | now arrives _ meets tries =>
          cases arrives
          cases reversed.symm.trans meets
          exact spares _ _ _ tries
        | later _ tries => cases tries
  · rw [Bool.not_eq_true] at waits
    cases (arriveAt_idle waits).symm.trans arrives
    refine ⟨parked, fun isLive => ⟨isLive, fun _ _ _ _ tries => ?_⟩, And.left⟩
    cases tries with
    | now arrives waits' =>
      cases arrives
      cases waits.symm.trans waits'
    | later _ tries => cases tries

/-- Until its label is reached, a path goes on waiting, and it is absorbed exactly if a pair that is
tried on the way absorbs it. -/
theorem parked_marks {passed : List Event} {visited : Machine}
    (accepts : clearance.Accepts task start origin)
    (guarded : machine.workspace.Guarded start origin machine.active)
    (parked : (label, id) ∈ machine.waiters) (isInner : ∀ event ∈ passed, event.isInner = true)
    (elsewhere : ∀ event ∈ passed, event.arrival? ≠ some label)
    (passes : passed.forM (step task) machine = .ok () visited) :
    (label, id) ∈ visited.waiters ∧ ((visited.workspace.stack id).isReduced = false ↔
        (machine.workspace.stack id).isReduced = false ∧ Spares task passed machine id) := by
  induction passed generalizing machine with
  | nil =>
    cases passes
    exact ⟨parked, fun isLive => ⟨isLive, nofun⟩, And.left⟩
  | cons event rest ih =>
    obtain ⟨⟨⟩, next, steps, passes⟩ := andThen_eq_ok.1 passes
    have alone : [event].forM (step task) machine = .ok () next :=
      andThen_eq_ok.2 ⟨(), next, steps, rfl⟩
    have guardedNext := guarded.run accepts (by simpa using isInner event mem_cons_self) alone
    have marks : (label, id) ∈ next.waiters ∧ ((next.workspace.stack id).isReduced = false ↔
          (machine.workspace.stack id).isReduced = false ∧ Spares task [event] machine id) := by
      rcases Event.isInner_iff.1 (isInner event mem_cons_self) with
        isInstruction | ⟨other, rfl⟩
      · have spares : Spares task [event] machine id := spares_of_instruction isInstruction
        cases isCurrent : machine.current with
        | some path =>
          obtain ⟨same, waits⟩ := (instruction_marks task isInstruction isCurrent).of_ok steps
          rw [same id]
          exact ⟨waits parked, fun isLive => ⟨isLive, spares⟩, And.left⟩
        | none =>
          obtain ⟨offset, idles⟩ := step_idle task isInstruction isCurrent
          cases idles.symm.trans steps
          exact ⟨parked, fun isLive => ⟨isLive, spares⟩, And.left⟩
      · refine arriveAt_marks guarded parked (fun same => ?_) steps
        exact elsewhere _ mem_cons_self (congrArg some same)
    obtain ⟨stays, later⟩ := ih guardedNext marks.1
      (fun event mem => isInner event (mem_cons_of_mem _ mem))
      (fun event mem => elsewhere event (mem_cons_of_mem _ mem)) passes
    refine ⟨stays, ?_⟩
    rw [later, marks.2, and_assoc, ← spares_cons_iff steps]

theorem mem_meeting_iff (distinct : machine.active.Nodup) (parked : (label, id) ∈ machine.waiters) :
    id ∈ machine.meeting label ↔ (machine.workspace.stack id).isReduced = false := by
  have notCurrent : id ∉ machine.current.toList := fun isCurrent =>
    (nodup_append.1 distinct).2.2 id isCurrent id (mem_map_of_mem parked) rfl
  rw [meeting, mem_append, or_iff_left notCurrent, mem_filterMap]
  constructor
  · rintro ⟨waiter, -, found⟩
    split at found
    · rename_i isLive
      cases found
      simpa using (Bool.and_eq_true_iff.1 isLive).2
    · cases found
  · intro isLive
    exact ⟨(label, id), parked, by simp [isLive]⟩

end Machine

namespace Lifter

variable {lifter : Lifter} {task : Task} {nextNode : Nat} {body : MethodBody}

/-- The run of a body comes through a machine and later on to a label at which no paths have met in
between. -/
structure ComesTo (lifter : Lifter) (task : Task) (nextNode : Nat) (body : MethodBody)
    (label : Label) (passed : List Event) (machine visited : Machine) : Prop where
  reaches : ∃ early visit later, (lifter.trace body).events =
      early ++ passed ++ visit :: later ∧ visit.arrival? = some label ∧
    early.forM (step task) (.initial nextNode) = .ok () machine
  elsewhere : ∀ event ∈ passed, event.arrival? ≠ some label
  passes : passed.forM (step task) machine = .ok () visited

/-- A path that waits for a label is among those that are joined there exactly if it had not been
absorbed already, and no merge at the labels on the way has absorbed it: none of two paths that face
each other below one fork, with this one beside the second. -/
theorem parked_meets_iff (captures : lifter.resolver.CapturesClear)
    (undertakes : lifter.Undertakes task nextNode) {passed : List Event} {machine visited : Machine}
    {label : Label} {id : StackId}
    (comes : lifter.ComesTo task nextNode body label passed machine visited)
    (parked : (label, id) ∈ machine.waiters) :
    id ∈ visited.meeting label ↔ (machine.workspace.stack id).isReduced = false ∧
        ∀ other first second space, Machine.Tries task passed machine other first second space →
          ¬space.Absorbs first second id := by
  obtain ⟨early, visit, later, isBody, -, reached⟩ := comes.reaches
  obtain ⟨events, isEvents, isInner⟩ := exists_events lifter body
  rw [isEvents] at isBody
  let origin : Atlas := fun _ => .boolean true
  have accepts := undertakes.accepts captures origin
  match early with
  | [] =>
    cases reached
    cases parked
  | [_] =>
    obtain ⟨rfl, -⟩ := cons.inj isBody
    cases reached
    cases parked
  | _ :: _ :: early =>
    obtain ⟨rfl, rfl, rfl⟩ := isBody
    have guarded := guarded_opening.run accepts (fun event mem =>
      isInner event (by simp [mem])) (reached : early.forM (step task)
        (lifter.opening task nextNode body) = _)
    have innerPassed : ∀ event ∈ passed, event.isInner = true := fun event mem =>
      isInner event (by simp [mem])
    obtain ⟨stays, marks⟩ :=
      parked_marks accepts guarded parked innerPassed comes.elsewhere comes.passes
    rw [mem_meeting_iff (guarded.run accepts innerPassed comes.passes).distinct stays, marks]
    rfl

/-- Two machines that are seen in a run, before a label is reached and there. -/
theorem exists_comesTo {method : Method} {label : Label} {before after : Machine → Prop}
    [DecidablePred before] [DecidablePred after] (count more : Nat)
    (arrives : (lifter.trace body).events[count + more]?.bind Event.arrival? = some label)
    (elsewhere : ∀ event ∈ ((lifter.trace body).events.drop count).take more, event.arrival? ≠ some label)
    (seenBefore : (lifter.machineAfter method body count).map (fun machine =>
      decide (before machine)) = .ok true)
    (seenAfter : (lifter.machineAfter method body (count + more)).map (fun machine =>
      decide (after machine)) = .ok true) :
    ∃ task nextNode passed machine visited, lifter.rootTask method = .ok (task, nextNode) ∧
      lifter.ComesTo task nextNode body label passed machine visited ∧
      before machine ∧ after visited := by
  obtain ⟨machine, reached, isBefore⟩ := exists_of_map seenBefore
  obtain ⟨visited, visits, isAfter⟩ := exists_of_map seenAfter
  obtain ⟨task, nextNode, prepared, steps⟩ := machineAfter_eq_ok reached
  obtain ⟨_, _, prepared', passes⟩ := machineAfter_eq_ok visits
  cases prepared.symm.trans prepared'
  rw [take_add, forM_append] at passes
  obtain ⟨⟨⟩, _, steps', passes⟩ := andThen_eq_ok.1 passes
  cases steps.symm.trans steps'
  obtain ⟨visit, isVisit, isArrival⟩ := bind_eq_some_iff.1 arrives
  obtain ⟨inside, rfl⟩ := List.getElem?_eq_some_iff.1 isVisit
  have isSplit := (take_append_drop (count + more) (lifter.trace body).events).symm
  rw [take_add, drop_eq_getElem_cons inside] at isSplit
  exact ⟨task, nextNode, _, machine, visited, prepared,
    ⟨⟨_, _, _, isSplit, isArrival, steps⟩, elsewhere, passes⟩, of_decide_eq_true isBefore,
    of_decide_eq_true isAfter⟩

/-- Gives one where `a` holds, and goes on to choose between two and three elsewhere. -/
def earlyReturn : MethodBody where
  code := [0x02, 0x2c, 0x02, 0x17, 0x2a, 0x03, 0x2c, 0x03, 0x18, 0x2b, 0x01, 0x19, 0x2a]

/-- The path that returns early waits for the end while the sides of the later choice are merged,
and is there when the others come. -/
theorem earlyReturn_meets :
    ∃ task nextNode passed machine visited,
      conditionsOnly.rootTask (.taking .bool ["a", "b", "c"]) = .ok (task, nextNode) ∧
      conditionsOnly.ComesTo task nextNode earlyReturn .finish passed machine visited ∧
      (.finish, 1) ∈ machine.waiters ∧ 1 ∈ visited.meeting .finish ∧
      (machine.workspace.stack 1).isReduced = false ∧
      ∀ other first second space, Machine.Tries task passed machine other first second space →
        ¬space.Absorbs first second 1 := by
  obtain ⟨task, nextNode, passed, machine, visited, prepared, comes, parked, meets⟩ :
      ∃ task nextNode passed machine visited,
        conditionsOnly.rootTask (.taking .bool ["a", "b", "c"]) = .ok (task, nextNode) ∧
        conditionsOnly.ComesTo task nextNode earlyReturn .finish passed machine visited ∧
        (.finish, 1) ∈ machine.waiters ∧ 1 ∈ visited.meeting .finish :=
    exists_comesTo 10 15 (by decide +kernel) (by decide +kernel) (by decide +kernel) (by decide +kernel)
  exact ⟨task, nextNode, passed, machine, visited, prepared, comes, parked, meets,
    (parked_meets_iff capturesClear_conditionsOnly (undertakes_rootTask prepared) comes parked).1 meets⟩

/-- Goes to the first of three numbers where `b` or `c` holds, as `a` says, and else to the second
or to the third. -/
def crossingTests : MethodBody where
  code := [0x02, 0x2d, 0x05, 0x03, 0x2d, 0x07, 0x2b, 0x07, 0x04, 0x2d, 0x02, 0x2b, 0x04, 0x17, 0x2a,
    0x18, 0x2a, 0x19, 0x2a]

/-- The path to the third number is absorbed while it waits, and the number is lost. -/
theorem crossingTests_lose_path :
    (conditionsOnly.lift (.taking .bool ["a", "b", "c"]) crossingTests).map MethodTree.text =
        .ok "(a, b, c) => ((!a ? b : c) ? 1 : 2)" ∧
      ∃ task nextNode passed machine visited,
        conditionsOnly.rootTask (.taking .bool ["a", "b", "c"]) = .ok (task, nextNode) ∧
        conditionsOnly.ComesTo task nextNode crossingTests (.ofOffset 17) passed machine visited ∧
        ((.ofOffset 17, 5) ∈ machine.waiters ∧ (machine.workspace.stack 5).isReduced = false) ∧
        (.ofOffset 17, 5) ∈ visited.waiters ∧ (visited.workspace.stack 5).isReduced = true ∧
        5 ∉ visited.meeting (.ofOffset 17) :=
  ⟨by decide +kernel, exists_comesTo 19 10 (by decide +kernel) (by decide +kernel)
    (by decide +kernel) (by decide +kernel)⟩

end Lifter

end CilLift
