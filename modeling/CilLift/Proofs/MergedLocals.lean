import CilLift.Paths.Join
import CilLift.Proofs.Conditions
import CilLift.Proofs.Steps
import Mathlib.Data.Option.NAry

/-!
The locals of a path in which two paths have met. A local is assigned where both paths have assigned
it, and then has the value that the path taken has given it.
-/

namespace CilLift

open List CilLift.Expr Work Option

namespace LocalSlot

/-- The value that a local has been assigned. -/
def word? (valuation : Valuation) (slot : LocalSlot) : Option Int32 :=
  slot.value?.map (word valuation)

/-- The node that stands for the local where it is read. -/
def reading? (slot : LocalSlot) : Option Expr :=
  match slot.content with
  | .unassigned => none
  | .direct value => some value
  | .bound _ variableNode _ => some variableNode

/-- The local is read as a node of its type. -/
def Typed (slot : LocalSlot) : Prop :=
  ∀ node, slot.reading? = some node → node.Inhabits slot.type

end LocalSlot

/-- The variable of a local has the value that it is assigned. -/
def Valuation.Respects (valuation : Valuation) (slot : LocalSlot) : Prop :=
  slot.reading?.map (word valuation) = slot.word? valuation

namespace LocalSlot

/-- The conditional between the values of two locals is the negation of its test. -/
def TurnsAround (onTrue onFalse : LocalSlot) : Prop :=
  ∃ trueNode falseNode, onTrue.reading? = some trueNode ∧ onFalse.reading? = some falseNode ∧
    trueNode.TurnsAround falseNode

/-- The local of two paths that meet: `onTrue` where the test holds, and `onFalse` elsewhere. -/
structure Merges (test : Expr) (onTrue onFalse merged : LocalSlot) : Prop where
  isAssigned : merged.isAssigned = (onTrue.isAssigned && onFalse.isAssigned)
  word : onTrue.type = .int32 → ∀ valuation : Valuation,
    valuation.Respects onTrue → valuation.Respects onFalse →
    (onTrue.TurnsAround onFalse → test.Comparable valuation) →
    merged.word? valuation = map₂ (fun onTrue onFalse =>
      if test.holds valuation then onTrue else onFalse)
      (onTrue.word? valuation) (onFalse.word? valuation)

/-- Locals of one type, in which one identity stands for one value. -/
structure Mergeable (onTrue onFalse target : LocalSlot) : Prop where
  typedTrue : onTrue.Typed
  typedFalse : onFalse.Typed
  sameType : onFalse.type = onTrue.type
  targetType : target.type = onTrue.type
  sameValue : onTrue.holdsSame onFalse = true → onTrue.value? = onFalse.value?

variable {test : Expr} {slot onTrue onFalse target : LocalSlot} {valuation : Valuation}

theorem isSome_reading? (slot : LocalSlot) : slot.reading?.isSome = slot.isAssigned := by
  unfold reading? isAssigned value?
  cases slot.content <;> rfl

theorem read_fst (slot : LocalSlot) (emission : Emission) : (slot.read emission).1 = slot.reading? := by
  unfold read reading?
  cases slot.content <;> rfl

theorem value?_store (value : Expr) (slot : LocalSlot) (emission : Emission) :
    (slot.store value emission).1.value? = some (emission.place value).1 := by
  unfold store
  dsimp only
  split <;> rfl

theorem Mergeable.merges_same (mergeable : Mergeable onTrue onFalse target)
    (isSame : onTrue.holdsSame onFalse = true) : Merges test onTrue onFalse onTrue := by
  have sameValue := mergeable.sameValue isSame
  constructor
  · rw [isAssigned, isAssigned, sameValue, Bool.and_self]
  · intro _ valuation _ _ _
    rw [word?, word?, sameValue]
    cases onFalse.value? <;> simp

theorem merges_clear (unassigned : onTrue.isAssigned = false ∨ onFalse.isAssigned = false) :
    Merges test onTrue onFalse target.clear := by
  constructor
  · have isCleared : target.clear.isAssigned = false := rfl
    rcases unassigned with isNone | isNone <;> simp [isNone, isCleared]
  · intro _ valuation _ _ _
    have isCleared : target.clear.word? valuation = none := rfl
    rw [isCleared, word?, word?]
    simp only [isAssigned, isSome_eq_false_iff, isNone_iff_eq_none] at unassigned
    rcases unassigned with isNone | isNone <;> simp [isNone]

/-- Where the values differ, the local is assigned a value that selects one of them. -/
theorem merges_store {trueNode falseNode stored : Expr} (emission : Emission)
    (isTrue : onTrue.reading? = some trueNode) (isFalse : onFalse.reading? = some falseNode)
    (selects : onTrue.type = .int32 → Selects test trueNode falseNode stored) :
    Merges test onTrue onFalse (target.store stored emission).1 := by
  constructor
  · rw [← isSome_reading? onTrue, ← isSome_reading? onFalse, isTrue, isFalse, isAssigned, value?_store]
    rfl
  · intro isNumber valuation trueRespected falseRespected compares
    have selected := selects isNumber valuation fun turns =>
      compares ⟨trueNode, falseNode, isTrue, isFalse, turns⟩
    rw [← trueRespected, ← falseRespected, isTrue, isFalse, word?, value?_store, map_some,
      Emission.place, word_place, selected]
    rfl

end LocalSlot

/-- A path without its locals. -/
def EvalStack.bare (stack : EvalStack) : EvalStack := { stack with locals := [] }

namespace Workspace

/-- Gives a path other locals. -/
def withLocals (space : Workspace) (id : StackId) (locals : List LocalSlot) : Workspace :=
  space.modifyStack id fun stack => { stack with locals }

variable {space : Workspace} {test : Expr} {onTrue onFalse target id : StackId} {index : Nat}

theorem readLocal_eq (space : Workspace) (id : StackId) (index : Nat) :
    readLocal id index space = .ok (space.slot id index).reading?
      { space with emission := ((space.slot id index).read space.emission).2 } := by
  rw [← LocalSlot.read_fst _ space.emission]
  rfl

theorem assignLocal_eq {value stored : Expr}
    (coerced : value.coerce (space.slot id index).type = .ok stored) :
    assignLocal id index value space = .ok () { space.setSlot id index
          ((space.slot id index).store stored space.emission).1 with
        emission := ((space.slot id index).store stored space.emission).2 } := by
  have assigned : (space.slot id index).assign value space.emission =
      .ok ((space.slot id index).store stored space.emission) := by
    unfold LocalSlot.assign
    rw [coerced]
    rfl
  refine (andThen_of_ok rfl).trans ((andThen_of_ok rfl).trans ?_)
  rw [assigned]
  rfl

theorem clearLocal_eq (space : Workspace) (id : StackId) (index : Nat) :
    clearLocal id index space = .ok () (space.setSlot id index (space.slot id index).clear) := rfl

theorem joinSlot_of_same
    (isSame : (space.slot onTrue index).holdsSame (space.slot onFalse index) = true) :
    joinSlot test onTrue onFalse target index space =
      .ok () (space.setSlot target index (space.slot onTrue index)) := by
  refine (andThen_of_ok rfl).trans ((andThen_of_ok rfl).trans ?_)
  rw [if_pos isSame]
  rfl

/-- The workspace after the locals of both paths have been read. -/
def readBoth (space : Workspace) (onTrue onFalse : StackId) (index : Nat) : Workspace :=
  { space with emission := ((space.slot onFalse index).read
      ((space.slot onTrue index).read space.emission).2).2 }

/-- Slots that differ are read, and the target is assigned a conditional or cleared. -/
theorem joinSlot_of_differs
    (differs : (space.slot onTrue index).holdsSame (space.slot onFalse index) = false) :
    joinSlot test onTrue onFalse target index space =
      (match (space.slot onTrue index).reading?, (space.slot onFalse index).reading? with
        | some trueNode, some falseNode => do
          assignLocal target index (← condition test trueNode falseNode)
        | _, _ => clearLocal target index : Work Unit)
        (space.readBoth onTrue onFalse index) := by
  have isFirst := readLocal_eq space onTrue index
  have isSecond := readLocal_eq
    { space with emission := ((space.slot onTrue index).read space.emission).2 }
    onFalse index
  refine (andThen_of_ok rfl).trans ((andThen_of_ok rfl).trans ?_)
  rw [if_neg (by simp [differs])]
  exact (andThen_of_ok isFirst).trans (andThen_of_ok isSecond)

/-- Two locals of one type become one. -/
theorem joinSlot_merges (isCondition : test.IsCondition)
    (mergeable : LocalSlot.Mergeable (space.slot onTrue index) (space.slot onFalse index)
      (space.slot target index)) :
    ∃ slot emission, joinSlot test onTrue onFalse target index space =
        .ok () { space.setSlot target index slot with emission } ∧
      LocalSlot.Merges test (space.slot onTrue index) (space.slot onFalse index) slot := by
  let readBoth := space.readBoth onTrue onFalse index
  cases isSame : (space.slot onTrue index).holdsSame (space.slot onFalse index) with
  | true =>
    exact ⟨space.slot onTrue index, space.emission, joinSlot_of_same isSame, mergeable.merges_same isSame⟩
  | false =>
    rw [joinSlot_of_differs isSame]
    cases isTrue : (space.slot onTrue index).reading? with
    | none =>
      refine ⟨_, _, readBoth.clearLocal_eq target index, LocalSlot.merges_clear (.inl ?_)⟩
      rw [← LocalSlot.isSome_reading?, isTrue]
      rfl
    | some trueNode =>
      cases isFalse : (space.slot onFalse index).reading? with
      | none =>
        refine ⟨_, _, readBoth.clearLocal_eq target index, LocalSlot.merges_clear (.inr ?_)⟩
        rw [← LocalSlot.isSome_reading?, isFalse]
        rfl
      | some falseNode =>
        have falseInhabits := mergeable.typedFalse falseNode isFalse
        rw [mergeable.sameType] at falseInhabits
        obtain ⟨result, stored, isResult, isStored, selects⟩ :=
          isCondition.condition_stored (mergeable.typedTrue trueNode isTrue) falseInhabits
        rw [← mergeable.targetType] at isStored
        have assigned : assignLocal target index result readBoth = _ := assignLocal_eq isStored
        let written := (space.slot target index).store stored readBoth.emission
        refine ⟨written.1, written.2, ?_, LocalSlot.merges_store readBoth.emission isTrue isFalse selects⟩
        dsimp only
        rw [isResult]
        exact assigned

theorem stack_withLocals (space : Workspace) (id other : StackId) (locals : List LocalSlot) :
    (space.withLocals id locals).stack other =
      if id = other ∧ id < space.paths.length then { space.stack id with locals }
      else space.stack other :=
  stack_modifyStack ..

theorem withLocals_withLocals (space : Workspace) (id : StackId)
    (locals others : List LocalSlot) :
    (space.withLocals id locals).withLocals id others = space.withLocals id others := by
  simp only [withLocals, modifyStack, modify_modify_eq]
  rfl

theorem setSlot_eq (space : Workspace) (id : StackId) (index : Nat) (slot : LocalSlot) :
    space.setSlot id index slot = space.withLocals id ((space.stack id).locals.set index slot) :=
  modifyStack_congr rfl

theorem slot_setSlot_of_ne {other : Nat} (differs : index ≠ other) (id path : StackId)
    (slot : LocalSlot) :
    (space.setSlot id index slot).slot path other = space.slot path other := by
  have same : ((space.setSlot id index slot).stack path).locals[other]? =
      (space.stack path).locals[other]? := by
    rw [setSlot, keep_modifyStack fun stack => stack.locals[other]?]
    exact fun stack => getElem?_set_ne differs
  rw [Workspace.slot, Workspace.slot, slot?, slot?, same]

/-- The locals that are merged one after the other: each is what the two paths make of it, and the
rest stays as it is. -/
theorem forM_joinSlot (isCondition : test.IsCondition) (inside : target < space.paths.length)
    {indices : List Nat} (distinct : indices.Nodup)
    (mergeable : ∀ index ∈ indices, LocalSlot.Mergeable (space.slot onTrue index)
      (space.slot onFalse index) (space.slot target index)) :
    ∃ locals emission, indices.forM (joinSlot test onTrue onFalse target) space =
        .ok () { space.withLocals target locals with emission } ∧
      locals.length = (space.stack target).locals.length ∧
      (∀ index ∈ indices, ∀ slot, locals[index]? = some slot →
        LocalSlot.Merges test (space.slot onTrue index) (space.slot onFalse index) slot) ∧
      ∀ index ∉ indices, locals[index]? = (space.stack target).locals[index]? := by
  induction indices generalizing space with
  | nil =>
    refine ⟨(space.stack target).locals, space.emission, ?_, rfl, by simp, fun _ _ => rfl⟩
    rw [withLocals, modifyStack_self rfl]
    rfl
  | cons index rest ih =>
    obtain ⟨notLater, distinct⟩ := nodup_cons.1 distinct
    obtain ⟨slot, emission, joined, merges⟩ :=
      joinSlot_merges isCondition (mergeable index mem_cons_self)
    let between : Workspace := { space.setSlot target index slot with emission }
    have sameSlot : ∀ later ∈ rest, ∀ path, between.slot path later = space.slot path later :=
      fun later mem path => slot_setSlot_of_ne (by rintro rfl; exact notLater mem) ..
    have isLocals : (between.stack target).locals = (space.stack target).locals.set index slot := by
      change ((space.setSlot target index slot).stack target).locals = _
      rw [setSlot_eq, stack_withLocals, if_pos ⟨rfl, inside⟩]
    have stillInside : target < between.paths.length :=
      lt_of_lt_of_eq inside (length_modifyStack ..).symm
    have stillMergeable : ∀ later ∈ rest, LocalSlot.Mergeable (between.slot onTrue later)
        (between.slot onFalse later) (between.slot target later) := by
      intro later mem
      rw [sameSlot later mem, sameSlot later mem, sameSlot later mem]
      exact mergeable later (mem_cons_of_mem _ mem)
    obtain ⟨locals, last, joinedRest, isLength, mergesRest, keeps⟩ :=
      ih stillInside distinct stillMergeable
    refine ⟨locals, last, ?_, ?_, ?_, ?_⟩
    · refine (andThen_of_ok joined).trans (joinedRest.trans ?_)
      have isOne : between.withLocals target locals =
          { space.withLocals target locals with emission } := by
        change { (space.setSlot target index slot).withLocals target locals with emission } = _
        rw [setSlot_eq, withLocals_withLocals]
      rw [isOne]
    · rw [isLength, isLocals, length_set]
    · intro later mem found isFound
      rcases mem_cons.1 mem with rfl | mem
      · rw [keeps later notLater, isLocals] at isFound
        have bounded : later < (space.stack target).locals.length := by
          simpa using (List.getElem?_eq_some_iff.1 isFound).1
        rw [getElem?_set_self bounded, some.injEq] at isFound
        exact isFound ▸ merges
      · rw [← sameSlot later mem, ← sameSlot later mem]
        exact mergesRest later mem found isFound
    · intro later isOther
      obtain ⟨differs, notInRest⟩ := not_or.1 (mem_cons.not.1 isOther)
      rw [keeps later notInRest, isLocals, getElem?_set_ne (symm differs)]

/-- All locals of the target are merged. -/
theorem joinLocals_merges (isCondition : test.IsCondition)
    (inside : target < space.paths.length)
    (mergeable : ∀ index < (space.stack target).locals.length,
      LocalSlot.Mergeable (space.slot onTrue index) (space.slot onFalse index)
        (space.slot target index)) :
    ∃ locals emission, joinLocals test onTrue onFalse target space =
        .ok () { space.withLocals target locals with emission } ∧
      locals.length = (space.stack target).locals.length ∧
      ∀ index slot, locals[index]? = some slot → LocalSlot.Merges test
        (space.slot onTrue index) (space.slot onFalse index) slot := by
  obtain ⟨locals, emission, joined, isLength, merges, -⟩ := forM_joinSlot isCondition inside
    nodup_range fun index mem => mergeable index (mem_range.1 mem)
  refine ⟨locals, emission, (andThen_of_ok rfl).trans joined, isLength, fun index slot found => ?_⟩
  have bounded := (List.getElem?_eq_some_iff.1 found).1
  exact merges index (mem_range.2 (isLength ▸ bounded)) slot found

/-- Only the locals of paths and what is emitted may differ. -/
structure SameButLocals (space next : Workspace) : Prop where
  stack : ∀ id, (next.stack id).bare = (space.stack id).bare
  forks : next.forks = space.forks
  length : next.paths.length = space.paths.length

namespace SameButLocals

variable {next last : Workspace}

theorem refl (space : Workspace) : space.SameButLocals space :=
  ⟨fun _ => rfl, rfl, rfl⟩

theorem trans (same : space.SameButLocals next) (same' : next.SameButLocals last) :
    space.SameButLocals last :=
  ⟨fun id => (same'.stack id).trans (same.stack id), same'.forks.trans same.forks,
    same'.length.trans same.length⟩

theorem setSlot (space : Workspace) (id : StackId) (index : Nat) (slot : LocalSlot)
    (emission : Emission) :
    space.SameButLocals { space.setSlot id index slot with emission } :=
  ⟨fun other => keep_modifyStack EvalStack.bare id other fun _ => rfl, rfl, length_modifyStack id _⟩

theorem items (same : space.SameButLocals next) (id : StackId) :
    (next.stack id).items = (space.stack id).items := by
  have isSame := congrArg EvalStack.items (same.stack id)
  exact isSame

theorem isReduced (same : space.SameButLocals next) (id : StackId) :
    (next.stack id).isReduced = (space.stack id).isReduced := by
  have isSame := congrArg EvalStack.isReduced (same.stack id)
  exact isSame

end SameButLocals

theorem assignLocal_same (id : StackId) (index : Nat) (value : Expr) (space : Workspace) :
    Ensures (fun _ => True) (assignLocal id index value) space
      fun _ next => space.SameButLocals next := by
  refine ensures_bind.2 (ensures_bind.2 (ensures_get.2 ?_))
  refine ensures_bind.2 (ensures_get.2 (ensures_bind.2 ((ensures_lift _).2 ?_)))
  cases (space.slot id index).assign value space.emission with
  | error error => trivial
  | ok stored => exact .setSlot space id index stored.1 stored.2

/-- Merging a local touches nothing but that local. -/
theorem joinSlot_same (test : Expr) (onTrue onFalse target : StackId) (index : Nat)
    (space : Workspace) :
    Ensures (fun _ => True) (joinSlot test onTrue onFalse target index) space
      fun _ next => space.SameButLocals next := by
  have ofRead : space.SameButLocals (space.readBoth onTrue onFalse index) :=
    ⟨fun _ => rfl, rfl, rfl⟩
  refine Ensures.intro (fun _ next joined => ?_) fun _ _ _ => trivial
  cases isSame : (space.slot onTrue index).holdsSame (space.slot onFalse index) with
  | true =>
    rw [joinSlot_of_same isSame] at joined
    cases joined
    exact .setSlot space target index _ space.emission
  | false =>
    rw [joinSlot_of_differs isSame] at joined
    have cleared : space.SameButLocals ((space.readBoth onTrue onFalse index).setSlot target index _) :=
      ofRead.trans (.setSlot _ target index (space.slot target index).clear _)
    cases isTrue : (space.slot onTrue index).reading? with
    | none =>
      rw [isTrue] at joined
      cases joined
      exact cleared
    | some trueNode =>
      cases isFalse : (space.slot onFalse index).reading? with
      | none =>
        rw [isTrue, isFalse] at joined
        cases joined
        exact cleared
      | some falseNode =>
        rw [isTrue, isFalse] at joined
        obtain ⟨merged, _, built, assigned⟩ := andThen_eq_ok.1 joined
        obtain ⟨-, rfl⟩ := liftM_eq_ok.1 built
        exact ofRead.trans ((assignLocal_same target index merged _).of_ok assigned)

theorem joinLocals_same (test : Expr) (onTrue onFalse target : StackId) (space : Workspace) :
    Ensures (fun _ => True) (joinLocals test onTrue onFalse target) space
      fun _ next => space.SameButLocals next := by
  refine ensures_bind.2 (Ensures.forM (space.SameButLocals ·) ?_ (.refl space))
  exact fun index _ between same => (joinSlot_same test onTrue onFalse target index between).mono
    fun _ _ same' => same.trans same'

end Workspace

end CilLift
