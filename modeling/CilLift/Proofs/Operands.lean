import CilLift.Proofs.Meetings
import CilLift.Proofs.SiblingMerge

/-!
What becomes of the operands where the sides of a fork meet in a run. The path that forked gets one
value for the top values of its sides, so an operand is lost exactly when a side holds more than
one.
-/

namespace CilLift

open List CilLift.Expr Work

variable {start : Nat} {origin : Atlas} {first second : StackId} {aside : List StackId}

namespace Workspace

variable {space next : Workspace} {branch : BranchId} {fork : Fork} {label : Label}

/-- What the sides of a fork leave to the path that forked: the conditional between their top
values, if they have any. -/
inductive LeavesValues (space : Workspace) (fork : Fork) : List Expr → Prop where
  | none (isTrue : (space.stack fork.onTrue).items = [])
      (isFalse : (space.stack fork.onFalse).items = []) : LeavesValues space fork []
  | tops {onTrue onFalse merged item : Expr} {restTrue restFalse : List Expr}
      (isTrue : (space.stack fork.onTrue).items = onTrue :: restTrue)
      (isFalse : (space.stack fork.onFalse).items = onFalse :: restFalse)
      (builds : condition fork.test onTrue onFalse = .ok merged)
      (isShape : item.shape = merged.shape) : LeavesValues space fork [item]

namespace LeavesValues

variable {values : List Expr}

theorem nil_iff (leaves : space.LeavesValues fork values) :
    (space.stack fork.onTrue).items = [] ↔ (space.stack fork.onFalse).items = [] := by
  cases leaves with
  | none isTrue isFalse => rw [isTrue, isFalse]
  | tops isTrue isFalse => simp [isTrue, isFalse]

theorem length_iff (leaves : space.LeavesValues fork values) :
    (values.length = (space.stack fork.onTrue).items.length ∧
        values.length = (space.stack fork.onFalse).items.length) ↔
      (space.stack fork.onTrue).items.length ≤ 1 ∧ (space.stack fork.onFalse).items.length ≤ 1 := by
  cases leaves with
  | none isTrue isFalse => simp [isTrue, isFalse]
  | tops isTrue isFalse =>
    rw [isTrue, isFalse]
    simp only [length_cons, length_nil]
    omega

end LeavesValues

namespace ShowsFork

variable {below : List Expr} (isShown : space.ShowsFork branch fork below)

include isShown

/-- Values that are merged are the top values of both sides. -/
theorem exists_values {valued : Workspace}
    (valuing : joinValues label branch fork (space.withItems fork.parent below) = .ok () valued) :
    ∃ values, space.LeavesValues fork values ∧ (valued.stack fork.parent).items = values ++ below := by
  obtain ⟨openedTrue, openedFalse⟩ := isShown.items_opened
  have bothOrNone : (space.stack fork.onTrue).items = [] ↔ (space.stack fork.onFalse).items = [] := by
    by_contra oneSided
    rw [← openedTrue, ← openedFalse] at oneSided
    obtain ⟨stuck, refused⟩ := joinValues_oneSided isShown.apart
      (not_iff_comm.1 (not_iff.1 oneSided)).symm
    cases refused.symm.trans valuing
  cases isTrue : (space.stack fork.onTrue).items with
  | nil =>
    have isFalse := bothOrNone.1 isTrue
    obtain ⟨_, valued, isValued⟩ := isShown.valued_none label isTrue isFalse
    cases valued.symm.trans valuing
    exact ⟨[], .none isTrue isFalse, isValued.items⟩
  | cons onTrue restTrue =>
    cases isFalse : (space.stack fork.onFalse).items with
    | nil =>
      rw [bothOrNone.2 isFalse] at isTrue
      cases isTrue
    | cons onFalse restFalse =>
      cases builds : condition fork.test onTrue onFalse with
      | error error =>
        rw [joinValues_both isShown.apart (openedTrue.trans isTrue) (openedFalse.trans isFalse),
          builds] at valuing
        cases valuing
      | ok merged =>
        obtain ⟨_, item, valued, isShape, isValued⟩ :=
          isShown.valued_both label isTrue isFalse builds
        cases valued.symm.trans valuing
        exact ⟨[item], .tops isTrue isFalse builds isShape, isValued.items⟩

/-- The path that forked holds the values of the sides in the place of its placeholder. -/
theorem joinSides_values {joined : StackId}
    (merge : joinSides label branch space = .ok joined next) :
    joined = fork.parent ∧ ∃ values, space.LeavesValues fork values ∧
      (next.stack fork.parent).items = values ++ below := by
  rw [isShown.joinSides_eq label] at merge
  obtain ⟨⟨⟩, valued, valuing, merge⟩ := andThen_eq_ok.1 merge
  obtain ⟨⟨⟩, settled, settling, merge⟩ := andThen_eq_ok.1 merge
  obtain ⟨values, leaves, isItems⟩ := isShown.exists_values valuing
  have sameItems := ((joinLocals_same ..).of_ok settling).items fork.parent
  have marked : ∀ (between : Workspace) (id : StackId),
      ((between.modifyStack id fun stack => { stack with isReduced := true }).stack
        fork.parent).items = (between.stack fork.parent).items :=
    fun between id => keep_modifyStack EvalStack.items id fork.parent fun _ => rfl
  cases merge
  exact ⟨rfl, values, leaves, (marked ..).trans ((marked ..).trans (sameItems.trans isItems))⟩

end ShowsFork

theorem popPlaceholder_eq_ok {id : StackId}
    (popped : popPlaceholder label id branch space = .ok () next) :
    ∃ placeholder below, placeholder.branch? = some branch ∧
      (space.stack id).items = placeholder :: below := by
  cases isItems : (space.stack id).items with
  | nil =>
    obtain ⟨_, _, found, popped⟩ := andThen_eq_ok.1 popped
    cases (pop?_nil isItems).symm.trans found
    cases popped
  | cons placeholder below =>
    obtain ⟨_, _, found, popped⟩ := andThen_eq_ok.1 popped
    cases (pop?_eq isItems).symm.trans found
    split at popped
    · rename_i isPlaceholder
      exact ⟨placeholder, below, isPlaceholder, rfl⟩
    · cases popped

theorem Guarded.idle {ids : List StackId} {id : StackId} {placeholder : Expr} {below : List Expr}
    (guarded : space.Guarded start origin ids)
    (isPlaceholder : placeholder.branch? = some branch)
    (isItems : (space.stack id).items = placeholder :: below) : id ∉ ids := by
  intro isActive
  have clear := guarded.items isActive placeholder (isItems ▸ mem_cons_self)
  rw [(clear_iff.1 clear).1] at isPlaceholder
  cases isPlaceholder

theorem Guarded.first_ne_second
    (guarded : space.Guarded start origin (second :: first :: aside)) : first ≠ second := by
  rintro rfl
  exact (nodup_cons.1 guarded.distinct).1 mem_cons_self

/-- Two active paths under one fork are its sides. -/
theorem Guarded.areSides (guarded : space.Guarded start origin (second :: first :: aside))
    (firstSide : space.parent first = some branch)
    (secondSide : space.parent second = some branch) (isFork : space.fork branch = fork) :
    first = fork.onTrue ∧ second = fork.onFalse ∨ first = fork.onFalse ∧ second = fork.onTrue := by
  have isApart := guarded.first_ne_second
  have isSide : ∀ id, space.parent id = some branch → id = fork.onTrue ∨ id = fork.onFalse := by
    intro id isSide
    rw [parent_outline] at isSide
    have side := guarded.linked.side id branch isSide
    rw [fork_outline, isFork] at side
    exact side.imp symm symm
  rcases isSide first firstSide with rfl | rfl <;> rcases isSide second secondSide with rfl | rfl
  · exact absurd rfl isApart
  · exact .inl ⟨rfl, rfl⟩
  · exact .inr ⟨rfl, rfl⟩
  · exact absurd rfl isApart

theorem joinSides_of_joinPair {joined : Option StackId}
    (firstSide : space.parent first = some branch)
    (secondSide : space.parent second = some branch)
    (merge : joinPair label first second space = .ok joined next) :
    ∃ parent, joined = some parent ∧ joinSides label branch space = .ok parent next := by
  obtain ⟨depth, _, found, -⟩ := andThen_eq_ok.1 merge
  obtain ⟨isDepth, -⟩ := depthOf_eq_ok found
  rw [joinPair_of_sides isDepth firstSide secondSide] at merge
  obtain ⟨parent, _, merge, ⟨⟩⟩ := andThen_eq_ok.1 merge
  exact ⟨parent, rfl, merge⟩

/-- Sides that have been merged were those of a path that showed the placeholder of their fork. -/
theorem Guarded.exists_shown {joined : StackId}
    (guarded : space.Guarded start origin (second :: first :: aside))
    (areSides : first = fork.onTrue ∧ second = fork.onFalse ∨
      first = fork.onFalse ∧ second = fork.onTrue) (isFork : space.fork branch = fork)
    (merge : Work.joinSides label branch space = .ok joined next) :
    ∃ below, space.ShowsFork branch fork below := by
  obtain ⟨_, _, ⟨⟩, merge⟩ := andThen_eq_ok.1 merge
  rw [isFork] at merge
  obtain ⟨⟨⟩, _, popped, -⟩ := andThen_eq_ok.1 merge
  obtain ⟨placeholder, below, isPlaceholder, isItems⟩ := popPlaceholder_eq_ok popped
  have notFirst : fork.parent ≠ first ∧ fork.parent ≠ second := by
    have isIdle := guarded.idle isPlaceholder isItems
    simp only [mem_cons, not_or] at isIdle
    exact ⟨isIdle.2.1, isIdle.1⟩
  have isApart := guarded.first_ne_second
  refine ⟨below, isFork, ?_, ?_, ?_, placeholder, isPlaceholder, isItems⟩ <;>
    rcases areSides with ⟨rfl, rfl⟩ | ⟨rfl, rfl⟩
  · exact isApart
  · exact isApart.symm
  · exact notFirst.1
  · exact notFirst.2
  · exact notFirst.2
  · exact notFirst.1

end Workspace

namespace Lifter

variable {lifter : Lifter} {task : Task} {nextNode : Nat} {body : MethodBody}

/-- Where a run merges the sides of a fork, the path that forked keeps what is below its placeholder
and gets the conditional between the top values of the sides, if they have any. So no operand is
lost exactly when no side holds more than one. A value on one side only and values that cannot be
combined are not merged. -/
theorem joinPair_operands (captures : lifter.resolver.CapturesClear)
    (undertakes : lifter.Undertakes task nextNode) {label : Label} {first second : StackId}
    {space : Workspace} {branch : BranchId} {fork : Fork}
    (tries : lifter.Tries task nextNode body label first second space)
    (firstSide : space.parent first = some branch)
    (secondSide : space.parent second = some branch)
    (isFork : space.fork branch = fork) :
    (first = fork.onTrue ∧ second = fork.onFalse ∨ first = fork.onFalse ∧ second = fork.onTrue) ∧
    (∀ joined next, joinPair label first second space = .ok joined next →
      joined = some fork.parent ∧
      ∃ placeholder below values, placeholder.branch? = some branch ∧
        (space.stack fork.parent).items = placeholder :: below ∧
        space.LeavesValues fork values ∧
        (next.stack fork.parent).items = values ++ below ∧
        ((values.length = (space.stack fork.onTrue).items.length ∧
            values.length = (space.stack fork.onFalse).items.length) ↔
          (space.stack fork.onTrue).items.length ≤ 1 ∧ (space.stack fork.onFalse).items.length ≤ 1)) ∧
    (((space.stack fork.onTrue).items = [] ↔ (space.stack fork.onFalse).items ≠ []) →
      ∀ joined next, joinPair label first second space ≠ .ok joined next) ∧
    ∀ onTrue onFalse restTrue restFalse error,
      (space.stack fork.onTrue).items = onTrue :: restTrue →
      (space.stack fork.onFalse).items = onFalse :: restFalse →
      condition fork.test onTrue onFalse = .error error →
      ∀ joined next, joinPair label first second space ≠ .ok joined next := by
  obtain ⟨origin, aside, guarded⟩ := guarded_of_tries captures undertakes tries
  have areSides := guarded.areSides firstSide secondSide isFork
  have merged : ∀ joined next, joinPair label first second space = .ok joined next →
      joined = some fork.parent ∧ ∃ below values, space.ShowsFork branch fork below ∧
        space.LeavesValues fork values ∧ (next.stack fork.parent).items = values ++ below := by
    intro joined next merge
    obtain ⟨parent, rfl, joins⟩ := Workspace.joinSides_of_joinPair firstSide secondSide merge
    obtain ⟨below, isShown⟩ := guarded.exists_shown areSides isFork joins
    obtain ⟨rfl, values, leaves, isItems⟩ := isShown.joinSides_values joins
    exact ⟨rfl, below, values, isShown, leaves, isItems⟩
  refine ⟨areSides, fun joined next merge => ?_, fun oneSided joined next merge => ?_, ?_⟩
  · obtain ⟨isParent, below, values, isShown, leaves, isItems⟩ := merged joined next merge
    obtain ⟨placeholder, isPlaceholder, isShown⟩ := isShown.placeholder
    exact ⟨isParent, placeholder, below, values, isPlaceholder, isShown, leaves, isItems,
      leaves.length_iff⟩
  · obtain ⟨-, _, _, -, leaves, -⟩ := merged joined next merge
    rw [leaves.nil_iff] at oneSided
    exact iff_not_self oneSided
  · intro onTrue onFalse restTrue restFalse error isTrue isFalse refused joined next merge
    obtain ⟨-, _, _, -, leaves, -⟩ := merged joined next merge
    cases leaves with
    | none isEmpty => cases isTrue.symm.trans isEmpty
    | tops isTrue' isFalse' builds =>
      cases isTrue.symm.trans isTrue'
      cases isFalse.symm.trans isFalse'
      cases refused.symm.trans builds

theorem capturesClear_conditionsOnly : conditionsOnly.resolver.CapturesClear := by
  rintro (_ | _) delegate node captured <;> cases captured

/-- Adds five to a choice between two numbers. -/
def sumWithChoice : MethodBody where
  code := [0x1b, 0x02, 0x2c, 0x03, 0x17, 0x2b, 0x01, 0x18, 0x58, 0x2a]

/-- The sides of the choice leave one value above the five. -/
theorem sumWithChoice_operands :
    ∃ task nextNode space next, conditionsOnly.rootTask (.taking .bool ["a"]) = .ok (task, nextNode) ∧
      conditionsOnly.Tries task nextNode sumWithChoice (.ofOffset 8) 1 2 space ∧
      joinPair (.ofOffset 8) 1 2 space = .ok (some 0) next ∧
      space.parent 1 = some 0 ∧ space.parent 2 = some 0 ∧
      ∃ placeholder below values, (space.stack 0).items = placeholder :: below ∧
        below.length = 1 ∧ space.LeavesValues (space.fork 0) values ∧ values.length = 1 ∧
        (next.stack 0).items = values ++ below := by
  obtain ⟨task, nextNode, space, next, prepared, tries, merge, first, second, isParent, before,
      after⟩ : ∃ task nextNode space next,
      conditionsOnly.rootTask (.taking .bool ["a"]) = .ok (task, nextNode) ∧
      conditionsOnly.Tries task nextNode sumWithChoice (.ofOffset 8) 1 2 space ∧
      joinPair (.ofOffset 8) 1 2 space = .ok (some 0) next ∧
      space.parent 1 = some 0 ∧ space.parent 2 = some 0 ∧ (space.fork 0).parent = 0 ∧
      (space.stack 0).items.length = 2 ∧ (next.stack 0).items.length = 2 :=
    exists_merge 15 (by decide +kernel) (by decide +kernel)
  obtain ⟨-, merges, -⟩ := joinPair_operands capturesClear_conditionsOnly
    (undertakes_rootTask prepared) tries first second rfl
  obtain ⟨-, placeholder, below, values, -, isItems, leaves, isMerged, -⟩ := merges _ next merge
  rw [isParent] at isItems isMerged
  have isBelow : below.length = 1 := by
    rw [isItems] at before
    exact Nat.succ.inj before
  have isValue : values.length = 1 := by
    rw [isMerged, length_append, isBelow] at after
    exact Nat.succ.inj after
  exact ⟨task, nextNode, space, next, prepared, tries, merge, first, second, placeholder, below,
    values, isItems, isBelow, leaves, isValue, isMerged⟩

/-- Leaves two numbers on one side of a fork and one on the other. -/
def unevenSides : MethodBody where
  code := [0x02, 0x2c, 0x04, 0x17, 0x18, 0x2b, 0x01, 0x19, 0x2a]

/-- Sides with two operands and with one are merged, and an operand is lost. -/
theorem unevenSides_lose_operand :
    (conditionsOnly.lift (.taking .bool ["a"]) unevenSides).map MethodTree.text = .ok "(a) => (a ? 2 : 3)" ∧
    ∃ task nextNode space next, conditionsOnly.rootTask (.taking .bool ["a"]) = .ok (task, nextNode) ∧
      conditionsOnly.Tries task nextNode unevenSides (.ofOffset 8) 1 2 space ∧
      joinPair (.ofOffset 8) 1 2 space = .ok (some 0) next ∧
      space.parent 1 = some 0 ∧ space.parent 2 = some 0 ∧
      (space.stack 1).items.length = 2 ∧ (space.stack 2).items.length = 1 ∧
      (space.stack 0).items.length = 1 ∧ (next.stack 0).items.length = 1 :=
  ⟨by decide +kernel, exists_merge 15 (by decide +kernel) (by decide +kernel)⟩

end Lifter

end CilLift
