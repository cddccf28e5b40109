import CilLift.Paths
import CilLift.Proofs.Placement
import Mathlib.Data.List.GetD

/-! The stacks and the locals of a workspace, and what a step on one path does to them. -/

namespace CilLift.Workspace

open List Work

variable {α : Type} {change : EvalStack → EvalStack} {id : StackId} {slot : LocalSlot}

variable {space : Workspace}

theorem length_modifyStack (id : StackId) (change : EvalStack → EvalStack) :
    (space.modifyStack id change).paths.length = space.paths.length :=
  length_modify ..

theorem stack_modifyStack (id other : StackId) (change : EvalStack → EvalStack) :
    (space.modifyStack id change).stack other =
      if id = other ∧ id < space.paths.length then change (space.stack id)
      else space.stack other := by
  simp only [stack, modifyStack]
  by_cases isSame : id = other
  · subst isSame
    by_cases inside : id < space.paths.length
    · simp [inside]
    · simp [inside]
  · simp [isSame]

theorem keep_modifyStack (part : EvalStack → α) (id other : StackId)
    (keeps : ∀ stack, part (change stack) = part stack) :
    part ((space.modifyStack id change).stack other) = part (space.stack other) := by
  rw [stack_modifyStack]
  split
  · rename_i isSame
    rw [keeps, isSame.1]
  · rfl

/-- The workspace once the tree is placed. -/
abbrev placing (space : Workspace) (expr : Expr) : Workspace :=
  { space with emission := (space.emission.place expr).2 }

/-- Gives a path other items. -/
def withItems (space : Workspace) (id : StackId) (items : List Expr) : Workspace :=
  space.modifyStack id fun stack => { stack with items }

theorem items_withItems (space : Workspace) (id other : StackId) (items : List Expr) :
    ((space.withItems id items).stack other).items =
      if id = other ∧ id < space.paths.length then items else (space.stack other).items := by
  rw [withItems, stack_modifyStack]
  split <;> rfl

theorem stack_eq_default {id : StackId} (outside : ¬id < space.paths.length) : space.stack id = {} :=
  getD_eq_default _ _ (Nat.le_of_not_lt outside)

theorem stack_withItems_nil (space : Workspace) (id : StackId) :
    ((space.withItems id []).stack id).items = [] := by
  rw [items_withItems]
  by_cases inside : id < space.paths.length
  · rw [if_pos ⟨rfl, inside⟩]
  · rw [if_neg fun found => inside found.2, stack_eq_default inside]

theorem withItems_withItems (space : Workspace) (id : StackId) (items others : List Expr) :
    (space.withItems id items).withItems id others = space.withItems id others := by
  simp only [withItems, modifyStack, modify_modify_eq]
  rfl

theorem modifyStack_congr {other : EvalStack → EvalStack}
    (same : change (space.stack id) = other (space.stack id)) :
    space.modifyStack id change = space.modifyStack id other := by
  simp only [modifyStack, mk.injEq, and_true]
  refine ext_getElem? fun position => ?_
  simp only [getElem?_modify]
  by_cases isSame : id = position
  · subst isSame
    rw [stack] at same
    cases found : space.paths[id]? with
    | none => rfl
    | some stack => simpa [found] using same
  · simp [isSame]

theorem modifyStack_self (same : change (space.stack id) = space.stack id) :
    space.modifyStack id change = space := by
  rw [@modifyStack_congr _ _ _ (fun stack => stack) same]
  exact congrArg (mk · _ _) (modify_id ..)

theorem modifyStack_eq_withItems (space : Workspace) (id : StackId)
    (change : List Expr → List Expr) :
    (space.modifyStack id fun stack => { stack with items := change stack.items }) =
      space.withItems id (change (space.stack id).items) :=
  modifyStack_congr rfl

theorem pushUntracked_eq (space : Workspace) (id : StackId) (value : Expr) :
    pushUntracked id value space =
      .ok () (withItems (space.placing value) id
        ((space.emission.place value).1 :: (space.stack id).items)) :=
  congrArg (EStateM.Result.ok ()) (modifyStack_eq_withItems (space.placing value) id
    ((space.emission.place value).1 :: ·))

/-- A value is placed, goes on record and becomes the top of a path. -/
theorem push_eq (space : Workspace) (id : StackId) (value : Expr) :
    push id value space = .ok () (withItems { space with
        emission := (space.emission.place value).2.track (space.emission.place value).1 } id
        ((space.emission.place value).1 :: (space.stack id).items)) := by
  obtain ⟨identity, isPlaced, -⟩ := value.exists_id_place space.emission.nextNode
  have again : ∀ emission : Emission, emission.place (space.emission.place value).1 =
      ((space.emission.place value).1, emission) := by
    intro emission
    unfold Emission.place
    rw [Expr.place_of_id isPlaced]
  refine (pushUntracked_eq { space with emission :=
    (space.emission.place value).2.track (space.emission.place value).1 } id
    (space.emission.place value).1).trans ?_
  rw [placing, again]
  rfl

/-- The locals of all paths. -/
def slots (space : Workspace) : List LocalSlot := space.paths.flatMap EvalStack.locals

theorem mem_slots_of_mem {stack : EvalStack} (isPath : stack ∈ space.paths)
    (mem : slot ∈ stack.locals) : slot ∈ space.slots :=
  mem_flatMap.2 ⟨stack, isPath, mem⟩

theorem stack_mem_or_default (space : Workspace) (id : StackId) :
    space.stack id ∈ space.paths ∨ space.stack id = {} := by
  unfold stack
  rw [getD_eq_getElem?_getD]
  cases found : space.paths[id]? with
  | none => exact .inr rfl
  | some stack => exact .inl (mem_of_getElem? found)

theorem forall_items {holds : Expr → Prop}
    (each : ∀ stack ∈ space.paths, ∀ item ∈ stack.items, holds item) (id : StackId) :
    ∀ item ∈ (space.stack id).items, holds item := by
  intro item mem
  rcases space.stack_mem_or_default id with isPath | isDefault
  · exact each _ isPath item mem
  · rw [isDefault] at mem
    cases mem

theorem mem_slots_of_stack (mem : slot ∈ (space.stack id).locals) : slot ∈ space.slots := by
  rcases space.stack_mem_or_default id with isPath | isDefault
  · exact mem_slots_of_mem isPath mem
  · rw [isDefault] at mem
    cases mem

theorem forall_tests {holds : Expr → Prop} (each : ∀ fork ∈ space.forks, holds fork.test)
    (ofNone : holds (.boolean true)) (branch : BranchId) : holds (space.fork branch).test := by
  unfold fork
  rw [getD_eq_getElem?_getD]
  cases found : space.forks[branch]? with
  | none => exact ofNone
  | some fork => exact each fork (mem_of_getElem? found)

theorem slot_mem_or_default (space : Workspace) (id : StackId) (index : Nat) :
    space.slot id index ∈ space.slots ∨ (space.slot id index).content = .unassigned := by
  unfold slot slot?
  cases found : (space.stack id).locals[index]? with
  | none => exact .inr rfl
  | some slot =>
    rcases space.stack_mem_or_default id with isPath | isDefault
    · exact .inl (mem_slots_of_mem isPath (mem_of_getElem? found))
    · rw [isDefault] at found
      cases found

theorem mem_modify {items : List α} {index : Nat} {change : α → α} {item : α}
    (mem : item ∈ items.modify index change) :
    item ∈ items ∨ ∃ original ∈ items, item = change original := by
  obtain ⟨position, found⟩ := mem_iff_getElem?.1 mem
  rw [getElem?_modify] at found
  cases original : items[position]? with
  | none => simp [original] at found
  | some found' =>
    have inItems := mem_of_getElem? original
    rw [original] at found
    simp only [Option.map_eq_map, Option.map_some, Option.some.injEq] at found
    split at found
    · exact .inr ⟨found', inItems, found.symm⟩
    · exact .inl (found ▸ inItems)

theorem mem_slots_setSlot {index : Nat} {found : LocalSlot}
    (mem : found ∈ (space.setSlot id index slot).slots) :
    found ∈ space.slots ∨ found = slot := by
  obtain ⟨stack, isPath, inStack⟩ := mem_flatMap.1 mem
  rcases mem_modify isPath with before | ⟨original, before, rfl⟩
  · exact .inl (mem_slots_of_mem before inStack)
  · exact (mem_or_eq_of_mem_set inStack).imp_left (mem_slots_of_mem before)

theorem mem_slots_modifyStack (mem : slot ∈ (space.modifyStack id change).slots)
    (keeps : ∀ stack, (change stack).locals = stack.locals) : slot ∈ space.slots := by
  obtain ⟨stack, isPath, inStack⟩ := mem_flatMap.1 mem
  rcases mem_modify isPath with before | ⟨original, before, rfl⟩
  · exact mem_slots_of_mem before inStack
  · exact mem_slots_of_mem before (keeps original ▸ inStack)

/-! Forks. -/

/-- A path has forked: its sides have no items yet and start with its locals. -/
def forked (space : Workspace) (parent : StackId) (test : Expr) : Workspace :=
  let side : EvalStack :=
    { parent := some space.forks.length, locals := (space.stack parent).locals }
  { space with
    paths := space.paths ++ [side, side]
    forks := space.forks ++ [⟨test, space.paths.length, space.paths.length + 1, parent⟩] }

theorem newFork_eq (space : Workspace) (parent : StackId) (test : Expr) :
    newFork parent test space = .ok space.forks.length
      (forked (space.placing test) parent (space.emission.place test).1) := rfl

theorem fork_forked (space : Workspace) (parent : StackId) (test : Expr) :
    (space.forked parent test).fork space.forks.length =
      ⟨test, space.paths.length, space.paths.length + 1, parent⟩ := by
  simp [fork, forked]

theorem keep_forked (part : EvalStack → α)
    (blank : ∀ parent locals, part { parent, locals } = part {}) (space : Workspace)
    (parent id : StackId) (test : Expr) :
    part ((space.forked parent test).stack id) = part (space.stack id) := by
  simp only [stack, forked, getD_eq_getElem?_getD, getElem?_append]
  split
  · rfl
  · rename_i outside
    rw [getElem?_eq_none (Nat.le_of_not_lt outside)]
    rcases id - space.paths.length with _ | _ | _ <;> first | rfl | exact blank ..

theorem items_forked (space : Workspace) (parent id : StackId) (test : Expr) :
    ((space.forked parent test).stack id).items = (space.stack id).items :=
  keep_forked EvalStack.items (fun _ _ => rfl) ..

theorem mem_slots_forked {parent : StackId} {test : Expr}
    (mem : slot ∈ (space.forked parent test).slots) : slot ∈ space.slots := by
  simp only [slots, forked, flatMap_append, mem_append, flatMap_cons,
    flatMap_nil, append_nil, or_self] at mem
  rcases mem with mem | inherited
  · exact mem
  · rcases space.stack_mem_or_default parent with isPath | isDefault
    · exact mem_slots_of_mem isPath inherited
    · rw [isDefault] at inherited
      cases inherited

/-- Two existing paths have become the sides of a new fork. -/
def reforked (space : Workspace) (parent : StackId) (test : Expr) (onTrue onFalse : StackId) :
    Workspace :=
  let attach (stack : EvalStack) : EvalStack := { stack with parent := some space.forks.length }
  (modifyStack { space with forks := space.forks ++ [⟨test, onTrue, onFalse, parent⟩] }
    onTrue attach).modifyStack onFalse attach

theorem refork_eq (space : Workspace) (parent : StackId) (test : Expr)
    (onTrue onFalse : StackId) :
    refork parent test onTrue onFalse space = .ok space.forks.length
      (reforked (space.placing test) parent (space.emission.place test).1 onTrue onFalse) := rfl

theorem keep_reforked (part : EvalStack → α)
    (keeps : ∀ stack branch, part { stack with parent := branch } = part stack)
    (space : Workspace) (parent id : StackId) (test : Expr) (onTrue onFalse : StackId) :
    part ((space.reforked parent test onTrue onFalse).stack id) = part (space.stack id) := by
  unfold reforked
  rw [keep_modifyStack part, keep_modifyStack part]
  · rfl
  · exact fun _ => keeps ..
  · exact fun _ => keeps ..

theorem items_reforked (space : Workspace) (parent id : StackId) (test : Expr)
    (onTrue onFalse : StackId) :
    ((space.reforked parent test onTrue onFalse).stack id).items = (space.stack id).items :=
  keep_reforked EvalStack.items (fun _ _ => rfl) ..

theorem mem_slots_reforked {parent onTrue onFalse : StackId} {test : Expr}
    (mem : slot ∈ (space.reforked parent test onTrue onFalse).slots) :
    slot ∈ space.slots :=
  mem_slots_modifyStack (mem_slots_modifyStack mem fun _ => rfl) fun _ => rfl

end CilLift.Workspace
