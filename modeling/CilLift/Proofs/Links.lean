import CilLift.Paths
import Mathlib.Data.Finset.Card
import Mathlib.Data.Finset.Range
import Mathlib.Data.List.GetD

/-!
The links between paths and forks. Every path but the first is a side of some fork, and every fork
was made on some path; climbing from a path over its fork to the path below it is to end at a path
without fork.
-/

namespace CilLift

open List Option

variable {id branch limit depth : Nat}

theorem map_modify {α β : Type} {view : α → β} {change : α → α} {change' : β → β}
    (same : ∀ item, view (change item) = change' (view item)) (items : List α) (index : Nat) :
    (items.modify index change).map view = (items.map view).modify index change' := by
  apply ext_getElem?
  intro position
  simp only [getElem?_map, getElem?_modify]
  cases items[position]? with
  | none => rfl
  | some item =>
    split <;> simp [same]

/-- The links of a workspace: the fork above each path, and for each fork its true and its false side
and the path that forked. -/
structure Outline where
  parents : List (Option Nat)
  forks : List (Nat × Nat × Nat)

def Workspace.outline (space : Workspace) : Outline where
  parents := space.paths.map EvalStack.parent
  forks := space.forks.map fun fork => (fork.onTrue, fork.onFalse, fork.parent)

namespace Outline

def parent (outline : Outline) (id : Nat) : Option Nat :=
  outline.parents.getD id none

/-- The true side, the false side and the path below a fork. -/
def fork (outline : Outline) (branch : Nat) : Nat × Nat × Nat :=
  outline.forks.getD branch (0, 0, 0)

/-- The path below the fork of a path. -/
def above? (outline : Outline) (id : Nat) : Option Nat :=
  (outline.parent id).map fun branch => (outline.fork branch).2.2

/-- Climbing from the path ends. -/
inductive Grounded (outline : Outline) : Nat → Prop where
  | root {id : Nat} (isRoot : outline.above? id = none) : Grounded outline id
  | climb {id next : Nat} (isAbove : outline.above? id = some next)
      (grounded : Grounded outline next) : Grounded outline id

/-- Climbing ends from every path. -/
def Acyclic (outline : Outline) : Prop := ∀ id, outline.Grounded id

/-- The path is the other one or is met when climbing from it. -/
inductive Over (outline : Outline) (high : Nat) : Nat → Prop where
  | same : Over outline high high
  | climb {id next : Nat} (isAbove : outline.above? id = some next)
      (isOver : Over outline high next) : Over outline high id

/-- All links lead to paths and forks that exist, and a path with a fork is one of its sides. -/
structure Linked (outline : Outline) : Prop where
  branch : ∀ id branch, outline.parent id = some branch → branch < outline.forks.length
  fork : ∀ fork ∈ outline.forks, fork.1 < outline.parents.length ∧
    fork.2.1 < outline.parents.length ∧ fork.2.2 < outline.parents.length
  side : ∀ id branch, outline.parent id = some branch →
    (outline.fork branch).1 = id ∨ (outline.fork branch).2.1 = id

/-- The links after a fork of a path. -/
def addFork (outline : Outline) (parent : Nat) : Outline where
  parents := outline.parents ++ [some outline.forks.length, some outline.forks.length]
  forks := outline.forks ++ [(outline.parents.length, outline.parents.length + 1, parent)]

/-- The links after a new fork over two existing paths. -/
def regraft (outline : Outline) (parent onTrue onFalse : Nat) : Outline where
  parents := (outline.parents.modify onTrue fun _ => some outline.forks.length).modify onFalse
    fun _ => some outline.forks.length
  forks := outline.forks ++ [(onTrue, onFalse, parent)]

/-! A fork of a path. -/

section Fork

variable {outline : Outline} {parent : Nat}

theorem lt_of_parent (isSide : outline.parent id = some branch) : id < outline.parents.length := by
  by_contra outside
  rw [parent, getD_eq_default _ _ (by omega)] at isSide
  cases isSide

theorem fork_append (added : Nat × Nat × Nat) (inside : branch < outline.forks.length)
    (parents : List (Option Nat)) :
    fork ⟨parents, outline.forks ++ [added]⟩ branch = outline.fork branch :=
  getD_append _ _ _ _ inside

theorem fork_length (added : Nat × Nat × Nat) (parents : List (Option Nat)) :
    fork ⟨parents, outline.forks ++ [added]⟩ outline.forks.length = added := by
  simp [fork]

theorem Linked.fork_lt (linked : outline.Linked) (isSide : outline.parent id = some branch) :
    (outline.fork branch).1 < outline.parents.length ∧
      (outline.fork branch).2.1 < outline.parents.length ∧
      (outline.fork branch).2.2 < outline.parents.length := by
  have inside := linked.branch id branch isSide
  have mem : outline.fork branch ∈ outline.forks := by
    rw [Outline.fork, getD_eq_getElem _ _ inside]
    exact getElem_mem inside
  exact linked.fork _ mem

theorem Linked.above_lt (linked : outline.Linked) {next : Nat}
    (isAbove : outline.above? id = some next) : next < outline.parents.length := by
  obtain ⟨branch, isSide, rfl⟩ := map_eq_some_iff.1 isAbove
  exact (linked.fork_lt isSide).2.2

theorem parent_addFork_old (parent : Nat) (inside : id < outline.parents.length) :
    (outline.addFork parent).parent id = outline.parent id :=
  getD_append _ _ _ _ inside

theorem parent_addFork_new (outside : outline.parents.length ≤ id)
    (isSide : (outline.addFork parent).parent id = some branch) :
    branch = outline.forks.length ∧ (id = outline.parents.length ∨ id = outline.parents.length + 1) := by
  obtain ⟨offset, rfl⟩ := Nat.exists_eq_add_of_le outside
  rw [Outline.parent, addFork] at isSide
  match offset with
  | 0 => simpa [eq_comm] using isSide
  | 1 => simpa [eq_comm] using isSide
  | offset + 2 => simp at isSide

theorem above?_addFork_old (linked : outline.Linked) (parent : Nat)
    (inside : id < outline.parents.length) :
    (outline.addFork parent).above? id = outline.above? id := by
  rw [above?, parent_addFork_old parent inside, above?]
  cases isSide : outline.parent id with
  | none => rfl
  | some branch =>
    simp only [map_some]
    rw [addFork, fork_append _ (linked.branch id branch isSide)]

/-- A new fork keeps the links in range. -/
theorem Linked.addFork (linked : outline.Linked)
    (inside : parent < outline.parents.length) : (outline.addFork parent).Linked where
  branch id branch isSide := by
    have grown : (outline.addFork parent).forks.length = outline.forks.length + 1 := by
      simp [Outline.addFork]
    by_cases old : id < outline.parents.length
    · rw [parent_addFork_old parent old] at isSide
      have := linked.branch id branch isSide
      omega
    · have := (parent_addFork_new (Nat.le_of_not_lt old) isSide).1
      omega
  fork fork mem := by
    have grown : (outline.addFork parent).parents.length = outline.parents.length + 2 := by
      simp [Outline.addFork]
    simp only [Outline.addFork, mem_append, mem_singleton] at mem
    rcases mem with mem | rfl
    · have := linked.fork fork mem
      omega
    · simp only
      omega
  side id branch isSide := by
    by_cases old : id < outline.parents.length
    · rw [parent_addFork_old parent old] at isSide
      rw [Outline.addFork, fork_append _ (linked.branch id branch isSide)]
      exact linked.side id branch isSide
    · obtain ⟨rfl, new⟩ := parent_addFork_new (Nat.le_of_not_lt old) isSide
      rw [Outline.addFork, fork_length]
      simpa [eq_comm] using new

/-- A fork leaves the links without a cycle. -/
theorem Acyclic.addFork (acyclic : outline.Acyclic) (linked : outline.Linked)
    (inside : parent < outline.parents.length) : (outline.addFork parent).Acyclic := by
  have old : ∀ id, outline.Grounded id → id < outline.parents.length →
      (outline.addFork parent).Grounded id := by
    intro id grounded
    induction grounded with
    | root isRoot => exact fun inside => .root (by rwa [above?_addFork_old linked parent inside])
    | climb isAbove _ ih =>
      exact fun inside => .climb (by rwa [above?_addFork_old linked parent inside])
        (ih (linked.above_lt isAbove))
  intro id
  by_cases known : id < outline.parents.length
  · exact old id (acyclic id) known
  · cases isSide : (outline.addFork parent).parent id with
    | none => exact .root (by rw [above?, isSide]; rfl)
    | some branch =>
      obtain ⟨rfl, -⟩ := parent_addFork_new (Nat.le_of_not_lt known) isSide
      refine .climb ?_ (old parent (acyclic parent) inside)
      rw [above?, isSide, map_some, Outline.addFork, fork_length]

end Fork

/-! A new fork over existing paths. -/

section Regraft

variable {outline : Outline} {parent onTrue onFalse : Nat}

theorem parent_regraft (id : Nat) (trueInside : onTrue < outline.parents.length)
    (falseInside : onFalse < outline.parents.length) :
    (outline.regraft parent onTrue onFalse).parent id =
      if id = onTrue ∨ id = onFalse then some outline.forks.length else outline.parent id := by
  simp only [Outline.parent, regraft, getD_eq_getElem?_getD, getElem?_modify]
  by_cases isTrue : onTrue = id
  · subst isTrue
    simp [trueInside]
  · by_cases isFalse : onFalse = id
    · subst isFalse
      simp [falseInside]
    · simp [isTrue, isFalse, Ne.symm isTrue, Ne.symm isFalse]

theorem Linked.above?_regraft (linked : outline.Linked) (id : Nat)
    (trueInside : onTrue < outline.parents.length)
    (falseInside : onFalse < outline.parents.length) :
    (outline.regraft parent onTrue onFalse).above? id =
      if id = onTrue ∨ id = onFalse then some parent else outline.above? id := by
  rw [above?, parent_regraft id trueInside falseInside]
  split
  · rw [map_some, regraft, fork_length]
  · rw [above?]
    cases isSide : outline.parent id with
    | none => rfl
    | some branch =>
      rw [map_some, map_some, regraft, fork_append _ (linked.branch id branch isSide)]

/-- Moving two paths under a new fork keeps the links in range. -/
theorem Linked.regraft (linked : outline.Linked) (parentInside : parent < outline.parents.length)
    (trueInside : onTrue < outline.parents.length)
    (falseInside : onFalse < outline.parents.length) :
    (outline.regraft parent onTrue onFalse).Linked where
  branch id branch isSide := by
    have grown : (outline.regraft parent onTrue onFalse).forks.length = outline.forks.length + 1 := by
      simp [Outline.regraft]
    rw [parent_regraft id trueInside falseInside] at isSide
    split at isSide
    · cases isSide
      omega
    · have := linked.branch id branch isSide
      omega
  fork fork mem := by
    have same : (outline.regraft parent onTrue onFalse).parents.length = outline.parents.length := by
      simp [Outline.regraft]
    simp only [Outline.regraft, mem_append, mem_singleton] at mem
    rw [same]
    rcases mem with mem | rfl
    · exact linked.fork fork mem
    · exact ⟨trueInside, falseInside, parentInside⟩
  side id branch isSide := by
    rw [parent_regraft id trueInside falseInside] at isSide
    split at isSide
    · rename_i isNew
      cases isSide
      rw [Outline.regraft, fork_length]
      simpa [eq_comm] using isNew
    · rw [Outline.regraft, fork_append _ (linked.branch id branch isSide)]
      exact linked.side id branch isSide

theorem Over.eq_of_root {high : Nat} (isOver : outline.Over high id)
    (isRoot : outline.above? id = none) : id = high := by
  cases isOver with
  | same => rfl
  | climb isAbove => rw [isRoot] at isAbove; cases isAbove

theorem Over.next {high next : Nat} (isOver : outline.Over high id)
    (isAbove : outline.above? id = some next) (apart : id ≠ high) : outline.Over high next := by
  cases isOver with
  | same => exact absurd rfl apart
  | climb isOther isOver =>
    rw [isAbove] at isOther
    cases isOther
    exact isOver

theorem Grounded.not_over_above {next : Nat} (grounded : outline.Grounded id)
    (isAbove : outline.above? id = some next) : ¬outline.Over id next := by
  intro isLoop
  have endless : ∀ start, outline.Grounded start → ¬outline.Over id start := by
    intro start grounded
    induction grounded with
    | @root start isRoot =>
      intro isOver
      rw [isOver.eq_of_root isRoot, isAbove] at isRoot
      cases isRoot
    | @climb start after isAfter _ ih =>
      intro isOver
      by_cases same : start = id
      · rw [same, isAbove] at isAfter
        cases isAfter
        exact ih isLoop
      · exact ih (isOver.next isAfter same)
  exact endless id grounded .same

/-- A new fork over two paths closes a cycle exactly when one of them is above its new place. -/
theorem Linked.acyclic_regraft (linked : outline.Linked) (acyclic : outline.Acyclic)
    (trueInside : onTrue < outline.parents.length)
    (falseInside : onFalse < outline.parents.length) :
    (outline.regraft parent onTrue onFalse).Acyclic ↔
      ¬outline.Over onTrue parent ∧ ¬outline.Over onFalse parent := by
  have above : ∀ id, (outline.regraft parent onTrue onFalse).above? id =
      if id = onTrue ∨ id = onFalse then some parent else outline.above? id :=
    fun id => linked.above?_regraft id trueInside falseInside
  constructor
  · -- Once the new place is below one of the two, no climb that comes to them ends.
    intro newAcyclic
    by_contra isBelow
    have isOver : outline.Over onTrue parent ∨ outline.Over onFalse parent := by
      by_contra neither
      exact isBelow (not_or.1 neither)
    have endless : ∀ id, (outline.regraft parent onTrue onFalse).Grounded id →
        ¬(outline.Over onTrue id ∨ outline.Over onFalse id) := by
      intro id grounded
      induction grounded with
      | @root id isRoot =>
        rw [above] at isRoot
        split at isRoot
        · cases isRoot
        · rename_i unmoved
          rintro (isOver | isOver)
          · exact unmoved (.inl (isOver.eq_of_root isRoot))
          · exact unmoved (.inr (isOver.eq_of_root isRoot))
      | @climb id next isAbove _ ih =>
        rw [above] at isAbove
        split at isAbove
        · cases isAbove
          exact absurd isOver ih
        · rename_i unmoved
          rintro (isOver | isOver)
          · exact ih (.inl (isOver.next isAbove fun same => unmoved (.inl same)))
          · exact ih (.inr (isOver.next isAbove fun same => unmoved (.inr same)))
    exact endless parent (newAcyclic parent) isOver
  · rintro ⟨trueAway, falseAway⟩
    have climbs : ∀ id, outline.Grounded id → ¬outline.Over onTrue id → ¬outline.Over onFalse id →
        (outline.regraft parent onTrue onFalse).Grounded id := by
      intro id grounded
      induction grounded with
      | root isRoot =>
        intro trueAway falseAway
        refine .root ?_
        rw [above, if_neg, isRoot]
        rintro (rfl | rfl)
        · exact trueAway .same
        · exact falseAway .same
      | climb isAbove _ ih =>
        intro trueAway falseAway
        refine .climb ?_ (ih (fun isOver => trueAway (.climb isAbove isOver))
          fun isOver => falseAway (.climb isAbove isOver))
        rw [above, if_neg, isAbove]
        rintro (rfl | rfl)
        · exact trueAway .same
        · exact falseAway .same
    have atParent := climbs parent (acyclic parent) trueAway falseAway
    intro id
    induction acyclic id with
    | @root id isRoot =>
      by_cases moved : id = onTrue ∨ id = onFalse
      · exact .climb (by rw [above, if_pos moved]) atParent
      · exact .root (by rw [above, if_neg moved, isRoot])
    | @climb id next isAbove _ ih =>
      by_cases moved : id = onTrue ∨ id = onFalse
      · exact .climb (by rw [above, if_pos moved]) atParent
      · exact .climb (by rw [above, if_neg moved, isAbove]) ih

end Regraft

end Outline

namespace Workspace

variable {space : Workspace}

theorem parent_outline (id : Nat) : space.parent id = space.outline.parent id := by
  simp only [parent, stack, Outline.parent, outline, getD_eq_getElem?_getD, getElem?_map]
  cases space.paths[id]? <;> rfl

theorem fork_outline (branch : Nat) :
    space.outline.fork branch = ((space.fork branch).onTrue,
      (space.fork branch).onFalse, (space.fork branch).parent) := by
  simp only [fork, Outline.fork, outline, getD_eq_getElem?_getD, getElem?_map]
  cases space.forks[branch]? <;> rfl

theorem above?_outline (id : Nat) :
    space.outline.above? id = (space.parent id).map fun branch => (space.fork branch).parent := by
  simp [Outline.above?, parent_outline, fork_outline]

theorem length_outline : space.outline.parents.length = space.paths.length := by
  simp [outline]

theorem outline_modifyStack (id : Nat) {change : EvalStack → EvalStack}
    (keeps : ∀ stack, (change stack).parent = stack.parent) :
    (space.modifyStack id change).outline = space.outline := by
  simp only [outline, modifyStack, Outline.mk.injEq, and_true]
  exact (map_modify keeps space.paths id).trans (modify_id _ _)

/-! The depth of a path. -/

section

variable (found : space.depthWithin? limit id = some depth)

include found

theorem depthWithin?_succ : space.depthWithin? (limit + 1) id = some depth := by
  induction limit generalizing id depth with
  | zero => cases found
  | succ limit ih =>
    rw [depthWithin?] at found ⊢
    split at found
    · exact found
    · obtain ⟨lower, isLower, rfl⟩ := map_eq_some_iff.1 found
      rw [ih isLower]
      rfl

theorem depthWithin?_mono {larger : Nat} (isLarger : limit ≤ larger) :
    space.depthWithin? larger id = some depth := by
  induction isLarger with
  | refl => exact found
  | step _ ih => exact depthWithin?_succ ih

theorem depthWithin?_tight : space.depthWithin? (depth + 1) id = some depth := by
  induction limit generalizing id depth with
  | zero => cases found
  | succ limit ih =>
    rw [depthWithin?] at found
    rw [depthWithin?]
    split at found
    · exact found
    · obtain ⟨lower, isLower, rfl⟩ := map_eq_some_iff.1 found
      rw [ih isLower]
      rfl

theorem exists_depthWithin? {lower : Nat} (isLower : lower ≤ depth) :
    ∃ below, space.depthWithin? (lower + 1) below = some lower := by
  induction limit generalizing id depth with
  | zero => cases found
  | succ limit ih =>
    rcases lt_or_eq_of_le isLower with isLess | rfl
    · rw [depthWithin?] at found
      split at found
      · cases found
        omega
      · obtain ⟨next, isNext, rfl⟩ := map_eq_some_iff.1 found
        exact ih isNext (by omega)
    · exact ⟨id, depthWithin?_tight found⟩

end

theorem lt_of_depthWithin? (found : space.depthWithin? limit id = some (depth + 1)) :
    id < space.paths.length := by
  cases limit with
  | zero => cases found
  | succ limit =>
    rw [depthWithin?] at found
    split at found
    · cases found
    · rename_i isSide
      rw [parent_outline] at isSide
      simpa [outline] using Outline.lt_of_parent isSide

/-- No depth exceeds the number of paths, since paths of different depths differ. -/
theorem depth_le_length (found : space.depthWithin? limit id = some depth) :
    depth ≤ space.paths.length := by
  have below : ∀ index ∈ Finset.range depth, ∃ path,
      space.depthWithin? (index + 2) path = some (index + 1) := by
    intro index mem
    exact exists_depthWithin? found (Finset.mem_range.1 mem)
  choose! path atDepth using below
  have inside : ∀ index ∈ Finset.range depth, path index ∈ Finset.range space.paths.length :=
    fun index mem => Finset.mem_range.2 (lt_of_depthWithin? (atDepth index mem))
  have distinct : Set.InjOn path (Finset.range depth) := by
    intro first firstMember second secondMember same
    have atFirst := depthWithin?_mono (atDepth first firstMember) (le_max_left _ (second + 2))
    have atSecond := depthWithin?_mono (atDepth second secondMember) (le_max_right (first + 2) _)
    rw [same, atSecond] at atFirst
    simpa using atFirst.symm
  simpa using Finset.card_le_card_of_injOn path inside distinct

theorem grounded_of_depthWithin? (found : space.depthWithin? limit id = some depth) :
    space.outline.Grounded id := by
  induction limit generalizing id depth with
  | zero => cases found
  | succ limit ih =>
    rw [depthWithin?] at found
    split at found
    · rename_i isRoot
      exact .root (by rw [above?_outline, isRoot]; rfl)
    · rename_i branch isSide
      obtain ⟨lower, isLower, -⟩ := map_eq_some_iff.1 found
      exact .climb (by rw [above?_outline, isSide]; rfl) (ih isLower)

/-- A path has a depth exactly when climbing from it ends. -/
theorem depth?_isSome_iff (id : Nat) : (space.depth? id).isSome = true ↔ space.outline.Grounded id := by
  constructor
  · intro isSome
    obtain ⟨depth, found⟩ := isSome_iff_exists.1 isSome
    exact grounded_of_depthWithin? found
  · intro grounded
    have found : ∃ depth, space.depthWithin? (depth + 1) id = some depth := by
      induction grounded with
      | @root id isRoot =>
        rw [above?_outline, map_eq_none_iff] at isRoot
        exact ⟨0, by simp [depthWithin?, isRoot]⟩
      | @climb id next isAbove _ ih =>
        obtain ⟨depth, found⟩ := ih
        rw [above?_outline] at isAbove
        obtain ⟨branch, isSide, rfl⟩ := map_eq_some_iff.1 isAbove
        exact ⟨depth + 1, by rw [depthWithin?, isSide]; simp [found]⟩
    obtain ⟨depth, found⟩ := found
    have bounded := depth_le_length found
    have enough : space.depthWithin? (space.paths.length + 1) id = some depth :=
      depthWithin?_mono found (by omega)
    rw [depth?, enough]
    rfl

end Workspace

end CilLift
