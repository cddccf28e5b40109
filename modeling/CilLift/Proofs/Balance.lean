import Mathlib.Data.ENat.BigOperators
import CilLift.Proofs.Custody.Instructions
import CilLift.Proofs.Links
import CilLift.Proofs.Scale
import CilLift.Proofs.Stacks

/-!
The balance of a workspace: everything that stands on its stacks, in its locals and among its
statements, together with the trees at hand, is admitted by a scale and holds the watched call at most
once. Every step on single paths and every join keeps the balance.
-/

namespace CilLift

open List CilLift.Expr Workspace Prod

variable {id target : StackId} {held : List Held} {slot : LocalSlot} {node value : Expr}
  {index : Nat}

/-- The tree at hand. -/
def Held.tree : Held → Expr
  | .item tree | .made tree | .receiver tree => tree

theorem Held.tree_items (items : List Expr) : (items.map item).map tree = items := by
  simp [Function.comp_def, tree]

/-- What a local holds is accounted for: a symbol that is admitted, or a variable that is declared or
whose assignment is in the pool. -/
def LocalSlot.Backed (admits : Expr → Prop) (pool : List (Expr × Expr)) (declarations : List Expr)
    (slot : LocalSlot) : Prop :=
  match slot.content with
  | .unassigned => True
  | .direct value => (value.isConstant || value.isParameter) = true ∧ admits value
  | .bound _ node assignment => node.isVar = true ∧ node.id?.isSome = true ∧ admits node ∧
      ((node, assignment) ∈ pool ∨ declarations.any (isSame node) = true)

namespace Workspace

/-- What the items of the active paths weigh. -/
noncomputable def itemLoad (weigh : Expr → ℕ∞) (active : StackId → Prop) (space : Workspace) : ℕ∞ :=
  open Classical in
  ∑ id ∈ Finset.range space.paths.length, if active id then ((space.stack id).items.map weigh).sum else 0

/-- What the items of the active paths, the statements, a pool of assignments and the trees at hand
weigh. -/
noncomputable def load (weigh : Expr → ℕ∞) (active : StackId → Prop) (space : Workspace)
    (pool : List (Expr × Expr)) (hand : List Held) : ℕ∞ :=
  space.itemLoad weigh active + ((space.emission.statements ++
    (pool.map snd ++ hand.map Held.tree)).map weigh).sum

variable {weigh lighter : Expr → ℕ∞} {active : StackId → Prop} {space other : Workspace}
  (pool : List (Expr × Expr))

/-- The items of one active path and those of all others make up the load. -/
theorem exists_itemLoad (isActive : active id) :
    ∃ rest, space.itemLoad weigh active = rest + ((space.stack id).items.map weigh).sum ∧
      ∀ other : Workspace, other.paths.length = space.paths.length →
        (∀ path, path ≠ id → (other.stack path).items = (space.stack path).items) →
        other.itemLoad weigh active ≤ rest + ((other.stack id).items.map weigh).sum := by
  classical
  by_cases inside : id < space.paths.length
  · refine ⟨∑ path ∈ (Finset.range space.paths.length).erase id,
      if active path then ((space.stack path).items.map weigh).sum else 0, ?_, ?_⟩
    · unfold itemLoad
      rw [← Finset.sum_erase_add _ _ (mem_range.2 inside), if_pos isActive]
    · intro other sameLength same
      unfold itemLoad
      rw [← Finset.sum_erase_add _ _ (mem_range.2 (sameLength ▸ inside)), if_pos isActive, sameLength]
      refine le_of_eq (congrArg (· + _) (Finset.sum_congr rfl fun path mem => ?_))
      rw [same path (Finset.ne_of_mem_erase mem)]
  · refine ⟨space.itemLoad weigh active, ?_, ?_⟩
    · simp [stack_eq_default inside]
    · intro other sameLength same
      refine le_add_right (le_of_eq ?_)
      unfold itemLoad
      rw [sameLength]
      refine Finset.sum_congr rfl fun path mem => ?_
      have isOther : path ≠ id := by
        rintro rfl
        exact inside (mem_range.1 mem)
      rw [same path isOther]

/-- The load of the items does not grow where they stay, go away or get lighter. -/
theorem itemLoad_mono {less : StackId → Prop} (same : ∀ id, less id → (other.stack id).items = [] ∨
      active id ∧ (other.stack id).items = (space.stack id).items)
    (light : ∀ tree, lighter tree ≤ weigh tree) :
    other.itemLoad lighter less ≤ space.itemLoad weigh active := by
  classical
  have each : ∀ id, (if less id then ((other.stack id).items.map lighter).sum else 0) ≤
      if active id then ((space.stack id).items.map weigh).sum else 0 := by
    intro id
    by_cases isLess : less id
    · rw [if_pos isLess]
      rcases same id isLess with isEmpty | ⟨isActive, sameItems⟩
      · rw [isEmpty]
        exact zero_le
      · rw [if_pos isActive, sameItems]
        exact sum_le_sum fun tree _ => light tree
    · rw [if_neg isLess]
      exact zero_le
  refine (Finset.sum_le_sum fun id _ => each id).trans (Finset.sum_le_sum_of_ne_zero ?_)
  intro id _ loaded
  by_contra outside
  refine loaded ?_
  simp [stack_eq_default fun inside => outside (mem_range.2 inside)]

theorem load_cons (held : Held) (hand : List Held) :
    space.load weigh active pool (held :: hand) =
      space.load weigh active pool hand + weigh held.tree := by
  simp only [load, map_append, map_cons, sum_append, sum_cons]
  ac_rfl

theorem load_append (front hand : List Held) :
    space.load weigh active pool (front ++ hand) =
      space.load weigh active pool hand + ((front.map Held.tree).map weigh).sum := by
  simp only [load, map_append, sum_append]
  ac_rfl

theorem load_mono (hand : List Held) (light : ∀ tree, lighter tree ≤ weigh tree) :
    space.load lighter active pool hand ≤ space.load weigh active pool hand :=
  add_le_add (itemLoad_mono (fun _ isActive => .inr ⟨isActive, rfl⟩) light)
    (sum_le_sum fun tree _ => light tree)

theorem load_eq_zero {pool : List (Expr × Expr)} {hand : List Held}
    (items : ∀ id, active id → ∀ item ∈ (space.stack id).items, weigh item = 0)
    (others : ∀ tree ∈ space.emission.statements ++ (pool.map snd ++ hand.map Held.tree),
      weigh tree = 0) : space.load weigh active pool hand = 0 := by
  have weightless : ∀ trees : List Expr, (∀ tree ∈ trees, weigh tree = 0) →
      (trees.map weigh).sum = 0 := by
    intro trees light
    refine sum_eq_zero fun weight mem => ?_
    obtain ⟨tree, isTree, rfl⟩ := mem_map.1 mem
    exact light tree isTree
  unfold load itemLoad
  rw [weightless _ others, add_zero]
  refine Finset.sum_eq_zero fun id _ => ?_
  split
  · exact weightless _ (items id ‹_›)
  · rfl

/-- Items of an active path and trees at hand change places. -/
theorem load_withItems {items : List Expr} {hand : List Held}
    (isActive : active id) (lighter : (items.map weigh).sum + ((held.map Held.tree).map weigh).sum ≤
      ((space.stack id).items.map weigh).sum + ((hand.map Held.tree).map weigh).sum) :
    (space.withItems id items).load weigh active pool held ≤ space.load weigh active pool hand := by
  obtain ⟨rest, whole, bound⟩ := space.exists_itemLoad isActive
  have loaded : (space.withItems id items).itemLoad weigh active ≤ rest + (items.map weigh).sum := by
    refine (bound (space.withItems id items) (length_modifyStack ..) fun path isOther =>
      ?_).trans (add_le_add_right ?_ rest)
    · rw [items_withItems, if_neg fun found => isOther found.1.symm]
    · rw [items_withItems]
      split
      · exact le_rfl
      · rename_i outside
        rw [stack_eq_default fun inside => outside ⟨rfl, inside⟩]
        exact zero_le
  simp only [load, map_append, sum_append]
  have same : (space.withItems id items).emission = space.emission := rfl
  rw [whole, same]
  generalize (space.emission.statements.map weigh).sum = statements
  generalize ((pool.map snd).map weigh).sum = assignments
  calc _ ≤ rest + (items.map weigh).sum + (statements + (assignments + _)) :=
        add_le_add_left loaded _
    _ = rest + statements + assignments + ((items.map weigh).sum + _) := by ac_rfl
    _ ≤ rest + statements + assignments + _ := add_le_add_right lighter _
    _ = _ := by ac_rfl

end Workspace

theorem LocalSlot.Backed.mono {admits accepts : Expr → Prop} {pool more : List (Expr × Expr)}
    {declarations wider : List Expr} (backed : slot.Backed admits pool declarations)
    (accepted : ∀ tree, admits tree → accepts tree)
    (kept : ∀ pair ∈ pool, pair ∈ more ∨ wider.any (isSame pair.1) = true)
    (still : ∀ node ∈ declarations, node ∈ wider) : slot.Backed accepts more wider := by
  unfold Backed at *
  split at backed
  · trivial
  · exact ⟨backed.1, accepted _ backed.2⟩
  · obtain ⟨isVar, isPlaced, admitted, inPool | isDeclared⟩ := backed
    · exact ⟨isVar, isPlaced, accepted _ admitted, kept _ inPool⟩
    · refine ⟨isVar, isPlaced, accepted _ admitted, .inr ?_⟩
      obtain ⟨node, mem, isSame⟩ := any_eq_true.1 isDeclared
      exact any_eq_true.2 ⟨node, still node mem, isSame⟩

namespace Scale

/-- The workspace has kept the forks and links of the one it started from, and the items of its idle
paths; everything else in it and at hand is admitted, and the watched call occurs within its limit. -/
structure Balance (scale : Scale) (start : Workspace) (active : StackId → Prop) (base : Atlas)
    (atlas : Atlas) (pool : List (Expr × Expr)) (space : Workspace) (shared : List Expr)
    (hand : List Held) : Prop where
  forks : space.forks = start.forks
  outline : space.outline = start.outline
  idle : ∀ id, ¬active id → (space.stack id).items = (start.stack id).items
  grown : start.emission.nextNode ≤ space.emission.nextNode
  agrees : Atlas.AgreesBelow start.emission.nextNode base atlas
  declared : ∀ node ∈ space.emission.declarations,
    node.isVar = true ∧ scale.Admits space.emission.nextNode atlas node
  backed : ∀ slot ∈ space.slots, slot.Backed (scale.Admits space.emission.nextNode atlas)
    pool space.emission.declarations
  unexposed : ∀ tree ∈ shared, scale.exposure space.emission.nextNode atlas tree = 0
  within : space.load (scale.weight space.emission.nextNode atlas) active pool hand ≤
    scale.limit space.emission.nextNode

/-- The balance as an invariant of the steps that make no fork. -/
def custody (scale : Scale) (start : Workspace) (active : StackId → Prop) (base : Atlas) :
    Custody where
  Holds space shared hand := ∃ atlas pool, scale.Balance start active base atlas pool space shared hand
  Tolerates _ := True

variable {scale : Scale} {start space next : Workspace} {active : StackId → Prop}
  {base atlas : Atlas} {pool : List (Expr × Expr)} {shared : List Expr} {hand : List Held}
  {tree : Expr}

namespace Balance

section

variable (balance : scale.Balance start active base atlas pool space shared hand)

include balance

theorem admits (light : scale.weight space.emission.nextNode atlas tree ≤
      space.load (scale.weight space.emission.nextNode atlas) active pool hand) :
    scale.Admits space.emission.nextNode atlas tree := by
  have finite : scale.tally scale.isWatched space.emission.nextNode atlas tree ≠ ⊤ :=
    ne_top_of_le_ne_top (ENat.natCast_ne_top _) (light.trans balance.within)
  exact admits_of_tally finite

theorem admits_other
    (mem : tree ∈ space.emission.statements ++ (pool.map snd ++ hand.map Held.tree)) :
    scale.Admits space.emission.nextNode atlas tree :=
  balance.admits (le_trans (single_le_sum (by simp) _ (mem_map_of_mem mem)) le_add_self)

theorem admits_hand {held : Held} (mem : held ∈ hand) :
    scale.Admits space.emission.nextNode atlas held.tree :=
  balance.admits_other (by simp [mem_map_of_mem mem])

theorem admits_item (isActive : active id) (mem : tree ∈ (space.stack id).items) :
    scale.Admits space.emission.nextNode atlas tree := by
  refine balance.admits (le_trans ?_ le_self_add)
  obtain ⟨rest, whole, -⟩ := space.exists_itemLoad isActive
  rw [whole]
  exact le_trans (single_le_sum (by simp) _ (mem_map_of_mem mem)) le_add_self

theorem admits_statement (mem : tree ∈ space.emission.statements) :
    scale.Admits space.emission.nextNode atlas tree :=
  balance.admits_other (by simp [mem])

theorem admits_shared (mem : tree ∈ shared) : scale.Admits space.emission.nextNode atlas tree := by
  have finite : scale.tally scale.isExposed space.emission.nextNode atlas tree ≠ ⊤ :=
    ne_of_eq_of_ne (balance.unexposed tree mem) ENat.zero_ne_top
  exact admits_of_tally finite

/-- Trees change places without getting heavier. -/
theorem rearrange {others : List (Expr × Expr)} {still : List Expr}
    (forks : next.forks = space.forks) (outline : next.outline = space.outline)
    (idle : ∀ id, ¬active id → (next.stack id).items = (space.stack id).items)
    (nextNode : next.emission.nextNode = space.emission.nextNode)
    (declared : ∀ node ∈ next.emission.declarations, node ∈ space.emission.declarations ∨
      node.isVar = true ∧ scale.Admits space.emission.nextNode atlas node)
    (backed : ∀ slot ∈ next.slots, slot.Backed (scale.Admits space.emission.nextNode atlas)
      others next.emission.declarations)
    (unexposed : ∀ tree ∈ still, scale.exposure space.emission.nextNode atlas tree = 0)
    (lighter : next.load (scale.weight space.emission.nextNode atlas) active others held ≤
      space.load (scale.weight space.emission.nextNode atlas) active pool hand) :
    scale.Balance start active base atlas others next still held where
  forks := forks.trans balance.forks
  outline := outline.trans balance.outline
  idle id isIdle := (idle id isIdle).trans (balance.idle id isIdle)
  grown := nextNode ▸ balance.grown
  agrees := balance.agrees
  declared node mem := by
    rw [nextNode]
    exact (declared node mem).elim (balance.declared node) id
  backed := by rwa [nextNode]
  unexposed := by rwa [nextNode]
  within := by
    rw [nextNode]
    exact lighter.trans balance.within

theorem regrip
    (lighter : space.load (scale.weight space.emission.nextNode atlas) active pool held ≤
      space.load (scale.weight space.emission.nextNode atlas) active pool hand) :
    scale.Balance start active base atlas pool space shared held :=
  { balance with within := lighter.trans balance.within }

theorem emit {emission : Emission}
    (statements : emission.statements = space.emission.statements)
    (declarations : emission.declarations = space.emission.declarations)
    (nextNode : emission.nextNode = space.emission.nextNode) :
    scale.Balance start active base atlas pool { space with emission } shared hand := by
  refine balance.rearrange rfl rfl (fun _ _ => rfl) nextNode (fun node mem => .inl ?_)
    (fun slot mem => ?_) balance.unexposed ?_
  · exact declarations ▸ mem
  · have backed := balance.backed slot mem
    exact declarations ▸ backed
  · simp only [load, statements]
    exact le_rfl

theorem track {expr : Expr} :
    scale.Balance start active base atlas pool
      { space with emission := space.emission.track expr } shared hand :=
  balance.emit rfl rfl rfl

/-- Items of an active path and trees at hand change places. -/
theorem withItems {items : List Expr} (isActive : active id)
    (lighter : (items.map (scale.weight space.emission.nextNode atlas)).sum +
        ((held.map Held.tree).map (scale.weight space.emission.nextNode atlas)).sum ≤
      ((space.stack id).items.map (scale.weight space.emission.nextNode atlas)).sum +
        ((hand.map Held.tree).map (scale.weight space.emission.nextNode atlas)).sum) :
    scale.Balance start active base atlas pool (space.withItems id items) shared held := by
  refine balance.rearrange rfl (outline_modifyStack id fun _ => rfl) ?_ rfl
    (fun _ => .inl) (fun slot mem => balance.backed slot
      (mem_slots_modifyStack mem fun _ => rfl)) balance.unexposed
    (load_withItems pool isActive lighter)
  intro path isIdle
  rw [items_withItems, if_neg]
  rintro ⟨rfl, -⟩
  exact isIdle isActive

/-- A step on a path that leaves its items and locals alone. -/
theorem modifyStack (path : StackId) {change : EvalStack → EvalStack}
    (items : ∀ stack, (change stack).items = stack.items)
    (locals : ∀ stack, (change stack).locals = stack.locals)
    (parent : ∀ stack, (change stack).parent = stack.parent) :
    scale.Balance start active base atlas pool (space.modifyStack path change) shared hand := by
  have sameItems : ∀ id, ((space.modifyStack path change).stack id).items =
      (space.stack id).items := fun id => keep_modifyStack EvalStack.items path id items
  refine balance.rearrange rfl (outline_modifyStack path parent)
    (fun id _ => sameItems id) rfl (fun _ => .inl) (fun slot mem =>
      balance.backed slot (mem_slots_modifyStack mem locals)) balance.unexposed ?_
  exact add_le_add_left (itemLoad_mono
    (fun id isActive => .inr ⟨isActive, sameItems id⟩) fun _ => le_rfl) _

theorem addVariable
    (isVar : node.isVar = true) (admits : scale.Admits space.emission.nextNode atlas node) :
    scale.Balance start active base atlas pool
      { space with emission := space.emission.addVariable node } shared hand := by
  refine balance.rearrange rfl rfl (fun _ _ => rfl) rfl (fun other mem => ?_)
    (fun slot mem => ?_) balance.unexposed le_rfl
  · rcases mem_append.1 mem with before | isNode
    · exact .inl before
    · rw [mem_singleton.1 isNode]
      exact .inr ⟨isVar, admits⟩
  · exact (balance.backed slot mem).mono (fun _ => id) (fun _ => .inl)
      fun other before => mem_append.2 (.inl before)

theorem share (unexposed : scale.exposure space.emission.nextNode atlas tree = 0) :
    scale.Balance start active base atlas pool space (tree :: shared) hand := by
  refine { balance with unexposed := fun other mem => ?_ }
  rcases mem_cons.1 mem with rfl | mem
  · exact unexposed
  · exact balance.unexposed other mem

theorem grasp (held : Held)
    (weightless : scale.weight space.emission.nextNode atlas held.tree = 0) :
    scale.Balance start active base atlas pool space shared (held :: hand) := by
  refine balance.regrip (le_of_eq ?_)
  rw [load_cons, weightless, add_zero]

end

/-- A tree at hand is placed. -/
theorem place (fair : scale.Fair)
    (balance : scale.Balance start active base atlas pool space shared (.made tree :: hand)) :
    ∃ wider, scale.Balance start active base wider pool (space.placing tree) shared
        (.made (space.emission.place tree).1 :: hand) ∧
      scale.exposure (space.emission.place tree).2.nextNode wider (space.emission.place tree).1 ≤
        scale.exposure space.emission.nextNode atlas tree := by
  have grown : space.emission.nextNode ≤ (space.emission.place tree).2.nextNode :=
    space.emission.nextNode_place tree
  obtain ⟨wider, agrees, -, moves, exposure⟩ :=
    fair.place_weight (balance.admits_hand (mem_cons_self : .made tree ∈ .made tree :: hand))
  refine ⟨wider, ?_, exposure⟩
  have light : ∀ other, scale.weight (space.emission.place tree).2.nextNode wider other ≤
      scale.weight space.emission.nextNode atlas other := fun _ => fair.tally_mono grown agrees
  exact {
    forks := balance.forks
    outline := balance.outline
    idle := balance.idle
    grown := balance.grown.trans grown
    agrees := balance.agrees.trans balance.grown agrees
    declared := fun node mem => (balance.declared node mem).imp_right (fair.mono grown agrees)
    backed := fun slot mem => (balance.backed slot mem).mono
      (fun _ => fair.mono grown agrees) (fun _ => .inl) fun _ => id
    unexposed := fun other mem =>
      le_antisymm ((fair.tally_mono grown agrees).trans_eq (balance.unexposed other mem)) zero_le
    within := by
      have within := balance.within
      rw [load_cons] at within ⊢
      refine ((moves.add _).mono le_rfl ?_).limited within
      exact add_le_add_left (load_mono pool hand light) _ }

theorem put {held : Held}
    (balance : scale.Balance start active base atlas pool space shared (held :: hand))
    (isTree : held.tree = tree) (isActive : active id) :
    scale.Balance start active base atlas pool
      (space.modifyStack id fun stack => { stack with items := tree :: stack.items }) shared
      hand := by
  rw [modifyStack_eq_withItems space id (tree :: ·)]
  refine balance.withItems isActive (le_of_eq ?_)
  simp only [map_cons, sum_cons, isTree]
  ac_rfl

/-- A tree at hand becomes a statement. -/
theorem addStatement {held : Held}
    (balance : scale.Balance start active base atlas pool space shared (held :: hand)) :
    scale.Balance start active base atlas pool
      { space with emission := space.emission.addStatement held.tree } shared hand := by
  refine balance.rearrange rfl rfl (fun _ _ => rfl) rfl (fun _ => .inl) balance.backed
    balance.unexposed (le_of_eq ?_)
  rw [load_cons]
  have sameItems : itemLoad (scale.weight space.emission.nextNode atlas) active
      { space with emission := space.emission.addStatement held.tree } =
      space.itemLoad (scale.weight space.emission.nextNode atlas) active := rfl
  simp only [load, Emission.addStatement, map_append, sum_append, map_cons,
    map_nil, sum_singleton] at sameItems ⊢
  ac_rfl

/-- The pool need not hold the assignments of declared variables. -/
theorem shrink {front back : List (Expr × Expr)} {pair : Expr × Expr}
    (balance : scale.Balance start active base atlas (front ++ pair :: back) space shared hand)
    (isDeclared : space.emission.isDeclared pair.1 = true) :
    scale.Balance start active base atlas (front ++ back) space shared (.made pair.2 :: hand) := by
  refine balance.rearrange rfl rfl (fun _ _ => rfl) rfl (fun _ => .inl)
    (fun slot mem => ?_) balance.unexposed (le_of_eq ?_)
  · refine (balance.backed slot mem).mono (fun _ => id) (fun other before => ?_) fun _ => id
    simp only [mem_append, mem_cons] at before ⊢
    rcases before with before | rfl | before
    · exact .inl (.inl before)
    · exact .inr isDeclared
    · exact .inl (.inr before)
  · simp only [load, map_append, map_cons, sum_append, sum_cons]
    ac_rfl

/-- A local gets other content, whose assignment leaves the hand. -/
theorem setSlot (more : List (Expr × Expr)) (held : List Held)
    (balance : scale.Balance start active base atlas pool space shared (held ++ hand))
    (backed : slot.Backed (scale.Admits space.emission.nextNode atlas) (more ++ pool)
      space.emission.declarations) (assignments : more.map snd = held.map Held.tree) :
    scale.Balance start active base atlas (more ++ pool) (space.setSlot target index slot) shared
      hand := by
  have sameItems : ∀ path, ((space.setSlot target index slot).stack path).items =
      (space.stack path).items := fun path =>
    keep_modifyStack EvalStack.items target path fun _ => rfl
  refine balance.rearrange rfl (outline_modifyStack target fun _ => rfl)
    (fun path _ => sameItems path) rfl (fun _ => .inl) (fun found mem => ?_) balance.unexposed ?_
  · rcases mem_slots_setSlot mem with before | rfl
    · exact (balance.backed found before).mono (fun _ => id)
        (fun _ inPool => .inl (mem_append.2 (.inr inPool))) fun _ => id
    · exact backed
  · have items : (space.setSlot target index slot).itemLoad
        (scale.weight space.emission.nextNode atlas) active ≤
        space.itemLoad (scale.weight space.emission.nextNode atlas) active :=
      itemLoad_mono (fun path isActive => .inr ⟨isActive, sameItems path⟩) fun _ => le_rfl
    refine (add_le_add_left items _).trans (le_of_eq ?_)
    simp only [load, map_append, sum_append, assignments]
    ac_rfl

end Balance

/-! Symbols hold no call. -/

theorem countP_symbol {picks : Expr → Bool}
    (unpicked : ∀ node, (node.isConstant || node.isParameter || node.isVar) = true →
      picks node = false) (isSymbol : (tree.isConstant || tree.isParameter || tree.isVar) = true) :
    tree.nodes.countP picks = 0 := by
  have alone : tree.nodes = [tree] := by
    cases tree <;> first | rfl | cases isSymbol
  rw [alone, countP_singleton, unpicked tree isSymbol]
  rfl

theorem isExposed_symbol (isSymbol : (tree.isConstant || tree.isParameter || tree.isVar) = true) :
    scale.isExposed tree = false := by
  have isOther : tree.isCall = false := by
    cases tree <;> first | rfl | cases isSymbol
  simp [isExposed, isOther]

theorem exposure_symbol {count : Nat}
    (isSymbol : (tree.isConstant || tree.isParameter || tree.isVar) = true)
    (admits : scale.Admits count atlas tree) : scale.exposure count atlas tree = 0 := by
  rw [exposure, tally_eq admits, countP_symbol (fun _ => isExposed_symbol) isSymbol]
  rfl

theorem weight_of_exposure {count : Nat}
    (unexposed : scale.exposure count atlas tree = 0) : scale.weight count atlas tree = 0 :=
  le_antisymm (weight_le_exposure.trans_eq unexposed) zero_le

namespace Balance

theorem forget
    (balance : scale.Balance start active base atlas pool space (tree :: shared) hand) :
    scale.Balance start active base atlas pool space shared hand :=
  { balance with unexposed := fun other mem => balance.unexposed other (by simp [mem]) }

theorem drop {held : Held}
    (balance : scale.Balance start active base atlas pool space shared (held :: hand)) :
    scale.Balance start active base atlas pool space shared hand := by
  refine balance.regrip ?_
  rw [load_cons]
  exact le_self_add

theorem build (parts : List Expr)
    (balance : scale.Balance start active base atlas pool space shared
      (parts.map .made ++ hand)) (made : scale.weight space.emission.nextNode atlas tree ≤
      (parts.map (scale.weight space.emission.nextNode atlas)).sum) :
    scale.Balance start active base atlas pool space shared (.made tree :: hand) := by
  refine balance.regrip ?_
  rw [load_cons, load_append]
  refine add_le_add_right (made.trans_eq ?_) _
  simp [Function.comp_def, Held.tree]

/-- A new variable may be used again and again. -/
theorem newVariable (fair : scale.Fair) (name : String) (type : TypeSig)
    (balance : scale.Balance start active base atlas pool space shared hand) :
    ∃ wider, scale.Balance start active base wider pool
      { space with emission := (space.emission.newVariable name type).2 }
      ((space.emission.newVariable name type).1 :: shared) hand ∧
      (space.emission.newVariable name type).1.isVar = true ∧
      (space.emission.newVariable name type).1.id?.isSome = true := by
  obtain ⟨given, names, nextTemporary, isNew⟩ := space.emission.newVariable_eq name type
  have named : scale.Balance start active base atlas pool
      { space with emission := { space.emission with
        names, nextTemporary, nextVariable := space.emission.nextVariable + 1 } } shared hand :=
    balance.emit rfl rfl rfl
  have weightless : scale.weight space.emission.nextNode atlas
      (.mkVar space.emission.nextVariable given type) = 0 :=
    le_antisymm (fair.weight_le_parts rfl rfl) zero_le
  obtain ⟨wider, placed, -⟩ := place fair (named.grasp (.made _) weightless)
  have admits := placed.admits_hand mem_cons_self
  rw [isNew]
  exact ⟨wider, placed.drop.share (exposure_symbol rfl admits), rfl, rfl⟩

/-- A variable is declared by an assignment in the pool. -/
theorem declare {assignment : Expr} (isVar : node.isVar = true)
    (admits : scale.Admits space.emission.nextNode atlas node)
    (isKnown : (node, assignment) ∈ pool ∨ space.emission.isDeclared node = true)
    (isPlaced : node.id?.isSome = true)
    (balance : scale.Balance start active base atlas pool space shared hand) :
    ∃ others, scale.Balance start active base atlas others
      { space with emission := space.emission.declare node assignment } shared hand := by
  unfold Emission.declare
  by_cases isDeclared : space.emission.isDeclared node = true
  · rw [if_pos isDeclared]
    exact ⟨pool, balance⟩
  · rw [if_neg isDeclared]
    obtain ⟨front, back, rfl⟩ := append_of_mem (isKnown.resolve_right isDeclared)
    have added := balance.addVariable isVar admits
    have nowDeclared : (space.emission.addVariable node).isDeclared node = true := by
      simp [Emission.isDeclared, Emission.addVariable, isSame, isPlaced]
    exact ⟨front ++ back, (added.shrink nowDeclared).addStatement⟩

theorem assign (fair : scale.Fair) {target : Expr} (isShared : target ∈ shared)
    (balance : scale.Balance start active base atlas pool space shared (.made value :: hand)) :
    ∃ wider, scale.Balance start active base wider pool (space.placing (.mkAssign target value))
      shared (.made (space.emission.place (.mkAssign target value)).1 :: hand) := by
  have lent := balance.grasp (.made target) (weight_of_exposure (balance.unexposed target isShared))
  have built : scale.Balance start active base atlas pool space shared
      (.made (.mkAssign target value) :: hand) :=
    build [target, value] lent (fair.weight_le_parts rfl rfl)
  obtain ⟨wider, placed, -⟩ := built.place fair
  exact ⟨wider, placed⟩

theorem bindSlot {assignment : Expr} (isVar : node.isVar = true) (isPlaced : node.id?.isSome = true)
    (isShared : node ∈ shared)
    (balance : scale.Balance start active base atlas pool space shared (.made assignment :: hand)) :
    scale.Balance start active base atlas ([(node, assignment)] ++ pool)
      (space.setSlot target index { slot with content := .bound value node assignment }) shared
      hand :=
  setSlot [(node, assignment)] [.made assignment] balance
    ⟨isVar, isPlaced, balance.admits_shared isShared, .inl mem_cons_self⟩ rfl

/-- A local gets a value of its type. -/
theorem store (fair : scale.Fair)
    (balance : scale.Balance start active base atlas pool space shared (.made value :: hand)) :
    ∃ wider others, scale.Balance start active base wider others
      { space.setSlot target index (slot.store value space.emission).1 with
        emission := (slot.store value space.emission).2 } shared hand := by
  obtain ⟨wider, placed, -⟩ := balance.place fair
  unfold LocalSlot.store
  dsimp only
  by_cases isSymbol : ((space.emission.place value).1.isConstant ||
      (space.emission.place value).1.isParameter) = true
  · rw [if_pos isSymbol]
    have admits := placed.admits_hand mem_cons_self
    exact ⟨wider, [] ++ pool, setSlot [] [] placed.drop ⟨isSymbol, admits⟩ rfl⟩
  · rw [if_neg isSymbol]
    obtain ⟨_, named, isVar, isPlaced⟩ := placed.newVariable fair slot.name slot.type
    obtain ⟨wider, assigned⟩ := named.assign fair mem_cons_self
    exact ⟨wider, _, track (forget (assigned.bindSlot isVar isPlaced mem_cons_self))⟩

/-- A value is bound to a new variable. -/
theorem materialize (fair : scale.Fair)
    (balance : scale.Balance start active base atlas pool space shared (.item value :: hand)) :
    ∃ wider, scale.Balance start active base wider pool
      { space with emission := (space.emission.freshName.2.materialize value
        space.emission.freshName.1).2 } shared
      (.item (space.emission.freshName.2.materialize value space.emission.freshName.1).1 :: hand) := by
  have used : scale.Balance start active base atlas pool space shared (.made value :: hand) :=
    balance.regrip le_rfl
  have fresh : scale.Balance start active base atlas pool
      { space with emission := space.emission.freshName.2 } shared (.made value :: hand) :=
    used.emit rfl rfl rfl
  obtain ⟨_, named, isVar, isPlaced⟩ := fresh.newVariable fair space.emission.freshName.1 value.type
  obtain ⟨wider, assigned⟩ := named.assign fair mem_cons_self
  have declared := (assigned.addVariable isVar (assigned.admits_shared mem_cons_self))
  have done := declared.addStatement
  have weightless := weight_of_exposure (done.unexposed _ mem_cons_self)
  have tracked := (done.grasp (.item _) weightless).forget
  exact ⟨wider, tracked.emit rfl rfl rfl⟩

end Balance

section Custody

variable (fair : scale.Fair)

include fair

/-- The balance is kept by all steps on single paths. -/
theorem Fair.lawful : (scale.custody start active base).Lawful active fun _ => True where
  answer _ _ := trivial
  perm := by
    rintro space shared hand other same ⟨atlas, pool, balance⟩
    refine ⟨atlas, pool, balance.regrip (le_of_eq ?_)⟩
    simp only [load, map_append, sum_append, ((same.map Held.tree).map (scale.weight _ atlas)).sum_eq]
  drop := by
    rintro space shared held hand ⟨atlas, pool, balance⟩
    exact ⟨atlas, pool, balance.drop⟩
  use := by
    rintro space shared tree hand ⟨atlas, pool, balance⟩
    exact ⟨atlas, pool, balance.regrip le_rfl⟩
  share := by
    rintro space shared tree hand isSymbol ⟨atlas, pool, balance⟩
    have admits := balance.admits_hand mem_cons_self
    refine ⟨atlas, pool, balance.drop.share (exposure_symbol ?_ admits)⟩
    simp only [Bool.or_eq_true] at isSymbol ⊢
    exact isSymbol.imp_left .inl
  forget := by
    rintro space shared tree hand ⟨atlas, pool, balance⟩
    exact ⟨atlas, pool, balance.forget⟩
  lend := by
    rintro space shared tree hand isShared ⟨atlas, pool, balance⟩
    exact ⟨atlas, pool, balance.grasp _ (weight_of_exposure (balance.unexposed tree isShared))⟩
  build := by
    rintro space shared tree hand parts made ⟨atlas, pool, balance⟩
    exact ⟨atlas, pool, balance.build parts (made _ fair.weighed_weight)⟩
  store := by
    rintro space shared target value hand _ ⟨atlas, pool, balance⟩
    exact ⟨atlas, pool, Balance.build [target, value] balance (fair.weight_le_parts rfl rfl)⟩
  call := by
    rintro space shared hand target method arguments ⟨atlas, pool, balance⟩
    exact ⟨atlas, pool, balance.build _ (fair.weight_le_parts rfl rfl)⟩
  new := by
    rintro space shared hand constructor arguments ⟨atlas, pool, balance⟩
    exact ⟨atlas, pool, balance.build _ (fair.weight_le_parts rfl rfl)⟩
  invoke := by
    rintro space shared hand target arguments type ⟨atlas, pool, balance⟩
    exact ⟨atlas, pool, balance.build _ (fair.weight_le_parts rfl rfl)⟩
  place := by
    rintro space shared tree hand ⟨atlas, pool, balance⟩
    obtain ⟨wider, placed, -⟩ := balance.place fair
    exact ⟨wider, pool, placed⟩
  push := by
    rintro space shared id tree hand isActive ⟨atlas, pool, balance⟩
    obtain ⟨_, placed, -⟩ := balance.place fair
    obtain ⟨wider, again, -⟩ := placed.track.place fair
    exact ⟨wider, pool, again.put rfl isActive⟩
  pop := by
    rintro space shared id hand isActive ⟨atlas, pool, balance⟩
    refine (ensures_modifyGet _).2 ?_
    split
    · exact ⟨atlas, pool, balance⟩
    · rename_i top rest found
      refine ⟨atlas, pool, balance.withItems isActive (le_of_eq ?_)⟩
      simp only [found, Option.toList_some, map_cons, map_nil, singleton_append, sum_cons]
      ac_rfl
  gather := by
    rintro space shared id hand isActive ⟨atlas, pool, balance⟩
    refine ⟨atlas, pool, balance.withItems isActive (le_of_eq ?_)⟩
    rw [map_append, Held.tree_items]
    simp
  scatter := by
    rintro space shared id items hand isActive isEmpty ⟨atlas, pool, balance⟩
    refine ⟨atlas, pool, balance.withItems isActive (le_of_eq ?_)⟩
    rw [isEmpty, map_append, Held.tree_items]
    simp
  readLocal := by
    rintro space shared id hand index - ⟨atlas, pool, balance⟩
    refine ensures_slotOf ((ensures_modifyGet _).2 ?_)
    rcases space.slot_mem_or_default id index with mem | isUnassigned
    · have backed := balance.backed _ mem
      unfold LocalSlot.Backed at backed
      unfold LocalSlot.read
      generalize (space.slot id index).content = content at backed ⊢
      cases content with
      | unassigned => exact ⟨atlas, pool, balance⟩
      | direct value =>
        obtain ⟨isSymbol, admits⟩ := backed
        have weightless := weight_of_exposure (exposure_symbol (by simp [isSymbol]) admits)
        exact ⟨atlas, pool, balance.grasp (.made value) weightless⟩
      | bound value node assignment =>
        obtain ⟨isVar, isPlaced, admits, isKnown⟩ := backed
        have unexposed := exposure_symbol (by simp [isVar]) admits
        obtain ⟨others, declared⟩ := (balance.share unexposed).declare isVar admits isKnown isPlaced
        have weightless := weight_of_exposure (declared.unexposed node mem_cons_self)
        exact ⟨atlas, others, (declared.grasp (.made node) weightless).forget⟩
    · simp only [LocalSlot.read, isUnassigned]
      exact ⟨atlas, pool, balance⟩
  assignLocal := by
    rintro space shared id value hand index - ⟨atlas, pool, balance⟩
    refine ensures_slotOf (ensures_bind.2 (ensures_get.2 (ensures_bind.2 ((ensures_lift _).2 ?_))))
    refine yields_bind.2 (Yields.mono (coerce_forms value _) (fun coerced made => ?_) fun _ _ => trivial)
    have converted : scale.Balance start active base atlas pool space shared
        (.made coerced :: hand) := Balance.build [value] balance (made _ fair.weighed_weight)
    exact converted.store fair
  statement := by
    rintro space shared effect hand ⟨atlas, pool, balance⟩
    obtain ⟨wider, placed, -⟩ := balance.place fair
    exact ⟨wider, pool, placed.track.addStatement⟩
  addStatement := by
    rintro space shared value hand _ ⟨atlas, pool, balance⟩
    exact ⟨atlas, pool, balance.addStatement⟩
  materialize := by
    rintro space shared value hand _ ⟨atlas, pool, balance⟩
    obtain ⟨wider, bound⟩ := balance.materialize fair
    exact ⟨wider, pool, bound⟩

/-- The balance is kept by joins, as long as the tests of the forks hold no call that is watched. -/
theorem Fair.joins
    (tests : ∀ fork ∈ start.forks, scale.exposure start.emission.nextNode base fork.test = 0) :
    (scale.custody start active base).Joins active fun _ => True where
  toLawful := fair.lawful
  clearLocal := by
    rintro space shared id hand index - ⟨atlas, pool, balance⟩
    exact ⟨atlas, [] ++ pool, Balance.setSlot [] [] balance trivial rfl⟩
  copyLocal := by
    rintro space shared source target hand index - - ⟨atlas, pool, balance⟩
    refine ⟨atlas, [] ++ pool, Balance.setSlot [] [] balance ?_ rfl⟩
    rcases space.slot_mem_or_default source index with mem | isUnassigned
    · exact balance.backed _ mem
    · simp [LocalSlot.Backed, isUnassigned]
  markReduced := by
    rintro space shared hand id ⟨atlas, pool, balance⟩
    exact ⟨atlas, pool, balance.modifyStack id (fun _ => rfl) (fun _ => rfl) fun _ => rfl⟩
  test := by
    rintro space shared hand branch ⟨atlas, pool, balance⟩
    refine ⟨atlas, pool, balance.share (le_antisymm ?_ zero_le)⟩
    have test : scale.exposure start.emission.nextNode base (space.fork branch).test = 0 := by
      unfold fork
      rw [balance.forks]
      by_cases inside : branch < start.forks.length
      · rw [getD_eq_getElem _ _ inside]
        exact tests _ (getElem_mem inside)
      · rw [getD_eq_default _ _ (Nat.le_of_not_lt inside)]
        exact le_antisymm (fair.tally_le_parts rfl rfl rfl) zero_le
    exact (fair.tally_mono balance.grown balance.agrees).trans_eq test
  reshare := by
    rintro space shared tree hand part isShared made ⟨atlas, pool, balance⟩
    refine ⟨atlas, pool, balance.share (le_antisymm ?_ zero_le)⟩
    simpa [balance.unexposed part isShared] using
      made (scale.exposure space.emission.nextNode atlas) fair.weighed_exposure
  placeShared := by
    rintro space shared tree hand ⟨atlas, pool, balance⟩
    have unexposed := balance.unexposed tree mem_cons_self
    obtain ⟨wider, placed, exposure⟩ :=
      (balance.forget.grasp (.made tree) (weight_of_exposure unexposed)).place fair
    exact ⟨wider, pool, placed.drop.share (le_antisymm (exposure.trans_eq unexposed) zero_le)⟩

end Custody

end Scale

end CilLift
