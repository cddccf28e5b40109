import CilLift.Proofs.Inventory
import CilLift.Proofs.Scoping

/-!
All steps of a lifting keep its variables confined: whatever stands on a stack, in a local or in a test
uses only variables that are declared and those of the trees that were given.
-/

namespace CilLift

open List CilLift.Expr Machine Emission Nat

/-- The trees that a local holds use only what is declared or comes from outside, and the variable
that it may be bound to. -/
def SlotContent.Confined (outer : List Variable) (emission : Emission) : SlotContent → Prop
  | .unassigned => True
  | .direct value => value.Within (emission.Allows outer)
  | .bound _ node assignment => ∃ own, node.variableOf? = some own ∧ emission.Made own ∧
      assignment.Within fun symbol => symbol = own ∨ emission.Allows outer symbol

theorem SlotContent.Confined.widen {outer : List Variable} {before after : Emission}
    {content : SlotContent} (confined : content.Confined outer before)
    (widens : before.Widens after) : content.Confined outer after := by
  cases content with
  | unassigned => trivial
  | direct value => exact confined.mono widens.allows
  | bound value node assignment =>
    obtain ⟨own, isVariable, isMade, isWithin⟩ := confined
    refine ⟨own, isVariable, widens.made own isMade, isWithin.mono fun symbol => ?_⟩
    exact Or.imp_right (widens.allows symbol)

/-- Among some placed nodes an identity stands for one node only. -/
structure Identified (owned : Expr → Prop) (nextNode : Nat) : Prop where
  placed : ∀ node, owned node → ∃ identity, node.id? = some identity ∧ identity < nextNode
  unique : ∀ first second, owned first → owned second → first.id? = second.id? → first = second

namespace Identified

variable {owned fewer more : Expr → Prop} {nextNode later : Nat}

theorem mono (identified : Identified owned nextNode) (included : ∀ node, fewer node → owned node)
    (isLater : nextNode ≤ later) : Identified fewer later where
  placed node isOwned := by
    obtain ⟨identity, isPlaced, below⟩ := identified.placed node (included node isOwned)
    exact ⟨identity, isPlaced, lt_of_lt_of_le below isLater⟩
  unique first second isFirst isSecond :=
    identified.unique first second (included first isFirst) (included second isSecond)

/-- A node with the next identity is none of those before. -/
theorem add {created : Expr} (identified : Identified owned nextNode)
    (isCreated : created.id? = some nextNode)
    (included : ∀ node, more node → owned node ∨ node = created) (isLater : nextNode < later) :
    Identified more later where
  placed node isOwned := by
    rcases included node isOwned with before | rfl
    · obtain ⟨identity, isPlaced, below⟩ := identified.placed node before
      exact ⟨identity, isPlaced, by omega⟩
    · exact ⟨nextNode, isCreated, isLater⟩
  unique first second isFirst isSecond same := by
    have differs : ∀ node, owned node → node.id? ≠ some nextNode := by
      intro node isOwned isNext
      obtain ⟨identity, isPlaced, below⟩ := identified.placed node isOwned
      rw [isPlaced, Option.some.injEq] at isNext
      omega
    rcases included first isFirst with first' | rfl <;> rcases included second isSecond with second' | rfl
    · exact identified.unique first second first' second' same
    · exact absurd (same.trans isCreated) (differs first first')
    · exact absurd (same.symm.trans isCreated) (differs second second')
    · rfl

end Identified

namespace Workspace

/-- The node stands for a variable that has been made here: it is declared, or a local is bound to
it. -/
def Owns (space : Workspace) (node : Expr) : Prop :=
  node ∈ space.emission.declarations ∨ ∃ slot ∈ space.slots, slot.node? = some node

/-- Everything at hand uses only variables that are declared or come from outside. -/
structure Confined (outer : List Variable) (space : Workspace) : Prop where
  emission : space.emission.Confined outer
  item : ∀ stack ∈ space.paths, ∀ item ∈ stack.items, item.Within (space.emission.Allows outer)
  slot : ∀ slot ∈ space.slots, slot.content.Confined outer space.emission
  test : ∀ fork ∈ space.forks, fork.test.Within (space.emission.Allows outer)
  identified : Identified space.Owns space.emission.nextNode

/-- The confinement of variables as an invariant. -/
def confinement (outer : List Variable) : Regime where
  Holds := Confined outer
  Sound space expr := expr.Within (space.emission.Allows outer)
  Produced space expr := expr.Within (space.emission.Allows outer)
  Valid _ _ := True
  Tolerates _ := True

end Workspace

/-- What is asked of the trees at hand where variables are confined. -/
def Inventory.confined (outer : List Variable) : Inventory where
  Order space := space.emission.Confined outer ∧ Identified space.Owns space.emission.nextNode
  Sound space expr := expr.Within (space.emission.Allows outer)
  Produced space expr := expr.Within (space.emission.Allows outer)
  Content space content := content.Confined outer space.emission
  Extends old new := old.emission.Widens new.emission
  roots := []

namespace Workspace

variable {outer : List Variable} {space : Workspace}

theorem confined_iff : Confined outer space ↔ (Inventory.confined outer).Stocked space :=
  ⟨fun confined => ⟨⟨confined.emission, confined.identified⟩, forall_mem_nil _,
      fun stack isPath item mem =>
        ⟨confined.item stack isPath item mem, fun _ => confined.item stack isPath item mem⟩,
      confined.slot, confined.test⟩,
    fun stocked => ⟨stocked.order.1, fun stack isPath item mem =>
      (stocked.item stack isPath item mem).1, stocked.slot, stocked.test, stocked.order.2⟩⟩

theorem confinement_eq : confinement outer = (Inventory.confined outer).regime := by
  unfold confinement Inventory.regime
  congr
  funext space
  exact propext confined_iff

theorem Confined.onStack (confined : Confined outer space) (id : StackId) :
    ∀ item ∈ (space.stack id).items, item.Within (space.emission.Allows outer) :=
  forall_items confined.item id

theorem mem_declared {slot : LocalSlot} {node : Expr} {own : Variable}
    (identified : Identified space.Owns space.emission.nextNode)
    (mem : slot ∈ space.slots) (isNode : slot.node? = some node)
    (isVariable : node.variableOf? = some own)
    (isDeclared : space.emission.isDeclared node = true) : own ∈ space.emission.declared := by
  obtain ⟨found, isFound, same⟩ := any_eq_true.1 isDeclared
  simp only [isSame, Bool.and_eq_true, beq_iff_eq] at same
  have isNodeFound := identified.unique node found (.inr ⟨slot, mem, isNode⟩) (.inl isFound) same.2
  exact mem_filterMap.2 ⟨found, isFound, isNodeFound ▸ isVariable⟩

theorem Owns.of_declare {slot : LocalSlot} {node assignment other : Expr}
    (mem : slot ∈ space.slots) (isNode : slot.node? = some node)
    (owns : Owns { space with emission := space.emission.declare node assignment } other) :
    space.Owns other := by
  rcases owns with isDeclared | isSlot
  · unfold declare at isDeclared
    split at isDeclared
    · exact .inl isDeclared
    · rcases mem_append.1 isDeclared with before | isLast
      · exact .inl before
      · rw [mem_singleton.1 isLast]
        exact .inr ⟨slot, mem, isNode⟩
  · exact .inr isSlot

/-- A value that is neither a constant nor a parameter is bound to a new variable. -/
theorem advances_bind {value : Expr} (id : StackId) (index : Nat) (slot : LocalSlot)
    (confined : space.emission.Confined outer)
    (identified : Identified space.Owns space.emission.nextNode)
    (isWithin : value.Within (space.emission.Allows outer)) :
    let (node, created) := space.emission.newVariable slot.name slot.type
    let (assignment, placed) := created.place (.mkAssign node value)
    let next : Workspace :=
      { space.setSlot id index { slot with content := .bound value node assignment } with
        emission := placed.track assignment }
    (Inventory.confined outer).Advances space next ∧
      (SlotContent.bound value node assignment).Confined outer next.emission := by
  obtain ⟨isConfined, widens, sameDeclarations, isNext, isLater, own, isVariable, isMade⟩ :=
    confined.newVariable slot.name slot.type
  generalize space.emission.newVariable slot.name slot.type = result at *
  obtain ⟨node, created⟩ := result
  have placed : created.Widens (created.place (.mkAssign node value)).2 :=
    widens_place (.mkAssign node value)
  have wider : space.emission.Widens ((created.place (.mkAssign node value)).2.track
      (created.place (.mkAssign node value)).1) :=
    (widens.trans placed).trans (.of_same rfl rfl (le_refl _))
  have assigns : (mkAssign node value).Within fun symbol => symbol = own ∨
      ((created.place (.mkAssign node value)).2.track
        (created.place (.mkAssign node value)).1).Allows outer symbol :=
    within_assign isVariable (.inl rfl) (isWithin.mono fun symbol isAllowed =>
      .inr (wider.allows symbol isAllowed))
  refine ⟨⟨wider, (isConfined.grow _).relist _, identified.add isNext ?_
    (lt_of_lt_of_le isLater placed.nextNode)⟩, own, isVariable, isMade,
    assigns.place created.nextNode⟩
  rintro other (isDeclared | ⟨found, mem, isNode⟩)
  · exact .inl (.inl (sameDeclarations ▸ isDeclared))
  · rcases mem_slots_setSlot mem with before | rfl
    · exact .inl (.inr ⟨found, before, isNode⟩)
    · exact .inr (Option.some.inj isNode).symm

end Workspace

/-- All steps leave the variables confined. -/
theorem Inventory.confined_laws {outer : List Variable} : (confined outer).Laws where
  refl _ := .refl _
  trans := .trans
  sound widens isWithin := isWithin.mono widens.allows
  produced widens isWithin := isWithin.mono widens.allows
  content widens confined := confined.widen widens
  closed _ := closed_within _
  sound_of_produced := id
  sound_store := within_store
  sound_branch _ _ := within_of_untouched rfl rfl
  unassigned _ := trivial
  direct := Iff.rfl
  grow order grown := ⟨widens_grow grown, order.1.grow _, order.2.mono (fun _ => id) grown⟩
  sound_place _ isWithin := isWithin.place _
  produced_place _ isWithin := isWithin.place _
  record order isWithin _ := ⟨⟨.of_same rfl rfl (le_refl _), order.1.relist _, order.2⟩, isWithin⟩
  speak order isWithin := ⟨.of_same rfl rfl (le_refl _), order.1.addStatement isWithin, order.2⟩
  materialize {space value} order isWithin := by
    obtain ⟨isConfined, widens, isBound, declarations, isNext, isLater⟩ :=
      order.1.freshName.materialize space.emission.freshName.1 isWithin
    have named : space.emission.Widens space.emission.freshName.2 := .of_same rfl rfl (le_refl _)
    refine ⟨⟨named.trans widens, isConfined, order.2.add isNext ?_ isLater⟩, isBound⟩
    rintro node (isDeclared | isSlot)
    · have isListed : node ∈ space.emission.declarations ++
          [(space.emission.freshName.2.materialize value space.emission.freshName.1).1] :=
        declarations ▸ isDeclared
      exact (mem_append.1 isListed).imp .inl mem_singleton.1
    · exact .inl (.inr isSlot)
  relocate paths forks order located := by
    refine ⟨.refl _, order.1, order.2.mono ?_ (le_refl _)⟩
    rintro node (isDeclared | ⟨slot, mem, isNode⟩)
    · exact .inl isDeclared
    · rcases located slot mem with before | isFree
      · exact .inr ⟨slot, before, isNode⟩
      · rw [isFree] at isNode
        cases isNode
  declare {space slot value node assignment} order mem isContent content := by
    have isNode : slot.node? = some node := by simp [LocalSlot.node?, isContent]
    rw [isContent] at content
    obtain ⟨own, isVariable, isMade, isWithin⟩ := content
    obtain ⟨declared, widens, isOwn⟩ := order.1.declare isVariable isMade isWithin
      (Workspace.mem_declared order.2 mem isNode isVariable)
    exact ⟨⟨widens, declared, order.2.mono (fun _ => .of_declare mem isNode) widens.nextNode⟩,
      within_of_variableOf? isVariable (.inl isOwn)⟩
  bind id index slot order isWithin _ _ :=
    Workspace.advances_bind id index slot order.1 order.2 isWithin

namespace Workspace

variable {outer : List Variable}

theorem confinement_joins : (confinement outer).Joins :=
  confinement_eq ▸ Inventory.confined_laws.joins

theorem confinement_serves {task : Task} (numbers : task.Numbers)
    (given : ∀ node, node ∈ task.parameters ++ task.target.toList ∨ some node ∈ task.arguments →
      node.occurring ⊆ outer) : (confinement outer).Serves task :=
  confinement_eq ▸ Inventory.confined_laws.serves numbers
    (fun _ _ node isGiven _ isUsed => .inr (given node isGiven (occurring_of_used isUsed)))
    fun _ _ _ _ => within_of_untouched rfl rfl

/-- A method begins without variables. -/
theorem confined_opening {task : Task} {types : List TypeSig} {nextNode : Nat} :
    Confined outer (opening task types nextNode).workspace where
  emission := ⟨rfl, nodup_nil, forall_mem_nil _, forall_mem_nil _⟩
  item stack isStack item mem := by
    obtain rfl := mem_singleton.1 isStack
    cases mem
  slot slot mem := by
    rw [opening_unassigned slot mem]
    trivial
  test _ mem := by cases mem
  identified := by
    have noneOwned : ∀ node, ¬(opening task types nextNode).workspace.Owns node := by
      rintro node (isDeclared | ⟨slot, mem, isNode⟩)
      · cases isDeclared
      · rw [LocalSlot.node?, opening_unassigned slot mem] at isNode
        cases isNode
    exact ⟨fun node isOwned => absurd isOwned (noneOwned node),
      fun first _ isOwned => absurd isOwned (noneOwned first)⟩

end Workspace

end CilLift
