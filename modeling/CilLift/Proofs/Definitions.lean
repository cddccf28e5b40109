import CilLift.Proofs.Assignments
import CilLift.Proofs.Inventory

/-!
All steps of a lifting keep its variables in order: whatever stands on a stack, in a local or in a test
reads declared variables only and is recorded after their assignments.
-/

namespace CilLift

open List CilLift.Expr Workspace Option Emission

variable {value : Expr}

/-- The trees that a local holds may be used. -/
def SlotContent.Sound (space : Workspace) : SlotContent → Prop
  | .unassigned => True
  | .direct value => space.Sound value
  | .bound _ node assignment => assignment.target? = some node

namespace Workspace

/-- The tree may stand on a stack. -/
def Item (space : Workspace) (expr : Expr) : Prop :=
  space.Sound expr ∧ (expr.branch? = none → space.Produced expr)

/-- The variables are in order, and everything at hand may be used. -/
structure Tidy (roots : List Expr) (space : Workspace) : Prop where
  orderly : space.Orderly
  root : ∀ expr ∈ roots, space.Sound expr
  item : ∀ stack ∈ space.paths, ∀ item ∈ stack.items, space.Item item
  slot : ∀ slot ∈ space.slots, slot.content.Sound space
  test : ∀ fork ∈ space.forks, space.Sound fork.test

variable {roots : List Expr} {space old new : Workspace}

theorem Extends.content {content : SlotContent} (extension : Extends old new)
    (sound : content.Sound old) : content.Sound new := by
  cases content with
  | unassigned => trivial
  | direct value => exact extension.sound sound
  | bound value node assignment => exact sound

/-- The order of the variables as an invariant. -/
def tidiness (roots : List Expr) : Regime where
  Holds := Tidy roots
  Sound := Sound
  Produced := Produced
  Valid _ _ := True
  Tolerates _ := True

theorem closed_sound (space : Workspace) : Closed space.Sound where
  build expr unplaced isPlain below := by
    refine every_iff.2 ⟨?_, fun operand isOperand =>
      below operand (mem_children_of_mem_operands isOperand)⟩
    have isOther : expr.isVar = false ∧ expr.target? = none ∧ expr.branch? = none := by
      cases expr <;> simp_all [Expr.isPlain, isVar, target?, branch?]
    exact {
      declared := by simp [isOther]
      assigns := isOther.2.1
      isSilent := by simp [isOther]
      below := by simp [unplaced]
      unassigned := by simp [unplaced]
      after := by simp [unplaced] }
  part expr isPlain sound operand isChild :=
    (every_iff.1 sound).2 operand (operands_of_isPlain isPlain ▸ isChild)

/-- A placed tree is recorded. -/
theorem Orderly.track {expr : Expr} (orderly : space.Orderly) (sound : space.Sound expr)
    (isPlaced : expr.id?.isSome = true) :
    Extends space { space with emission := space.emission.track expr } ∧
      Orderly { space with emission := space.emission.track expr } ∧
      Produced { space with emission := space.emission.track expr } expr := by
  obtain ⟨identity, isPlaced⟩ := isSome_iff_exists.1 isPlaced
  have known := Every.root sound
  obtain ⟨extension, orderly⟩ := orderly.record (known.below identity isPlaced)
    (known.unassigned identity isPlaced)
  have recorded : space.emission.track expr =
      { space.emission with ledger := space.emission.ledger ++ [identity] } := by
    simp [Emission.track, isPlaced]
  rw [recorded]
  exact ⟨extension, orderly, extension.sound sound, identity, isPlaced, by simp⟩

/-- A value that is neither a constant nor a parameter is bound to a new variable. -/
theorem Orderly.bind (orderly : space.Orderly) (id : StackId) (index : Nat) (slot : LocalSlot)
    (sound : space.Sound value) (isPlaced : value.id?.isSome = true)
    (fits : Fits slot.type value) :
    let (node, created) := space.emission.newVariable slot.name slot.type
    let (assignment, placed) := created.place (.mkAssign node value)
    let next : Workspace :=
      { space.setSlot id index { slot with content := .bound value node assignment } with
        emission := placed.track assignment }
    (Extends space next ∧ next.Orderly) ∧ assignment.target? = some node := by
  obtain ⟨name, names, nextTemporary, isNew⟩ := space.emission.newVariable_eq slot.name slot.type
  rw [isNew]
  dsimp only
  rw [place_mkAssign _ rfl isPlaced]
  dsimp only [Emission.track]
  generalize isNode : var { type := slot.type, id := some space.emission.nextNode }
    space.emission.nextVariable name = node
  have nodeType : node.type = slot.type := by rw [← isNode]; rfl
  rw [nodeType]
  generalize isAssignment : assign
    { type := slot.type, id := some (space.emission.nextNode + 1) } node value = assignment
  have recorded : assignment.id?.toList = [space.emission.nextNode + 1] := by
    rw [← isAssignment]
    rfl
  rw [recorded]
  have gains : Gains space
      { space.setSlot id index { slot with content := .bound value node assignment } with
        emission := { space.emission with
          ledger := space.emission.ledger ++ [space.emission.nextNode + 1]
          names
          nextTemporary
          nextVariable := space.emission.nextVariable + 1
          nextNode := space.emission.nextNode + 1 + 1 } } value node assignment := {
    sound
    shape := ⟨slot.type, name, isNode.symm, isAssignment.symm⟩
    fits := nodeType ▸ fits
    nextNode := rfl
    nextVariable := rfl
    recorded := ⟨space.emission.ledger.length, by simp⟩
    after := fun read isRead earlier mem isTarget identity isEarlier => by
      have lasting := orderly.lasting earlier (.inl ⟨mem, by simp [isTarget]⟩)
      refine (Precedes.of_not_mem (lasting.recorded isEarlier) fun recorded => ?_).append _
      have := orderly.bounded _ recorded
      omega
    assigns := by
      rintro other (statement | ⟨found, mem, isOther⟩)
      · exact .inl (.inl statement)
      · rcases mem_slots_setSlot mem with before | rfl
        · exact .inl (.inr ⟨found, before, isOther⟩)
        · exact .inr (some.inj isOther).symm
    written := .inl ⟨rfl, rfl⟩ }
  exact ⟨⟨gains.extension orderly, gains.orderly orderly⟩, gains.target⟩

/-- A recorded value is bound to a variable right after its last production. -/
theorem Orderly.materialize (orderly : space.Orderly) (produced : space.Produced value) :
    let (bound, emission) :=
      space.emission.freshName.2.materialize value space.emission.freshName.1
    (Extends space { space with emission } ∧ Orderly { space with emission }) ∧
      Produced { space with emission } bound := by
  obtain ⟨sound, identity, isPlaced, recorded⟩ := produced
  obtain ⟨before, _, after, ledger, isLast, noneLater⟩ :=
    exists_last ⟨identity, recorded, beq_self_eq_true identity⟩
  cases beq_iff_eq.1 isLast
  have notLater : identity ∉ after := fun mem => by simpa using noneLater identity mem
  have index := lastIndexOf?_of_split isPlaced ledger notLater
  obtain ⟨given, node, assignment, bound, isNode, isAssignment, boundLedger, boundStatements,
    boundDeclarations, nextVariable, nextNode, materialized⟩ :=
    materialize_eq space.emission.freshName.2
      (isSome_iff_exists.2 ⟨identity, isPlaced⟩) index space.emission.freshName.1
  have gains : Gains space { space with emission := bound } value node assignment := {
    sound
    shape := ⟨value.type, given, isNode, isAssignment⟩
    fits := fits_iff.2 (.inr (.inl (isNode ▸ rfl)))
    nextNode
    nextVariable
    recorded := ⟨before.length + 1, boundLedger⟩
    after := by
      intro read isRead earlier mem isTarget other isOther
      have unassigned := (Every.root sound).unassigned identity isPlaced
      have precedes := (Every.root sound).after identity isPlaced read isRead earlier mem
        isTarget other isOther
      rw [ledger] at precedes
      have isBefore := precedes.mem_before fun same =>
        unassigned earlier (.inl ⟨mem, by simp [isTarget]⟩) (same ▸ isOther)
      have isNew : space.emission.nextNode + 1 ∉ before := fun mem => by
        have := orderly.bounded (space.emission.nextNode + 1) (by simp [ledger, mem])
        omega
      have split : bound.ledger = before ++ (identity :: (space.emission.nextNode + 1) :: after) := by
        rw [boundLedger]
        change space.emission.ledger.take _ ++ _ :: space.emission.ledger.drop _ = _
        rw [ledger, take_length_add_append]
        simp [freshName]
      rw [split]
      exact (Precedes.of_not_mem isBefore isNew).append _
    assigns := by
      rintro other (⟨mem, isTarget⟩ | isSlot)
      · rw [boundStatements] at mem
        rcases mem_append.1 mem with earlier | isLast
        · exact .inl (.inl ⟨earlier, isTarget⟩)
        · exact .inr (mem_singleton.1 isLast)
      · exact .inl (.inr isSlot)
    written := .inr ⟨boundStatements, boundDeclarations⟩ }
  have extension := gains.extension orderly
  have orderly := gains.orderly orderly
  have declared : node ∈ bound.declarations := by simp [boundDeclarations]
  have isAssigned : Assigns { space with emission := bound } assignment :=
    .inl ⟨by simp [boundStatements], by simp [gains.target]⟩
  have isSound := orderly.sound_variable isAssigned gains.target declared
  obtain ⟨extension', orderly, produced⟩ := orderly.track isSound (by
    simp [isNode, id?, header])
  rw [materialized]
  exact ⟨⟨extension.trans extension', orderly⟩, produced⟩

theorem sound_of_unplaced {expr : Expr} (unplaced : expr.id? = none) (isOther : expr.isVar = false)
    (assigns : expr.target? = none) (isSilent : expr.branch?.isSome = true → expr.isVoid = true)
    (below : ∀ operand ∈ expr.operands, space.Sound operand) : space.Sound expr :=
  every_iff.2 ⟨⟨by simp [isOther], assigns, isSilent, by simp [unplaced], by simp [unplaced],
    by simp [unplaced]⟩, below⟩

theorem sound_branch (branch : BranchId) : space.Sound (.mkBranch branch) :=
  sound_of_unplaced rfl rfl rfl (fun _ => rfl) (by simp [mkBranch, operands, children])

theorem sound_store {target : Expr} (isOther : target.isVar = false)
    (targetSound : space.Sound target) (valueSound : space.Sound value) :
    space.Sound (.mkAssign target value) := by
  refine sound_of_unplaced rfl rfl ?_ (by rintro ⟨⟩) ?_
  · simp [mkAssign, target?, asVar?, isOther]
  · simp only [mkAssign, operands, isOther, Bool.false_eq_true, if_false,
      mem_cons, not_mem_nil, or_false, forall_eq_or_imp, forall_eq]
    exact ⟨targetSound, valueSound⟩

end Workspace

/-- What is asked of the trees at hand where variables are in order. -/
def Inventory.tidy (roots : List Expr) : Inventory where
  Order := Workspace.Orderly
  Sound := Workspace.Sound
  Produced := Workspace.Produced
  Content space content := content.Sound space
  Extends := Workspace.Extends
  roots := roots

/-- All steps leave the definitions in order. -/
theorem Inventory.tidy_laws {roots : List Expr} : (tidy roots).Laws where
  refl := .refl
  trans := .trans
  sound extension := extension.sound
  produced extension := extension.produced
  content extension := extension.content
  closed := closed_sound
  sound_of_produced := And.left
  sound_store := sound_store
  sound_branch _ := sound_branch
  unassigned _ := trivial
  direct := Iff.rfl
  grow orderly := orderly.grow
  sound_place orderly := orderly.sound_place
  produced_place {space expr} orderly produced := by
    have ⟨extension, _⟩ := orderly.grow (expr.place_le space.emission.nextNode)
    obtain ⟨identity, isPlaced, -⟩ := produced.2
    have same : (space.emission.place expr).1 = expr := by
      simp [Emission.place, place_of_id isPlaced]
    rw [same]
    exact extension.produced produced
  record orderly sound isPlaced :=
    have ⟨extension, orderly, produced⟩ := orderly.track sound isPlaced
    ⟨⟨extension, orderly⟩, produced⟩
  speak orderly := orderly.speak
  materialize orderly := orderly.materialize
  relocate paths forks orderly located := by
    refine orderly.relocate paths forks fun slot mem assignment isAssignment => ?_
    rcases located slot mem with before | isFree
    · exact .inr ⟨slot, before, isAssignment⟩
    · cases isContent : slot.content <;>
        simp [LocalSlot.node?, LocalSlot.assignment?, isContent] at isFree isAssignment
  declare {space slot value node assignment} orderly mem isContent content := by
    rw [isContent] at content
    obtain ⟨extension, orderly, sound⟩ := orderly.declare mem
      (by simp [LocalSlot.assignment?, isContent]) content
    exact ⟨⟨extension, orderly⟩, sound⟩
  bind id index slot orderly := orderly.bind id index slot

namespace Workspace

variable {roots : List Expr} {space : Workspace}

theorem tidy_iff : Tidy roots space ↔ (Inventory.tidy roots).Stocked space :=
  ⟨fun tidy => ⟨tidy.orderly, tidy.root, tidy.item, tidy.slot, tidy.test⟩,
    fun stocked => ⟨stocked.order, stocked.root, stocked.item, stocked.slot, stocked.test⟩⟩

theorem tidiness_eq : tidiness roots = (Inventory.tidy roots).regime := by
  unfold tidiness Inventory.regime
  congr
  funext space
  exact propext tidy_iff

theorem Tidy.onStack (tidy : Tidy roots space) (id : StackId) :
    ∀ item ∈ (space.stack id).items, space.Item item :=
  forall_items tidy.item id

theorem tidiness_joins : (tidiness roots).Joins := tidiness_eq ▸ Inventory.tidy_laws.joins

theorem tidiness_serves {task : Task} (numbers : task.Numbers) (unbound : task.arguments = []) :
    (tidiness (task.parameters ++ task.target.toList)).Serves task :=
  tidiness_eq ▸ Inventory.tidy_laws.serves numbers
    (fun _ stocked node isGiven => stocked.root node (isGiven.resolve_right (by simp [unbound])))
    fun _ _ _ _ => sound_of_unplaced rfl rfl rfl (by rintro ⟨⟩)
      (by simp [MethodTree.toLambda, mkLambda, operands])

end Workspace

end CilLift
