import CilLift.Proofs.Numbering

/-!
Invariants that ask something of every tree at hand: of the values on the stacks, of what the locals
hold, and of the tests of the forks. Where the order of the variables survives each change of the
emission and of a local, such an invariant survives every instruction.
-/

namespace CilLift

open List Work Workspace Regime

variable {expr : Expr}

/-- The node of the variable that a local is bound to. -/
def LocalSlot.node? (slot : LocalSlot) : Option Expr :=
  match slot.content with
  | .bound _ node _ => some node
  | _ => none

theorem Workspace.isSome_id?_place (expr : Expr) (emission : Emission) :
    (emission.place expr).1.id?.isSome = true := by
  obtain ⟨identity, isPlaced, -⟩ := expr.exists_id_place emission.nextNode
  exact Option.isSome_iff_exists.2 ⟨identity, isPlaced⟩

/-- What is asked of the variables, of the trees at hand and of the locals, and how one workspace goes
on from another. The roots are trees that are at hand all the time. -/
structure Inventory where
  Order : Workspace → Prop
  Sound : Workspace → Expr → Prop
  Produced : Workspace → Expr → Prop
  Content : Workspace → SlotContent → Prop
  Extends : Workspace → Workspace → Prop
  roots : List Expr

namespace Inventory

/-- The tree may stand on a stack. -/
def Item (inventory : Inventory) (space : Workspace) (expr : Expr) : Prop :=
  inventory.Sound space expr ∧ (expr.branch? = none → inventory.Produced space expr)

/-- A local is bound to no variable, and what it holds may be used. -/
def Free (inventory : Inventory) (space : Workspace) (content : SlotContent) : Prop :=
  content = .unassigned ∨ ∃ value, content = .direct value ∧ inventory.Sound space value

/-- The variables are in order, and everything at hand may be used. -/
structure Stocked (inventory : Inventory) (space : Workspace) : Prop where
  order : inventory.Order space
  root : ∀ expr ∈ inventory.roots, inventory.Sound space expr
  item : ∀ stack ∈ space.paths, ∀ item ∈ stack.items, inventory.Item space item
  slot : ∀ slot ∈ space.slots, inventory.Content space slot.content
  test : ∀ fork ∈ space.forks, inventory.Sound space fork.test

/-- The order of the variables lasts. -/
def Advances (inventory : Inventory) (old new : Workspace) : Prop :=
  inventory.Extends old new ∧ inventory.Order new

/-- Everything at hand may be used as before. -/
def Renews (inventory : Inventory) (old new : Workspace) : Prop :=
  inventory.Extends old new ∧ inventory.Stocked new

/-- What is asked of every tree at hand as an invariant. -/
def regime (inventory : Inventory) : Regime where
  Holds := inventory.Stocked
  Sound := inventory.Sound
  Produced := inventory.Produced
  Valid _ _ := True
  Tolerates _ := True

/-- Trees may be used as long as the order lasts, and it lasts over the changes of the emission and of
the locals. -/
structure Laws (inventory : Inventory) : Prop where
  refl : ∀ space, inventory.Extends space space
  trans : ∀ {first second third}, inventory.Extends first second →
    inventory.Extends second third → inventory.Extends first third
  sound : ∀ {old new expr}, inventory.Extends old new → inventory.Sound old expr →
    inventory.Sound new expr
  produced : ∀ {old new expr}, inventory.Extends old new → inventory.Produced old expr →
    inventory.Produced new expr
  content : ∀ {old new content}, inventory.Extends old new → inventory.Content old content →
    inventory.Content new content
  closed : ∀ space, Expr.Closed (inventory.Sound space)
  sound_of_produced : ∀ {space expr}, inventory.Produced space expr → inventory.Sound space expr
  sound_store : ∀ {space target value}, target.isVar = false →
    inventory.Sound space target → inventory.Sound space value →
    inventory.Sound space (.mkAssign target value)
  sound_branch : ∀ space branch, inventory.Sound space (.mkBranch branch)
  unassigned : ∀ space, inventory.Content space .unassigned
  direct : ∀ {space value}, inventory.Content space (.direct value) ↔ inventory.Sound space value
  grow : ∀ {space nextNode}, inventory.Order space → space.emission.nextNode ≤ nextNode →
    inventory.Advances space { space with emission := { space.emission with nextNode } }
  sound_place : ∀ {space expr}, inventory.Order space → inventory.Sound space expr →
    inventory.Sound (space.placing expr) (space.emission.place expr).1
  produced_place : ∀ {space expr}, inventory.Order space → inventory.Produced space expr →
    inventory.Produced (space.placing expr) (space.emission.place expr).1
  record : ∀ {space expr}, inventory.Order space → inventory.Sound space expr →
    expr.id?.isSome = true →
    inventory.Advances space { space with emission := space.emission.track expr } ∧
      inventory.Produced { space with emission := space.emission.track expr } expr
  speak : ∀ {space statement}, inventory.Order space → inventory.Produced space statement →
    inventory.Advances space { space with emission := space.emission.addStatement statement }
  materialize : ∀ {space value}, inventory.Order space → inventory.Produced space value →
    let (bound, emission) :=
      space.emission.freshName.2.materialize value space.emission.freshName.1
    inventory.Advances space { space with emission } ∧ inventory.Produced { space with emission } bound
  relocate : ∀ {space} paths forks, inventory.Order space →
    (∀ slot ∈ paths.flatMap EvalStack.locals, slot ∈ space.slots ∨ slot.node? = none) →
    inventory.Advances space { space with paths, forks }
  declare : ∀ {space slot value node assignment}, inventory.Order space →
    slot ∈ space.slots → slot.content = .bound value node assignment →
    inventory.Content space slot.content →
    inventory.Advances space { space with emission := space.emission.declare node assignment } ∧
      inventory.Sound { space with emission := space.emission.declare node assignment } node
  bind : ∀ {space value} id index (slot : LocalSlot), inventory.Order space →
    inventory.Sound space value → value.id?.isSome = true → Expr.Fits slot.type value →
    let (node, created) := space.emission.newVariable slot.name slot.type
    let (assignment, placed) := created.place (.mkAssign node value)
    let next : Workspace :=
      { space.setSlot id index { slot with content := .bound value node assignment } with
        emission := placed.track assignment }
    inventory.Advances space next ∧ inventory.Content next (.bound value node assignment)

variable {α : Type} {inventory : Inventory} {old new space : Workspace}

theorem keeps {step : Work α} {post : α → Workspace → Prop} (laws : inventory.Laws)
    (ensured : Ensures (fun _ => True) step old fun result next =>
      inventory.Renews old next ∧ post result next) : inventory.regime.Keeps step old post :=
  Ensures.mono ensured fun _ _ ⟨⟨extension, stocked⟩, done⟩ =>
    ⟨stocked, ⟨fun _ => laws.sound extension, fun _ => laws.produced extension, fun _ _ => trivial⟩, done⟩

namespace Stocked

variable (stocked : inventory.Stocked old) (laws : inventory.Laws) (id : StackId)

include stocked laws

theorem refl : inventory.Renews old old := ⟨laws.refl old, stocked⟩

/-- What was at hand stays usable. -/
theorem extend (advances : inventory.Advances old new)
    (items : ∀ stack ∈ new.paths, ∀ item ∈ stack.items,
      (∃ before ∈ old.paths, item ∈ before.items) ∨ inventory.Item new item)
    (slots : ∀ slot ∈ new.slots, slot ∈ old.slots ∨ inventory.Content new slot.content)
    (tests : ∀ fork ∈ new.forks, fork ∈ old.forks ∨ inventory.Sound new fork.test) :
    inventory.Renews old new where
  left := advances.1
  right := {
    order := advances.2
    root := fun expr mem => laws.sound advances.1 (stocked.root expr mem)
    item := fun stack isPath item mem => by
      rcases items stack isPath item mem with ⟨before, wasPath, wasItem⟩ | isItem
      · obtain ⟨isSound, isProduced⟩ := stocked.item before wasPath item wasItem
        exact ⟨laws.sound advances.1 isSound, fun isValue => laws.produced advances.1 (isProduced isValue)⟩
      · exact isItem
    slot := fun slot mem => (slots slot mem).elim
      (fun before => laws.content advances.1 (stocked.slot slot before)) id
    test := fun fork mem => (tests fork mem).elim
      (fun before => laws.sound advances.1 (stocked.test fork before)) id }

theorem emit {emission : Emission} (advances : inventory.Advances old { old with emission }) :
    inventory.Renews old { old with emission } :=
  stocked.extend laws advances (fun stack isPath _ mem => .inl ⟨stack, isPath, mem⟩)
    (fun _ => .inl) fun _ => .inl

theorem grow {nextNode : Nat} (grown : old.emission.nextNode ≤ nextNode) :
    inventory.Renews old { old with emission := { old.emission with nextNode } } :=
  stocked.emit laws (laws.grow stocked.order grown)

/-- Paths and forks change, but nothing new is bound to a local. -/
theorem rearrange (paths : List EvalStack) (forks : List Fork)
    (items : ∀ stack ∈ paths, ∀ item ∈ stack.items,
      (∃ before ∈ old.paths, item ∈ before.items) ∨ inventory.Item old item)
    (locals : ∀ stack ∈ paths, ∀ slot ∈ stack.locals, slot ∈ old.slots ∨ inventory.Free old slot.content)
    (tests : ∀ fork ∈ forks, fork ∈ old.forks ∨ inventory.Sound old fork.test) :
    inventory.Renews old { old with paths, forks } := by
  have located : ∀ slot ∈ paths.flatMap EvalStack.locals,
      slot ∈ old.slots ∨ inventory.Free old slot.content := by
    intro slot mem
    obtain ⟨stack, isPath, inStack⟩ := mem_flatMap.1 mem
    exact locals stack isPath slot inStack
  have advances := laws.relocate paths forks stocked.order fun slot mem =>
    (located slot mem).imp_right fun isFree => by
      rcases isFree with isNone | ⟨value, isDirect, -⟩
      · rw [LocalSlot.node?, isNone]
      · rw [LocalSlot.node?, isDirect]
  refine stocked.extend laws advances (fun stack isPath item mem => ?_) (fun slot mem => ?_)
    fun fork mem => (tests fork mem).imp_right (laws.sound advances.1)
  · exact (items stack isPath item mem).imp_right fun ⟨isSound, isProduced⟩ =>
      ⟨laws.sound advances.1 isSound, fun isValue => laws.produced advances.1 (isProduced isValue)⟩
  · refine (located slot mem).imp_right fun isFree => ?_
    rcases isFree with isNone | ⟨value, isDirect, isSound⟩
    · rw [isNone]
      exact laws.unassigned _
    · rw [isDirect]
      exact laws.direct.2 (laws.sound advances.1 isSound)

/-- A step on one path. -/
theorem modifyStack (change : EvalStack → EvalStack)
    (items : ∀ stack, ∀ item ∈ (change stack).items, item ∈ stack.items ∨ inventory.Item old item)
    (locals : ∀ stack, ∀ slot ∈ (change stack).locals,
      slot ∈ stack.locals ∨ slot ∈ old.slots ∨ inventory.Free old slot.content) :
    inventory.Renews old (old.modifyStack id change) := by
  refine stocked.rearrange laws (old.paths.modify id change) old.forks ?_ ?_ fun _ => .inl
  · intro stack isPath item mem
    rcases mem_modify isPath with before | ⟨original, before, rfl⟩
    · exact .inl ⟨stack, before, mem⟩
    · exact (items original item mem).imp_left fun wasItem => ⟨original, before, wasItem⟩
  · intro stack isPath slot mem
    rcases mem_modify isPath with before | ⟨original, before, rfl⟩
    · exact .inl (mem_slots_of_mem before mem)
    · rcases locals original slot mem with wasLocal | other
      · exact .inl (mem_slots_of_mem before wasLocal)
      · exact other

theorem setItems {items : List Expr} (areItems : ∀ item ∈ items, inventory.Item old item) :
    inventory.Renews old (old.modifyStack id fun stack => { stack with items }) :=
  stocked.modifyStack laws id _ (fun _ item mem => .inr (areItems item mem)) fun _ _ mem => .inl mem

theorem setSlot (index : Nat) (slot : LocalSlot)
    (isFree : slot ∈ old.slots ∨ inventory.Free old slot.content) :
    inventory.Renews old (old.setSlot id index slot) := by
  apply stocked.modifyStack laws id
    (fun stack => { stack with locals := stack.locals.set index slot }) (fun _ _ => .inl)
  intro stack found mem
  rcases mem_or_eq_of_mem_set mem with before | rfl
  · exact .inl before
  · exact .inr isFree

omit laws in
theorem onStack : ∀ item ∈ (old.stack id).items, inventory.Item old item :=
  forall_items stocked.item id

theorem place (isSound : inventory.Sound old expr) :
    inventory.regime.Keeps (place expr) old fun placed next =>
      inventory.Sound next placed ∧ placed.id?.isSome = true :=
  keeps laws ⟨stocked.grow laws (expr.place_le _), laws.sound_place stocked.order isSound,
    isSome_id?_place expr old.emission⟩

theorem pushUntracked (isItem : inventory.Item old expr) :
    inventory.regime.Keeps (pushUntracked id expr) old fun _ _ => True := by
  have placed : inventory.regime.Keeps (Work.place expr) old fun placed next =>
      inventory.Item next placed := by
    refine keeps laws ⟨stocked.grow laws (expr.place_le _),
      laws.sound_place stocked.order isItem.1, fun isValue => ?_⟩
    exact laws.produced_place stocked.order (isItem.2 ((expr.branch?_place _).symm.trans isValue))
  refine placed.andThen fun placed next stocked _ isPlaced => keeps laws ⟨?_, trivial⟩
  apply stocked.modifyStack laws id fun stack => { stack with items := placed :: stack.items }
  · intro stack item mem
    rcases mem_cons.1 mem with rfl | before
    · exact .inr isPlaced
    · exact .inl before
  · exact fun _ _ => .inl

theorem push (isSound : inventory.Sound old expr) :
    inventory.regime.Keeps (push id expr) old fun _ _ => True := by
  refine (stocked.place laws isSound).andThen fun placed next stocked _ ⟨isSound, isPlaced⟩ => ?_
  have recorded : inventory.regime.Keeps (track placed) next fun _ final =>
      inventory.Produced final placed :=
    have ⟨advances, isProduced⟩ := laws.record stocked.order isSound isPlaced
    keeps laws ⟨stocked.emit laws advances, isProduced⟩
  exact recorded.andThen fun _ final stocked _ isProduced =>
    stocked.pushUntracked laws id ⟨laws.sound_of_produced isProduced, fun _ => isProduced⟩

theorem statement {effect : Expr} (isSound : inventory.Sound old effect) :
    inventory.regime.Keeps (do
      let effect ← Work.place effect
      Work.emit fun emission => ((), (emission.track effect).addStatement effect)) old
      fun _ _ => True := by
  refine (stocked.place laws isSound).andThen fun placed next stocked _ ⟨isSound, isPlaced⟩ => ?_
  obtain ⟨advances, isProduced⟩ := laws.record stocked.order isSound isPlaced
  obtain ⟨extension, recorded⟩ := stocked.emit laws advances
  obtain ⟨extension', spoken⟩ := recorded.emit laws (laws.speak recorded.order isProduced)
  exact keeps laws ⟨⟨laws.trans extension extension', spoken⟩, trivial⟩

theorem pop :
    inventory.regime.Keeps (pop? id) old fun found next =>
      ∀ value, found = some value → inventory.Item next value := by
  have stacked := stocked.onStack id
  refine keeps laws ((ensures_modifyGet _).2 ?_)
  split
  · exact ⟨stocked.refl laws, by simp⟩
  · rename_i top rest found
    rw [found] at stacked
    obtain ⟨extension, popped⟩ := stocked.setItems laws id fun item mem =>
      stacked item (mem_cons_of_mem top mem)
    refine ⟨⟨extension, popped⟩, ?_⟩
    rintro _ ⟨⟩
    obtain ⟨isSound, isProduced⟩ := stacked top mem_cons_self
    exact ⟨laws.sound extension isSound, fun isValue => laws.produced extension (isProduced isValue)⟩

theorem readLocal (index : Nat) :
    inventory.regime.Keeps (readLocal id index) old fun found next =>
      ∀ value, found = some value → inventory.Sound next value := by
  refine keeps_slotOf (keeps laws ?_)
  have located := old.slot_mem_or_default id index
  generalize old.slot id index = slot at located
  unfold LocalSlot.read
  cases isContent : slot.content with
  | unassigned => exact ⟨stocked.refl laws, by simp⟩
  | direct value =>
    have content := stocked.slot slot (located.resolve_right (by simp [isContent]))
    rw [isContent] at content
    refine ⟨stocked.refl laws, ?_⟩
    rintro _ ⟨⟩
    exact laws.direct.1 content
  | bound value node assignment =>
    have mem := located.resolve_right (by simp [isContent])
    obtain ⟨advances, isSound⟩ := laws.declare stocked.order mem isContent (stocked.slot slot mem)
    refine ⟨stocked.emit laws advances, ?_⟩
    rintro _ ⟨⟩
    exact isSound

/-- A value that is a constant or a parameter is held as it is, others are bound to a variable. -/
theorem assignLocal {value : Expr} (index : Nat) (isSound : inventory.Sound old value) :
    inventory.regime.Keeps (assignLocal id index value) old fun _ _ => True := by
  refine keeps_slotOf (keeps laws ?_)
  generalize old.slot id index = slot
  refine ensures_bind.2 (ensures_get.2 (ensures_bind.2 ((ensures_lift _).2 ?_)))
  have coerces := (laws.closed old).yieldsOfOne (Expr.coerce_forms value slot.type) isSound
  refine (coerces.withOutcome.mono (fun _ found => found) fun _ _ => trivial).andThen
    fun coerced ⟨converted, isSound⟩ => ?_
  have fits : Expr.Fits slot.type (old.emission.place coerced).1 := by
    unfold Expr.Fits
    rw [Emission.place, Expr.type_place]
    exact (Expr.coerce_coerces converted).fits
  obtain ⟨extension, placed⟩ := stocked.grow laws (coerced.place_le old.emission.nextNode)
  have isPlaced := laws.sound_place stocked.order isSound
  unfold LocalSlot.store
  dsimp only
  split
  · obtain ⟨extension', stored⟩ := placed.setSlot laws id index
      { slot with content := .direct (old.emission.place coerced).1 } (.inr (.inr ⟨_, rfl, isPlaced⟩))
    exact ⟨⟨laws.trans extension extension', stored⟩, trivial⟩
  · obtain ⟨advances, content⟩ := laws.bind id index slot placed.order isPlaced
      (isSome_id?_place coerced old.emission) fits
    have renewed := placed.extend laws advances ?_ ?_ fun _ => .inl
    · exact ⟨⟨laws.trans extension renewed.1, renewed.2⟩, trivial⟩
    · intro stack isPath item mem
      rcases mem_modify isPath with before | ⟨original, before, rfl⟩
      · exact .inl ⟨stack, before, mem⟩
      · exact .inl ⟨original, before, mem⟩
    · intro found mem
      rcases mem_slots_setSlot mem with before | rfl
      · exact .inl before
      · exact .inr content

theorem newFork {test : Expr} (parent : StackId) (isSound : inventory.Sound old test) :
    inventory.regime.Keeps (newFork parent test) old fun _ _ => True := by
  refine (stocked.place laws isSound).andThen fun placed next stocked _ ⟨isSound, _⟩ => ?_
  refine keeps laws ((ensures_modifyGet _).2 ⟨?_, trivial⟩)
  refine stocked.rearrange laws
    (next.paths ++ [{ parent := some next.forks.length, locals := (next.stack parent).locals },
      { parent := some next.forks.length, locals := (next.stack parent).locals }])
    (next.forks ++ [⟨placed, next.paths.length, next.paths.length + 1, parent⟩]) ?_ ?_ ?_
  all_goals simp only [mem_append, mem_cons, not_mem_nil, or_false]
  · rintro stack (isPath | rfl | rfl) item mem
    · exact .inl ⟨stack, isPath, mem⟩
    · cases mem
    · cases mem
  · rintro stack (isPath | rfl | rfl) slot mem
    · exact .inl (mem_slots_of_mem isPath mem)
    · exact .inl (mem_slots_of_stack mem)
    · exact .inl (mem_slots_of_stack mem)
  · rintro fork (isFork | rfl)
    · exact .inl isFork
    · exact .inr isSound

/-- A fork that takes the place of another keeps the inventory. -/
theorem refork {test : Expr} (parent onTrue onFalse : StackId)
    (isSound : inventory.Sound old test) :
    inventory.regime.Keeps (refork parent test onTrue onFalse) old fun _ _ => True := by
  refine (stocked.place laws isSound).andThen fun placed next stocked _ ⟨isSound, _⟩ => ?_
  refine keeps laws ((ensures_modifyGet _).2 ⟨?_, trivial⟩)
  obtain ⟨extension, forked⟩ := stocked.rearrange laws next.paths
    (next.forks ++ [⟨placed, onTrue, onFalse, parent⟩])
    (fun stack isPath item mem => .inl ⟨stack, isPath, mem⟩)
    (fun stack isPath slot mem => .inl (mem_slots_of_mem isPath mem)) (by
      simp only [mem_append, mem_singleton]
      rintro fork (isFork | rfl)
      · exact .inl isFork
      · exact .inr isSound)
  have attached {space : Workspace} (stocked : inventory.Stocked space) (id : StackId) :
      inventory.Renews space (space.modifyStack id fun stack =>
        { stack with parent := some next.forks.length }) :=
    stocked.modifyStack laws id _ (fun _ _ => .inl) fun _ _ => .inl
  obtain ⟨extension', once⟩ := attached forked onTrue
  obtain ⟨extension'', twice⟩ := attached once onFalse
  exact ⟨laws.trans extension (laws.trans extension' extension''), twice⟩

end Stocked

namespace Laws

variable (laws : inventory.Laws)

include laws

/-- The laws of an inventory make it a lawful regime. -/
theorem lawful : inventory.regime.Lawful where
  closed := laws.closed
  answer _ _ := trivial
  sound_of_produced _ _ := laws.sound_of_produced
  sound_store _ _ _ := laws.sound_store
  sound_branch := laws.sound_branch
  test _ branch stocked :=
    forall_tests stocked.test ((laws.closed _).mkConstant _ _) branch
  item _ id item stocked mem := stocked.onStack id item mem
  above _ _ _ _ _ := ⟨trivial, trivial, trivial⟩
  place _ _ stocked isSound := (stocked.place laws isSound).mono fun _ _ => And.left
  push _ id _ stocked _ isSound := stocked.push laws id isSound
  placeholder _ id branch stocked _ :=
    stocked.pushUntracked laws id ⟨laws.sound_branch _ branch, fun isValue => by cases isValue⟩
  pop _ id stocked _ := stocked.pop laws id
  setItems _ id _ stocked _ areItems := keeps laws ⟨stocked.setItems laws id areItems, trivial⟩
  markReduced _ id stocked := keeps laws
    ⟨stocked.modifyStack laws id (fun stack => { stack with isReduced := true }) (fun _ _ => .inl)
      fun _ _ => .inl, trivial⟩
  readLocal _ id index stocked _ := stocked.readLocal laws id index
  assignLocal _ id index _ stocked _ isSound := stocked.assignLocal laws id index isSound
  clearLocal _ id index stocked _ := keeps_slotOf
    (keeps laws ⟨stocked.setSlot laws id index _ (.inr (.inl rfl)), trivial⟩)
  copyLocal space source target index stocked _ _ := keeps laws ⟨stocked.setSlot laws target index _
      ((space.slot_mem_or_default source index).imp_right .inl), trivial⟩
  addStatement _ _ stocked isProduced := keeps laws
    ⟨stocked.emit laws (laws.speak stocked.order isProduced), trivial⟩
  statement _ _ stocked isSound := stocked.statement laws isSound
  materialize _ _ stocked isProduced :=
    have ⟨advances, isBound⟩ := laws.materialize stocked.order isProduced
    keeps laws ⟨stocked.emit laws advances, isBound⟩

theorem joins : inventory.regime.Joins where
  toLawful := laws.lawful
  reforks _ parent _ onTrue onFalse stocked _ _ _ isSound :=
    stocked.refork laws parent onTrue onFalse isSound
  climbs _ _ _ _ := trivial

/-- Every instruction keeps the trees at hand usable, if those are that a task is given. -/
theorem serves {task : Task} (numbers : task.Numbers)
    (given : ∀ space, inventory.Stocked space → ∀ node,
      node ∈ task.parameters ++ task.target.toList ∨ some node ∈ task.arguments →
      inventory.Sound space node)
    (lambda : task.options.inlineDelegates = true → ∀ space (tree : MethodTree) type,
      inventory.Sound space (tree.toLambda type)) :
    inventory.regime.Serves task where
  lawful := laws.lawful
  forks _ parent _ stocked _ isSound :=
    (stocked.newFork laws parent isSound).mono fun _ _ _ => ⟨trivial, trivial⟩
  parameter _ node stocked mem := given _ stocked node (.inl (by simp [mem]))
  target _ node stocked isTarget := given _ stocked node (.inl (by simp [isTarget]))
  known _ node stocked mem := given _ stocked node (.inr mem)
  methodBody _ method := by
    cases task.resolver.methodBody method <;> trivial
  capturedDelegate _ expr := by
    cases task.resolver.capturedDelegate expr <;> trivial
  receiver _ _ expr stocked := keeps laws ⟨stocked.grow laws (expr.place_le _), trivial⟩
  nested inlines space method body target type stocked :=
    (numbers space.emission.nextNode method body target).mono
      (fun _ grown => keeps laws ⟨stocked.grow laws grown, lambda inlines _ _ _⟩) fun _ => id

end Laws

end Inventory

end CilLift
