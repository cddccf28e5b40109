import CilLift.Proofs.Coherence
import CilLift.Proofs.DefinitionOrder
import CilLift.Proofs.Scoping

/-!
A call instruction is evaluated once: its node occurs in the statements at most once, unless a fork
tests it, and once more only for every array with it that is repeated and not stored into again.
-/

namespace CilLift

open Machine List

/-- How often the call or construction with an identity occurs in a tree. -/
def Expr.occurrences (identity : Nat) (expr : Expr) : Nat :=
  expr.nodes.countP fun node => node.isCall && node.id? == some identity

namespace Machine

/-- What an event does to the stack, if it is an instruction without operand. -/
def operation? : Event → Option StackOperation
  | .plain opcode => stackOperation? opcode
  | _ => none

/-- The tree that an event repeats as it is. -/
def repeated? (task : Task) (machine : Machine) (event : Event) : Option Expr :=
  match operation? event, machine.items with
  | some .duplicate, top :: _ => if repeats task top then some top else none
  | _, _ => none

/-- The array of which an event takes two copies, for one with another element. -/
def renewed? (machine : Machine) (event : Event) : Option Expr :=
  match operation? event, machine.items with
  | some .storeElement, _ :: _ :: array :: _ => some array
  | _, _ => none

/-- What is observed at the events of a run. -/
def observed (observe : Machine → Event → Option Expr) (task : Task) :
    List Event → Machine → List Expr
  | [], _ => []
  | event :: rest, machine =>
    (observe machine event).toList ++
      match step task event machine with
      | .ok _ next => observed observe task rest next
      | .error .. => []

end Machine

namespace Lifter

variable (lifter : Lifter) (method : Method) (body : MethodBody)

/-- What is observed at the events of a body. -/
def observed (observe : Task → Machine → Event → Option Expr) : List Expr :=
  match lifter.rootTask method with
  | .ok (task, nextNode) =>
    Machine.observed (observe task) task (lifter.trace body).events (.initial nextNode)
  | .error _ => []

/-- The trees that are repeated as they are. -/
def repeated : List Expr := lifter.observed method body Machine.repeated?

/-- The arrays that are stored into. -/
def renewed : List Expr := lifter.observed method body fun _ => Machine.renewed?

/-- The tests of all forks that are made. -/
def tests : List Expr :=
  match lifter.rootTask method with
  | .ok (task, nextNode) =>
    match lifter.runBody task nextNode body with
    | .ok _ machine | .error _ machine => machine.workspace.forks.map Fork.test
  | .error _ => []

end Lifter

variable {first identity spent saved : Nat} {plain origin : Atlas} {space : Workspace}

theorem countP_isWatched_eq (expr : Expr) :
    expr.nodes.countP (lineage (some identity)).isWatched = expr.occurrences identity := by
  refine countP_congr fun node _ => ?_
  simp only [Scale.isWatched, lineage]
  grind

/-- The trees of a run stand, and as long as no fork tests the call, also with it watched, where the
repetitions so far are allowed. -/
structure Workspace.Follows (first : Nat) (plain origin : Atlas) (identity spent saved : Nat)
    (space : Workspace) : Prop where
  stands : (lineage none).StandsAll first plain space []
  watched : (lineage (some identity)).Spares space.forks → ∃ allowance, allowance + saved = spent ∧
      ((lineage (some identity)).allow allowance).StandsAll first origin space []

theorem Scale.Spares.of_prefix {scale : Scale} {forks more : List Fork} (grown : forks <+: more)
    (spares : scale.Spares more) : scale.Spares forks :=
  fun fork mem => spares fork (grown.subset mem)

namespace Workspace.Follows

/-- A merge goes on with the trees standing. -/
theorem merges (label : Label) (one other : StackId) :
    Work.Merges (fun _ => True)
      (fun space _ => space.Follows first plain origin identity spent saved) label one other
      space := by
  intro others follows
  have joined := follows.stands.joinPair fair_lineage hosts_lineage settles_lineage label one other
    (spares_none _)
  refine Ensures.mono (Ensures.withOutcome joined) ?_
  rintro joined next ⟨outcome, grown, stands⟩
  have followed : next.Follows first plain origin identity spent saved := by
    refine ⟨stands, fun spares => ?_⟩
    have spared := spares.of_prefix grown
    obtain ⟨allowance, isAllowed, watched⟩ := follows.watched spared
    have watched' := (watched.joinPair (fair_lineage.allow allowance) (hosts_lineage.allow allowance)
      (settles_lineage.allow allowance) label one other spared).of_ok outcome
    exact ⟨allowance, isAllowed, watched'.2⟩
  cases joined <;> exact followed

/-- An instruction that neither repeats a tree nor stores an element goes on with the trees
standing. -/
theorem instruction {task : Task} {machine next : Machine} {event : Event} {path : StackId}
    (accepts : (lineage none).Accepts task first plain)
    (accepts' : (lineage (some identity)).Accepts task first origin)
    (isInstruction : event.isInstruction = true) (isCurrent : machine.current = some path)
    (follows : machine.workspace.Follows first plain origin identity spent saved)
    (steps : step task event machine = .ok () next) :
    machine.workspace.forks <+: next.workspace.forks ∧
      next.workspace.Follows first plain origin identity
        (spent + ((machine.repeated? task event).toList.map (Expr.occurrences identity)).sum)
        (saved + ((machine.renewed? event).toList.map (Expr.occurrences identity)).sum) := by
  obtain ⟨grown, stands⟩ :=
    (standsAll_step accepts isInstruction isCurrent follows.stands).of_ok steps
  refine ⟨grown, stands, fun spares => ?_⟩
  obtain ⟨allowance, isAllowed, watched⟩ := follows.watched (spares.of_prefix grown)
  have items := items_of_current isCurrent
  by_cases isStore : operation? event = some .storeElement
  · cases event with
    | plain opcode =>
      rw [step_plain isCurrent isStore] at steps
      obtain ⟨value, position, array, rest, found, left, isLeft, watched⟩ :=
        watched.renew fair_lineage tells_lineage steps
      refine ⟨left, ?_, watched⟩
      rw [countP_isWatched_eq] at isLeft
      simp only [repeated?, renewed?, isStore, items, found, Option.toList_none,
        Option.toList_some, map_nil, map_cons, sum_nil, sum_singleton]
      omega
    | _ => cases isStore
  · have unrenewed : machine.renewed? event = none := by
      unfold renewed?
      split
      · exact absurd ‹_› isStore
      · rfl
    refine ⟨allowance + ((machine.repeated? task event).toList.map (Expr.occurrences identity)).sum,
      ?_, ?_⟩
    · rw [unrenewed]
      simp only [Option.toList_none, map_nil, sum_nil]
      omega
    · refine (Scale.StandsAll.step (fair_lineage.allow _) (hosts_lineage.allow _) (accepts'.allow _)
        isInstruction isCurrent (Nat.le_add_right ..) ?_ watched).of_ok steps |>.2
      rintro opcode rfl isDuplicate top rest found repeats
      refine Nat.add_le_add_left (le_of_eq ?_) allowance
      refine (countP_isWatched_eq top).trans ?_
      have isRepeated : machine.repeated? task (.plain opcode) = some top := by
        simp [repeated?, operation?, isDuplicate, items, found, repeats]
      simp [isRepeated]

theorem arriveAt {machine next : Machine} (label : Label)
    (follows : machine.workspace.Follows first plain origin identity spent saved)
    (arrives : arriveAt label machine = .ok () next) :
    next.workspace.Follows first plain origin identity spent saved :=
  (arriveAt_keeps (fun _ _ => trivial : ∀ error, Error.IsAnswer error → True)
    (fun _ _ _ _ follows => follows) label
    (fun _ _ one other _ _ _ _ => merges label one other) follows).of_ok arrives

/-- The inner events of a body go on with the trees standing. -/
theorem run {task : Task} {events : List Event} {machine passed : Machine}
    (accepts : (lineage none).Accepts task first plain)
    (accepts' : (lineage (some identity)).Accepts task first origin)
    (isInner : ∀ event ∈ events, event.isInner = true)
    (follows : machine.workspace.Follows first plain origin identity spent saved)
    (steps : events.forM (step task) machine = .ok () passed) :
    passed.workspace.Follows first plain origin identity
      (spent + ((observed (repeated? task) task events machine).map (Expr.occurrences identity)).sum)
      (saved + ((observed renewed? task events machine).map (Expr.occurrences identity)).sum) := by
  induction events generalizing machine spent saved with
  | nil =>
    cases steps
    exact follows
  | cons event rest ih =>
    obtain ⟨⟨⟩, next, step, steps⟩ := andThen_eq_ok.1 steps
    have followed : next.workspace.Follows first plain origin identity
        (spent + ((machine.repeated? task event).toList.map (Expr.occurrences identity)).sum)
        (saved + ((machine.renewed? event).toList.map (Expr.occurrences identity)).sum) := by
      rcases Event.isInner_iff.1 (isInner event (by simp)) with isInstruction | ⟨label, rfl⟩
      · cases isCurrent : machine.current with
        | some path =>
          exact (follows.instruction accepts accepts' isInstruction isCurrent step).2
        | none =>
          obtain ⟨offset, idles⟩ := step_idle task isInstruction isCurrent
          cases idles.symm.trans step
          have nothing : machine.items = [] := by rw [items, isCurrent]
          have unrepeated : machine.repeated? task event = none := by
            simp [repeated?, nothing]
          have unrenewed : machine.renewed? event = none := by
            simp [renewed?, nothing]
          rw [unrepeated, unrenewed]
          exact follows
      · exact follows.arriveAt label step
    have later := ih (fun event mem => isInner event (by simp [mem])) followed steps
    simp only [observed, step, map_append, sum_append, ← add_assoc]
    exact later

end Workspace.Follows

theorem Machine.observed_append {observe : Machine → Event → Option Expr} {task : Task}
    {events rest : List Event} {machine passed : Machine}
    (steps : events.forM (step task) machine = .ok () passed) :
    observed observe task (events ++ rest) machine =
      observed observe task events machine ++ observed observe task rest passed := by
  induction events generalizing machine with
  | nil =>
    cases steps
    rfl
  | cons event events ih =>
    obtain ⟨⟨⟩, next, step, steps⟩ := andThen_eq_ok.1 steps
    simp [cons_append, observed, step, ih steps, append_assoc]

/-- What is observed is observed at a machine that the run comes through. -/
theorem Machine.exists_of_mem_observed {observe : Machine → Event → Option Expr} {task : Task}
    {events : List Event} {machine : Machine} {tree : Expr}
    (mem : tree ∈ observed observe task events machine) :
    ∃ found event, Reaches task events machine found ∧ observe found event = some tree := by
  induction events generalizing machine with
  | nil => cases mem
  | cons event rest ih =>
    rcases mem_append.1 mem with isHere | isLater
    · exact ⟨machine, event, .now, Option.mem_toList.1 isHere⟩
    · cases steps : step task event machine with
      | ok _ next =>
        rw [steps] at isLater
        obtain ⟨found, event, reaches, isTree⟩ := ih isLater
        exact ⟨found, event, .later steps reaches, isTree⟩
      | error =>
        rw [steps] at isLater
        cases isLater

/-! Trees without scopes of their own, in which a search comes to every node. -/

namespace Expr

/-- Blocks and functions, which declare variables. -/
def isScope : Expr → Bool
  | .block .. | .lambda .. => true
  | _ => false

def IsScopeless (expr : Expr) : Prop := ∀ node ∈ expr.nodes, node.isScope = false

variable {expr node : Expr}

theorem parts_of_isScope (notScope : expr.isScope = false) : expr.parts = expr.children := by
  cases expr <;> first | rfl | cases notScope

theorem isScopeless_iff :
    expr.IsScopeless ↔ expr.isScope = false ∧ ∀ part ∈ expr.parts, part.IsScopeless := by
  unfold IsScopeless
  rw [nodes_eq, forall_mem_cons, forall_mem_flatMap]

theorem isScopeless_of_isVar (isVar : expr.isVar = true) : expr.IsScopeless := by
  cases expr <;> cases isVar
  exact isScopeless_iff.2 ⟨rfl, forall_mem_nil _⟩

theorem IsScopeless.place (scopeless : expr.IsScopeless) (next : Nat) :
    (expr.place next).1.IsScopeless := by
  have same (expr : Expr) (next : Nat) : (expr.place next).1.isScope = expr.isScope := by
    cases expr with
    | _ header => cases placed : header.id <;> simp [Expr.place, placed, isScope]
  have fewer := @Scale.countP_place isScope (fun _ => 0) (fun expr next _ => by rw [same]) expr next
  have none : expr.nodes.countP isScope = 0 :=
    countP_eq_zero.2 fun node mem => by simp [scopeless node mem]
  have nonePlaced : (expr.place next).1.nodes.countP isScope = 0 := by omega
  exact fun node mem => by simpa using countP_eq_zero.1 nonePlaced node mem

theorem closed_isScopeless : Closed IsScopeless where
  build expr _ isPlain below := by
    have notScope : expr.isScope = false := by
      cases expr <;> first | rfl | cases isPlain
    exact isScopeless_iff.2 ⟨notScope, parts_of_isScope notScope ▸ below⟩
  part expr _ scopeless := by
    obtain ⟨notScope, below⟩ := isScopeless_iff.1 scopeless
    exact parts_of_isScope notScope ▸ below

theorem IsScopeless.any_of_mem_nodes {holds : Expr → Bool} (scopeless : expr.IsScopeless)
    (mem : node ∈ expr.nodes) (isFound : holds node = true) : expr.any holds = true := by
  induction expr using partsInduction with
  | step expr ih =>
    obtain ⟨notScope, below⟩ := isScopeless_iff.1 scopeless
    rw [any_eq, Bool.or_eq_true, any_eq_true]
    rcases mem_nodes_iff.1 mem with rfl | ⟨part, isPart, mem⟩
    · exact .inl isFound
    · exact .inr ⟨part, parts_of_isScope notScope ▸ isPart, ih part isPart (below part isPart) mem⟩

/-- Where no call counts as pure, a search for calls finds every one. -/
theorem IsScopeless.occurrences_of_hasCalls (scopeless : expr.IsScopeless)
    (noCalls : expr.hasCalls (fun _ => false) = false) (identity : Nat) :
    expr.occurrences identity = 0 := by
  refine countP_eq_zero.2 fun node mem isFound => ?_
  rw [Bool.and_eq_true] at isFound
  cases noCalls.symm.trans (scopeless.any_of_mem_nodes mem (by
    cases node <;> first | rfl | cases isFound.1))

end Expr

/-- Nothing at hand has a scope of its own. -/
def Inventory.scopeless : Inventory where
  Order _ := True
  Sound _ := Expr.IsScopeless
  Produced _ := Expr.IsScopeless
  Content _
    | .unassigned => True
    | .direct value => value.IsScopeless
    | .bound _ node _ => node.IsScopeless
  Extends _ _ := True
  roots := []

/-- No step makes a tree with a scope. -/
theorem Inventory.scopeless_laws : scopeless.Laws where
  refl _ := trivial
  trans _ _ := trivial
  sound _ := id
  produced _ := id
  content _ := id
  closed _ := Expr.closed_isScopeless
  sound_of_produced := id
  sound_store _ target value :=
    Expr.isScopeless_iff.2 ⟨rfl, by simpa [Expr.mkAssign, Expr.parts, Expr.children] using ⟨target, value⟩⟩
  sound_branch _ _ := Expr.isScopeless_iff.2 ⟨rfl, forall_mem_nil _⟩
  unassigned _ := trivial
  direct := Iff.rfl
  grow _ _ := ⟨trivial, trivial⟩
  sound_place _ scopeless := scopeless.place _
  produced_place _ scopeless := scopeless.place _
  record _ scopeless _ := ⟨⟨trivial, trivial⟩, scopeless⟩
  speak _ _ := ⟨trivial, trivial⟩
  materialize _ _ := ⟨⟨trivial, trivial⟩, Expr.isScopeless_of_isVar (Emission.materialize_isVar ..)⟩
  relocate _ _ _ _ := ⟨trivial, trivial⟩
  declare _ _ isContent content := ⟨⟨trivial, trivial⟩, by
    rw [isContent] at content
    exact content⟩
  bind {space value} id index slot _ _ _ _ := by
    exact ⟨⟨trivial, trivial⟩, Expr.isScopeless_of_isVar rfl⟩

namespace Lifter

variable {lifter : Lifter} {method : Method} {task : Task} {nextNode : Nat} {body : MethodBody}
  {machine : Machine}

namespace Passage

/-- What is observed at instructions only is observed at the inner events. -/
theorem observed (passage : lifter.Passage task nextNode body machine)
    {observe : Machine → Event → Option Expr}
    (atInstructions : ∀ machine event, Machine.operation? event = none → observe machine event = none) :
    Machine.observed observe task (lifter.trace body).events (.initial nextNode) =
      Machine.observed observe task passage.inner (lifter.opening task nextNode body) := by
  have atEnd : Machine.observed observe task [.finish] passage.passed = [] := by
    simp only [Machine.observed, atInstructions _ .finish rfl]
    split <;> rfl
  have atStart : ∀ types maxStack rest, Machine.observed observe task
      (.code :: .locals maxStack types :: rest) (.initial nextNode) =
      Machine.observed observe task rest (Machine.opening task types nextNode) := by
    intro types maxStack rest
    simp only [Machine.observed, atInstructions _ .code rfl,
      atInstructions _ (.locals maxStack types) rfl]
    rfl
  rw [passage.isBody, atStart, observed_append passage.steps, atEnd, append_nil]

theorem tidy (prepared : lifter.rootTask method = .ok (task, nextNode))
    (passage : lifter.Passage task nextNode body machine) :
    Workspace.Tidy (task.parameters ++ task.target.toList) passage.arrived.workspace ∧
      ∀ item ∈ (passage.arrived.workspace.stack passage.stack).items.reverse,
        passage.arrived.workspace.Item item := by
  obtain ⟨unbound, isRoot⟩ := rootTask_parameters prepared
  have tidy := ((Workspace.tidiness_serves (rootTask_numbers prepared) unbound).passage
    Workspace.tidiness_joins ⟨Workspace.tidy_opening isRoot, fun _ _ => trivial, fun _ _ => trivial⟩
    passage).holds
  exact ⟨tidy, fun item mem => tidy.onStack passage.stack item (mem_reverse.1 mem)⟩

/-- Where no call counts as pure, a tree that is repeated as it is and holds a call is an array. -/
theorem repeated_isArray (prepared : lifter.rootTask method = .ok (task, nextNode))
    (alone : lifter.options.inlineDelegates = false) (impure : lifter.options.pureCalls = none)
    (passage : lifter.Passage task nextNode body machine) {tree : Expr} {identity : Nat}
    (mem : tree ∈ Machine.observed (Machine.repeated? task) task passage.inner
      (lifter.opening task nextNode body)) (occurs : 0 < tree.occurrences identity) :
    ∃ header elements, tree = .array header elements := by
  obtain ⟨-, -, sameOptions, -⟩ := prepare_fields prepared
  obtain ⟨unbound, isRoot⟩ := rootTask_parameters prepared
  have serves : Inventory.scopeless.regime.Serves task := by
    refine Inventory.scopeless_laws.serves (rootTask_numbers prepared) (fun _ _ node isGiven => ?_)
      fun inlines => absurd (sameOptions ▸ inlines) (by simp [alone])
    obtain ⟨type, identity, slot, name, rfl, -⟩ :=
      isRoot node (isGiven.resolve_right (by simp [unbound]))
    exact Expr.isScopeless_iff.2 ⟨rfl, forall_mem_nil _⟩
  have stocked : Inventory.scopeless.Stocked (lifter.opening task nextNode body).workspace := {
    order := trivial
    root := by simp [Inventory.scopeless]
    item := fun stack isStack item mem => by
      obtain rfl := mem_singleton.1 isStack
      cases mem
    slot := fun slot mem => by
      rw [opening_unassigned slot mem]
      trivial
    test := fun _ mem => by cases mem }
  obtain ⟨found, event, reaches, isRepeated⟩ := exists_of_mem_observed mem
  have live := serves.reaches reaches ⟨fun event mem => .inl (passage.isInner event mem),
    ⟨stocked, fun _ _ => trivial, fun _ _ => trivial⟩,
    fun label first second _ _ => Inventory.scopeless_laws.joins.merges label first second⟩
  have isPure : task.options.isPureCall = fun _ => false := by
    funext method
    rw [sameOptions, Options.isPureCall, impure]
  unfold Machine.repeated? at isRepeated
  split at isRepeated
  · rename_i top rest _ isTop
    split at isRepeated
    · rename_i repeats
      cases isRepeated
      have scopeless : tree.IsScopeless := by
        cases isCurrent : found.current with
        | none =>
          rw [items, isCurrent] at isTop
          cases isTop
        | some path =>
          rw [items_of_current isCurrent] at isTop
          exact (live.holds.onStack path tree (isTop ▸ mem_cons_self)).1
      unfold Machine.repeats at repeats
      split at repeats
      · exact ⟨_, _, rfl⟩
      · rw [isPure, Bool.not_eq_true'] at repeats
        have none := scopeless.occurrences_of_hasCalls repeats identity
        omega
    · cases isRepeated
  · cases isRepeated

end Passage

/-- A call or construction that no fork tests occurs in the statements at most once, once more for
every tree with it that is repeated as it is, and once less for every array with it that is stored
into. Where no call counts as pure, what is repeated with it are arrays. -/
theorem lift_evaluates_call_once {tree : MethodTree}
    (impure : lifter.options.pureCalls = none) (alone : lifter.options.inlineDelegates = false)
    (lifted : lifter.lift method body = .ok tree) (identity : Nat)
    (untested : ∀ test ∈ lifter.tests method body, test.occurrences identity = 0) :
    (tree.statements.map (Expr.occurrences identity)).sum +
        ((lifter.renewed method body).map (Expr.occurrences identity)).sum ≤
      1 + ((lifter.repeated method body).map (Expr.occurrences identity)).sum ∧
    ∀ found ∈ lifter.repeated method body, 0 < found.occurrences identity →
      ∃ header elements, found = .array header elements := by
  obtain ⟨task, nextNode, machine, prepared, completed, rfl⟩ := lift_eq_ok lifted
  have isAccepted : ∀ watched, ∃ origin, (lineage watched).Accepts task nextNode origin :=
    fun _ => Scale.exists_accepts fair_lineage prepared (by simp [alone])
  obtain ⟨plain, accepts⟩ := isAccepted none
  obtain ⟨origin, accepts'⟩ := isAccepted (some identity)
  obtain ⟨passage⟩ := exists_passage completed
  have isRepeated : lifter.repeated method body = Machine.observed (Machine.repeated? task) task
      passage.inner (lifter.opening task nextNode body) := by
    simp only [repeated, observed, prepared]
    exact passage.observed fun machine event isOther => by simp [repeated?, isOther]
  have isRenewed : lifter.renewed method body = Machine.observed Machine.renewed? task passage.inner
      (lifter.opening task nextNode body) := by
    simp only [renewed, observed, prepared]
    exact passage.observed fun machine event isOther => by simp [Machine.renewed?, isOther]
  refine ⟨?_, fun found mem => passage.repeated_isArray prepared alone impure (isRepeated ▸ mem)⟩
  have follows : passage.arrived.workspace.Follows nextNode plain origin identity
      ((lifter.repeated method body).map (Expr.occurrences identity)).sum
      ((lifter.renewed method body).map (Expr.occurrences identity)).sum := by
    have opening : (lifter.opening task nextNode body).workspace.Follows nextNode plain origin
        identity 0 0 :=
      ⟨⟨plain, [], Scale.standing_opening⟩, fun _ => ⟨0, rfl, origin, [], Scale.standing_opening⟩⟩
    have passed := opening.run accepts accepts' passage.isInner passage.steps
    rw [isRepeated, isRenewed]
    simpa using passed.arriveAt .finish passage.arrives
  have spares : (lineage (some identity)).Spares passage.arrived.workspace.forks := by
    intro fork mem
    rw [countP_isWatched_eq]
    refine untested fork.test ?_
    simp only [tests, prepared, completed, passage.isMachine]
    exact mem_map_of_mem mem
  obtain ⟨allowance, isAllowed, atlas, pool, standing⟩ := follows.watched spares
  obtain ⟨tidy, isItem⟩ := passage.tidy prepared
  have firm : ∀ last ∈ (passage.arrived.workspace.withRemaining
        (passage.arrived.workspace.stack passage.stack).items.reverse).statements,
      ∀ statement ∈ ((passage.arrived.workspace.withRemaining
        (passage.arrived.workspace.stack passage.stack).items.reverse).restoreOrder
        last).2.statements,
      statement.isVoid = false → statement.id?.isSome = true := by
    intro last isLast statement mem isUsed
    by_contra unplaced
    have isVoid := ((tidy.restoreOrder isItem isLast).placed statement mem (by simpa using unplaced)).1
    cases isUsed.symm.trans isVoid
  obtain ⟨-, wider, -, carries⟩ := standing.completes (fair_lineage.allow allowance)
    (tells_lineage.allow allowance) (settles_lineage.allow allowance) trivial (fun _ => firm)
    passage.completes
  have within : (passage.emission.statements.map (Expr.occurrences identity)).sum ≤ allowance + 1 := by
    rw [← (funext countP_isWatched_eq : _ = Expr.occurrences identity)]
    exact carries.countP_statements_le
  rw [passage.isMachine]
  change (passage.emission.statements.map _).sum + _ ≤ _
  omega

/-- Static methods without parameters: one that returns an integer and one that returns a truth. -/
def callTables : MetadataTables where
  members := [
    (⟨0x0a000001⟩, .method { token := ⟨0x0a000001⟩, name := "A", returnType := .int32,
                             flags := { isStatic := true } }),
    (⟨0x0a000002⟩, .method { token := ⟨0x0a000002⟩, name := "B", returnType := .bool,
                             flags := { isStatic := true } }),
    (⟨0x01000001⟩, .type .int32)]

def callLifter : Lifter where
  resolver := callTables.resolver
  options := { inlineDelegates := false }

/-- Fills an array with the result of a call and with a number that a fork chooses. -/
def filledArray : MethodBody where
  code := [0x18, 0x8d, 0x01, 0x00, 0x00, 0x01, 0x25, 0x16, 0x28, 0x01, 0x00, 0x00, 0x0a, 0x9e, 0x25,
    0x17, 0x02, 0x2c, 0x03, 0x1b, 0x2b, 0x01, 0x1c, 0x9e, 0x16, 0x94, 0x2a]

/-- The array with the call is repeated once and stored into once, so the call occurs once. -/
theorem filledArray_evaluates_call_once :
    ∃ tree, callLifter.lift (.taking .bool ["a"]) filledArray = .ok tree ∧
      tree.text = "(a) => new int32[] \x7b A(), (a ? 5 : 6) \x7d[0]" ∧
      (tree.statements.map (Expr.occurrences 5)).sum + 1 ≤ 1 + 1 := by
  have viewed : (callLifter.lift (.taking .bool ["a"]) filledArray).map
      MethodTree.text = .ok "(a) => new int32[] \x7b A(), (a ? 5 : 6) \x7d[0]" := by
    decide +kernel
  have untested : ∀ test ∈ callLifter.tests (.taking .bool ["a"]) filledArray,
      test.occurrences 5 = 0 := by
    decide +kernel
  have renewed : ((callLifter.renewed (.taking .bool ["a"])
      filledArray).map (Expr.occurrences 5)).sum = 1 := by
    decide +kernel
  have repeated : ((callLifter.repeated (.taking .bool ["a"])
      filledArray).map (Expr.occurrences 5)).sum = 1 := by
    decide +kernel
  obtain ⟨tree, lifted, view⟩ := exists_of_map viewed
  have once := (lift_evaluates_call_once rfl rfl lifted 5 untested).1
  rw [renewed, repeated] at once
  exact ⟨tree, lifted, view, once⟩

/-- Forks on a call, and leaves both a value and a local that depend on the fork. -/
def forkOnCall : MethodBody where
  code := [0x28, 0x02, 0x00, 0x00, 0x0a, 0x2c, 0x05, 0x18, 0x0a, 0x19, 0x2b, 0x03, 0x1b, 0x0a, 0x1c,
    0x06, 0x58, 0x2a]
  locals := [.int32]

/-- Puts a call into an array, and reads the array twice. -/
def sharedArray : MethodBody where
  code := [0x17, 0x8d, 0x01, 0x00, 0x00, 0x01, 0x25, 0x16, 0x28, 0x01, 0x00, 0x00, 0x0a, 0x9e, 0x25,
    0x16, 0x94, 0x0a, 0x16, 0x94, 0x06, 0x58, 0x2a]
  locals := [.int32]

/-- A call that a fork tests, or that is in an array which is repeated, can occur twice. -/
theorem call_occurs_twice :
    (∃ tree identity, callLifter.lift (.taking .bool []) forkOnCall = .ok tree ∧
      (tree.statements.map (Expr.occurrences identity)).sum = 2) ∧
    ∃ tree identity, callLifter.lift (.taking .bool []) sharedArray = .ok tree ∧
      (tree.statements.map (Expr.occurrences identity)).sum = 2 := by
  have tested : (callLifter.lift (.taking .bool []) forkOnCall).map
      (fun tree => (tree.statements.map (Expr.occurrences 0)).sum) = .ok 2 := by
    decide +kernel
  have shared : (callLifter.lift (.taking .bool []) sharedArray).map
      (fun tree => (tree.statements.map (Expr.occurrences 4)).sum) = .ok 2 := by
    decide +kernel
  obtain ⟨tree, lifted, twice⟩ := exists_of_map tested
  obtain ⟨tree', lifted', twice'⟩ := exists_of_map shared
  exact ⟨⟨tree, 0, lifted, twice⟩, tree', 4, lifted', twice'⟩

end Lifter

end CilLift
