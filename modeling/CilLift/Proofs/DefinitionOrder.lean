import CilLift.Proofs.Completion

/-!
Definition before use: in a lifted method every variable is declared once, assigned once, and read only
by statements after its assignment.
-/

namespace CilLift

open List CilLift.Expr Machine Workspace Emission

variable {statement : Expr} {task : Task} {nextNode : Nat}

namespace Workspace

variable {roots : List Expr} {space : Workspace}

theorem Sound.assigned {expr : Expr} (sound : space.Sound expr) : expr.assigned = [] :=
  filterMap_eq_nil_iff.2 fun node mem => (sound node mem).assigns

/-- A lasting assignment assigns its own variable only and reads what its value reads. -/
theorem Lasting.parts {assignment : Expr} (lasting : space.Lasting assignment) :
    ∃ identity node, assignment.id? = some identity ∧ assignment.target? = some node ∧
      assignment.assigned = [node] ∧ space.After assignment.reads identity ∧
      (∀ read ∈ assignment.reads, read ∈ space.emission.declarations ∧ read.number? ≠ node.number?) ∧
      (space.Orderly → assignment.Every Settled) := by
  cases lasting with
  | @intro header variableHeader number identity variableIdentity name value isPlaced variablePlaced
      numbered below variableBelow once unassigned precedes sound after unread =>
    have assigned : (assign header (.var variableHeader number name) value).assigned =
        [.var variableHeader number name] := by
      rw [assigned_eq]
      simp [target?, asVar?, isVar, operands, sound.assigned]
    refine ⟨identity, _, isPlaced, rfl, assigned, by rwa [reads], ?_, fun orderly => ?_⟩
    · exact fun read isRead => ⟨sound.declared isRead, unread read isRead⟩
    · refine every_iff.2 ⟨fun unplaced => ?_, fun operand isOperand => ?_⟩
      · cases isPlaced.symm.trans unplaced
      · obtain rfl : operand = value := by
          simpa [operands, isVar] using isOperand
        exact orderly.settled sound

/-- The statements of a workspace together with the values left on a stack. -/
def withRemaining (space : Workspace) (items : List Expr) : Emission :=
  { space.emission with statements := space.emission.statements ++ items }

namespace Tidy

variable (tidy : Tidy roots space) {items : List Expr}
  (isItem : ∀ item ∈ items, space.Item item)

include tidy isItem

theorem mem_withRemaining (mem : statement ∈ (space.withRemaining items).statements) :
    space.Item statement ∨ statement ∈ space.emission.statements ∧ space.Assigns statement := by
  rcases mem_append.1 mem with spoken | left
  · cases isTarget : statement.target? with
    | none =>
      have produced := tidy.orderly.spoken statement spoken isTarget
      exact .inl ⟨produced.1, fun _ => produced⟩
    | some node => exact .inr ⟨spoken, .inl ⟨spoken, by simp [isTarget]⟩⟩
  · exact .inl (isItem statement left)

theorem assigned_withRemaining (mem : statement ∈ (space.withRemaining items).statements) :
    statement.assigned = statement.target?.toList := by
  rcases tidy.mem_withRemaining isItem mem with item | ⟨-, assigns⟩
  · rw [item.1.assigned, (Every.root item.1).assigns]
    rfl
  · obtain ⟨_, node, -, isTarget, assigned, -⟩ := (tidy.orderly.lasting statement assigns).parts
    rw [assigned, isTarget]
    rfl

/-- A statement and an assignment of another variable differ in their identities. -/
theorem apart_of_number {first second : Expr}
    (firstMember : first ∈ (space.withRemaining items).statements)
    (secondMember : second ∈ (space.withRemaining items).statements)
    (differ : ∀ node, first.target? = some node → ∀ other, second.target? = some other →
      node.number? ≠ other.number?) (assigns : first.assigned ≠ []) : first.id? ≠ second.id? := by
  intro same
  rcases tidy.mem_withRemaining isItem firstMember with item | ⟨-, firstAssigns⟩
  · exact assigns item.1.assigned
  obtain ⟨identity, node, isPlaced, isTarget, -⟩ := (tidy.orderly.lasting first firstAssigns).parts
  rcases tidy.mem_withRemaining isItem secondMember with item | ⟨-, secondAssigns⟩
  · exact (Every.root item.1).unassigned identity (same ▸ isPlaced) first firstAssigns isPlaced
  · cases tidy.orderly.unique first second firstAssigns secondAssigns (.inl same)
    exact differ node isTarget node isTarget rfl

/-- Flushing the rest of a stack leaves every variable accounted for. -/
theorem accounted : (space.withRemaining items).Accounted := by
  have orderly := tidy.orderly
  have declares : (space.withRemaining items).statements.filterMap target? =
      space.emission.declarations := by
    have noTargets : items.filterMap target? = [] :=
      filterMap_eq_nil_iff.2 fun item mem => (Every.root (isItem item mem).1).assigns
    simp [withRemaining, filterMap_append, orderly.declares, noTargets, append_nil]
  exact {
    once := by
      have assigned : (space.withRemaining items).statements.flatMap assigned =
          space.emission.declarations := by
        rw [← declares, filterMap_eq_flatMap_toList]
        exact flatMap_congr fun statement mem =>
          tidy.assigned_withRemaining isItem mem
      rw [assigned]
      exact .refl _
    distinct := orderly.distinct
    numbered := fun node => orderly.declared_numbered
    settled := fun statement mem => by
      rcases tidy.mem_withRemaining isItem mem with item | ⟨-, assigns⟩
      · exact orderly.settled item.1
      · obtain ⟨_, _, -, -, -, -, -, settled⟩ := (orderly.lasting statement assigns).parts
        exact settled orderly
    bounded := fun statement mem identity isPlaced => by
      rcases tidy.mem_withRemaining isItem mem with item | ⟨-, assigns⟩
      · exact (Every.root item.1).below identity isPlaced
      · obtain ⟨_, _, _, _, isPlaced', below, -⟩ := (orderly.lasting statement assigns).bounds
        cases isPlaced.symm.trans isPlaced'
        exact below
    placed := fun statement mem unplaced => by
      rcases tidy.mem_withRemaining isItem mem with item | ⟨-, assigns⟩
      · cases isBranch : statement.branch? with
        | none =>
          obtain ⟨-, identity, isPlaced, -⟩ := item.2 isBranch
          cases unplaced.symm.trans isPlaced
        | some branch =>
          refine ⟨(Every.root item.1).isSilent (by simp [isBranch]), ?_⟩
          cases statement <;> simp_all [branch?, isSymbol, isParameter, isVar]
      · obtain ⟨_, _, isPlaced, -⟩ := (orderly.lasting statement assigns).parts
        cases unplaced.symm.trans isPlaced
    apart := by
      have differ := pairwise_map.1 orderly.distinct
      rw [← declares, pairwise_filterMap] at differ
      refine differ.imp_of_mem fun {first second} firstMember secondMember differ assigns => ?_
      rcases assigns with assigns | assigns
      · exact tidy.apart_of_number isItem firstMember secondMember differ assigns
      · exact (tidy.apart_of_number isItem secondMember firstMember
          (fun node isTarget other isOther => (differ other isOther node isTarget).symm)
          assigns).symm }

/-- Assignments have smaller ranks than what reads their variables. -/
theorem ranked {node : Expr} (mem : statement ∈ (space.withRemaining items).statements)
    (isRead : node ∈ statement.reads) :
    ∃ assignment ∈ (space.withRemaining items).statements, node ∈ assignment.assigned ∧
      (space.withRemaining items).rank assignment < (space.withRemaining items).rank statement := by
  have orderly := tidy.orderly
  have declared : node ∈ space.emission.declarations := by
    rcases tidy.mem_withRemaining isItem mem with item | ⟨-, assigns⟩
    · exact item.1.declared isRead
    · obtain ⟨_, _, -, -, -, -, reads, -⟩ := (orderly.lasting statement assigns).parts
      exact (reads node isRead).1
  obtain ⟨assignment, isStatement, isTarget⟩ := orderly.exists_assignment declared
  have assigns : space.Assigns assignment := .inl ⟨isStatement, by simp [isTarget]⟩
  have lasting := orderly.lasting assignment assigns
  obtain ⟨identity, _, isPlaced, isTarget', assigned, -⟩ := lasting.parts
  cases isTarget.symm.trans isTarget'
  refine ⟨assignment, mem_append_left _ isStatement, by simp [assigned], ?_⟩
  rcases tidy.mem_withRemaining isItem mem with item | ⟨-, statementAssigns⟩
  · have isValue : statement.branch? = none := by
      cases statement <;> first | rfl | (cases isRead)
    obtain ⟨-, later, statementPlaced, recorded⟩ := item.2 isValue
    have known := Every.root item.1
    exact rank_lt isPlaced statementPlaced
      (known.after later statementPlaced node isRead assignment isStatement isTarget identity
        isPlaced) (lasting.once isPlaced) recorded
      fun same => known.unassigned later statementPlaced assignment assigns (same ▸ isPlaced)
  · have statementLasting := orderly.lasting statement statementAssigns
    obtain ⟨later, target, statementPlaced, targets, -, after, reads, -⟩ := statementLasting.parts
    refine rank_lt isPlaced statementPlaced
      (after node isRead assignment isStatement isTarget identity isPlaced)
      (lasting.once isPlaced) (statementLasting.recorded statementPlaced) fun same => ?_
    cases orderly.unique assignment statement assigns statementAssigns
      (.inl (by rw [isPlaced, statementPlaced, same]))
    cases isTarget.symm.trans targets
    exact (reads node isRead).2 rfl

theorem restoreOrder {last : Expr} (isLast : last ∈ (space.withRemaining items).statements) :
    ((space.withRemaining items).restoreOrder last).2.Sequenced :=
  ((tidy.accounted isItem).sortStatements fun _ mem _ isRead =>
    tidy.ranked isItem mem isRead).restoreOrder isLast

theorem complete (returnType : TypeSig) (inlinesTrailing : Bool) :
    Yields (fun _ => True) (space.emission.complete items returnType inlinesTrailing) Defined := by
  have accounted := tidy.accounted isItem
  refine complete_yields (fun _ _ => trivial) (fun _ isEmpty => ?_) ?_ fun _ _ => Defined.inlineTrailing
  · exact {
      once := accounted.once
      distinct := accounted.distinct
      numbered := fun node mem => (accounted.numbered node mem).imp fun _ => And.left
      ordered := by
        rw [isEmpty]
        trivial }
  · rintro last isLast restored rfl
    have restored := tidy.restoreOrder isItem isLast
    exact ⟨fun _ => restored.defined, restored.returnValue returnType _⟩

end Tidy

/-- A method begins with its parameters at hand and no variable. -/
theorem tidy_opening {types : List TypeSig} (isRoot : ∀ root ∈ roots, ∃ type identity slot name,
      root = .parameter { type, id := some identity } slot name ∧ identity < nextNode) :
    Tidy roots (opening task types nextNode).workspace := by
  have isUnassigned : ∀ slot ∈ (opening task types nextNode).workspace.slots,
      slot.content = .unassigned := opening_unassigned
  have unassigned : ∀ assignment, ¬(opening task types nextNode).workspace.Assigns assignment := by
    rintro assignment (⟨mem, -⟩ | ⟨slot, mem, isAssignment⟩)
    · cases mem
    · simp [LocalSlot.assignment?, isUnassigned slot mem] at isAssignment
  exact {
    orderly := {
      declares := rfl
      distinct := nodup_nil
      bounded := fun _ mem => by cases mem
      spoken := fun _ mem => by cases mem
      lasting := fun assignment assigns => absurd assigns (unassigned assignment)
      unique := fun first _ assigns => absurd assigns (unassigned first) }
    root := by
      intro root mem
      obtain ⟨type, identity, slot, name, rfl, below⟩ := isRoot root mem
      refine every_iff.2 ⟨⟨by rintro ⟨⟩, rfl, by rintro ⟨⟩, ?_, ?_, ?_⟩, by simp [operands, children]⟩
      · rintro _ ⟨⟩
        exact below
      · exact fun _ _ assignment assigns => absurd assigns (unassigned assignment)
      · exact fun _ _ _ _ _ isStatement => by cases isStatement
    item := by
      intro stack isStack item mem
      obtain rfl := mem_singleton.1 isStack
      cases mem
    slot := fun slot mem => by
      rw [isUnassigned slot mem]
      trivial
    test := fun _ mem => by cases mem }

end Workspace

namespace Lifter

variable {lifter : Lifter} {method : Method}

/-- A method by itself is lifted on placed parameters only, with no argument known. -/
theorem rootTask_parameters (prepared : lifter.rootTask method = .ok (task, nextNode)) :
    task.arguments = [] ∧ ∀ root ∈ task.parameters ++ task.target.toList, ∃ type identity slot name,
        root = .parameter { type, id := some identity } slot name ∧ identity < nextNode := by
  obtain ⟨nodes, areNodes, placed, rfl⟩ := prepare_symbols prepared
  refine ⟨?_, fun root mem => ?_⟩
  · exact eq_nil_of_length_eq_zero (prepare_fields prepared).2.2.2.2.2
  · rw [placed] at mem
    obtain ⟨node, isNode, start, -, below, rfl⟩ := exists_original (placedIn_placeAll 0 nodes) mem
    rcases areNodes node isNode with ⟨slot, name, type, rfl⟩ | isTarget
    · exact ⟨type, start, slot, name, rfl, below⟩
    · cases isTarget

theorem rootTask_numbers (prepared : lifter.rootTask method = .ok (task, nextNode)) : task.Numbers := by
  unfold Task.Numbers
  rw [(prepare_fields prepared).2.2.2.2.1]
  exact liftFrom_nextNode lifter (lifter.nesting - 1) []

end Lifter

/-- Every variable is declared once and assigned once, and every statement reads only variables that
are declared and that an earlier statement assigns. -/
structure MethodTree.DefinesBeforeUse (tree : MethodTree) : Prop where
  declared : ∀ statement ∈ tree.statements, ∀ node ∈ statement.reads, node ∈ tree.declarations
  earlier : ∀ (index : Nat) (statement : Expr), tree.statements[index]? = some statement →
    ∀ node ∈ statement.reads, ∃ earlierIndex < index, ∃ definition : Expr,
      tree.statements[earlierIndex]? = some definition ∧ node ∈ definition.assigned
  isVar : ∀ node ∈ tree.declarations, node.isVar = true
  distinct : (tree.declarations.map number?).Nodup
  once : ∀ node ∈ tree.declarations,
    ((tree.statements.flatMap assigned).map number?).count node.number? = 1
  only : ∀ node ∈ tree.statements.flatMap assigned, node ∈ tree.declarations

/-- What an emission keeps in order is in order in its tree. -/
theorem Emission.Defined.definesBeforeUse {tree : MethodTree} {emission : Emission}
    (defined : emission.Defined) (statements : tree.statements = emission.statements)
    (declarations : tree.declarations = emission.declarations) : tree.DefinesBeforeUse where
  declared statement mem node isRead := by
    rw [statements] at mem
    rw [declarations]
    exact defined.once.mem_iff.1 (defined.ordered.reads_of_mem mem node isRead)
  earlier index statement isStatement node isRead := by
    rw [statements] at isStatement ⊢
    obtain ⟨inside, isFound⟩ := List.getElem?_eq_some_iff.1 isStatement
    have ordered := defined.ordered
    rw [← take_append_drop index emission.statements, drop_eq_getElem_cons inside, isFound] at ordered
    obtain ⟨definition, mem, isAssigned⟩ := mem_flatMap.1 (ordered.reads node isRead)
    obtain ⟨earlierIndex, isDefinition⟩ := mem_iff_getElem?.1 mem
    rw [getElem?_take] at isDefinition
    split at isDefinition
    · exact ⟨earlierIndex, ‹_›, definition, isDefinition, isAssigned⟩
    · cases isDefinition
  isVar node mem := by
    rw [declarations] at mem
    obtain ⟨number, isNumber⟩ := defined.numbered node mem
    cases node <;> simp_all [number?, isVar]
  distinct := by
    rw [declarations]
    exact defined.distinct
  once node mem := by
    rw [declarations] at mem
    rw [statements, (defined.once.map number?).count_eq]
    exact count_eq_one_of_mem defined.distinct (mem_map_of_mem mem)
  only node mem := by
    rw [statements] at mem
    rw [declarations]
    exact defined.once.mem_iff.1 mem

namespace Lifter

/-- A lifted method is completed from a workspace with its variables in order. -/
theorem lift_completes {lifter : Lifter} {method : Method} {body : MethodBody} {tree : MethodTree}
    (lifted : lifter.lift method body = .ok tree) :
    ∃ (roots : List Expr) (space : Workspace) (items : List Expr) (emission : Emission),
      Tidy roots space ∧ (∀ item ∈ items, space.Item item) ∧
      space.emission.complete items tree.returnType lifter.options.inlineTrailing = .ok emission ∧
      tree.statements = emission.statements ∧ tree.declarations = emission.declarations ∧
      tree.returnType = method.returnType.instantiate lifter.context := by
  obtain ⟨task, nextNode, machine, prepared, completed, rfl⟩ := lift_eq_ok lifted
  obtain ⟨unbound, isRoot⟩ := rootTask_parameters prepared
  obtain ⟨-, -, sameOptions, isType, -⟩ := prepare_fields prepared
  have live : (tidiness (task.parameters ++ task.target.toList)).Live
      (lifter.opening task nextNode body) :=
    ⟨tidy_opening isRoot, fun _ _ => trivial, fun _ _ => trivial⟩
  obtain ⟨arrived, stack, emission, tidy, -, completes, rfl⟩ :=
    (tidiness_serves (rootTask_numbers prepared) unbound).runBody tidiness_joins live completed
  refine ⟨_, arrived.workspace, _, emission, tidy, fun item mem => ?_, sameOptions ▸ completes, rfl,
    rfl, isType⟩
  exact tidy.onStack stack item (mem_reverse.1 mem)

/-- A lifted method defines its variables before it uses them. -/
theorem lift_definesBeforeUse {lifter : Lifter} {method : Method} {body : MethodBody}
    {tree : MethodTree} (lifted : lifter.lift method body = .ok tree) : tree.DefinesBeforeUse := by
  obtain ⟨roots, space, items, emission, tidy, isItem, completes, statements, declarations, -⟩ :=
    lift_completes lifted
  exact ((tidy.complete isItem tree.returnType lifter.options.inlineTrailing).of_ok
    completes).definesBeforeUse statements declarations

/-- Keeps the sum of both arguments in a local and multiplies it by itself. -/
def squareOfSum : MethodBody where
  code := [0x02, 0x03, 0x58, 0x0a, 0x06, 0x06, 0x5a, 0x2a]
  locals := [.int32]

/-- The square of a sum has one variable, for the sum. -/
theorem definesBeforeUse_squareOfSum :
    ∃ tree, withoutMembers.lift (.taking .int32 ["a", "b"]) squareOfSum =
        .ok tree ∧
      tree.declarations.length = 1 ∧ (tree.statements.map fun statement =>
        (statement.assigned.length, statement.reads.length)) = [(1, 0), (0, 2)] ∧
      tree.DefinesBeforeUse := by
  have viewed : (withoutMembers.lift (.taking .int32 ["a", "b"])
      squareOfSum).map (fun tree => (tree.declarations.length, tree.statements.map fun statement =>
        (statement.assigned.length, statement.reads.length))) = .ok (1, [(1, 0), (0, 2)]) := by
    decide +kernel
  obtain ⟨tree, lifted, view⟩ := exists_of_map viewed
  exact ⟨tree, lifted, congrArg Prod.fst view, congrArg Prod.snd view, lift_definesBeforeUse lifted⟩

end Lifter

end CilLift
