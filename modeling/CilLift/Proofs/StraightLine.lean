import CilLift.Proofs.Announcement
import CilLift.Proofs.Returning
import CilLift.Proofs.Valuation

/-!
Straight-line integer code. On the evaluation stack a comparison leaves an integer that any later
instruction can use as a number; the tree of the code has the value that is returned, unless
arithmetic on two conditions leaves something else than zero and one.
-/

namespace CilLift

open Trace Instruction Option

variable {operation : Operation}

inductive Comparison where
  | equal
  | greater
  | less

def Comparison.holds : Comparison → Int32 → Int32 → Bool
  | .equal => fun left right => left == right
  | .greater => fun left right => right < left
  | .less => fun left right => left < right

/-- What an instruction of straight-line code does. -/
inductive Operation where
  | argument (slot : Nat)
  | literal (value : Int)
  | arithmetic (kind : Arithmetic)
  | comparison (kind : Comparison)
  | duplicate
  | leave

namespace Instruction

/-- The slot of an access in long form. -/
def slotOperand? (instruction : Instruction) : Option Nat :=
  match instruction.operand with
  | .slot index => some index.toNat
  | _ => none

def integerOperand? (instruction : Instruction) : Option Int :=
  match instruction.operand with
  | .int value => some value.toInt
  | _ => none

def operation? (instruction : Instruction) : Option Operation :=
  match instruction.opcode with
  | .ldarg0 => some (.argument 0)
  | .ldarg1 => some (.argument 1)
  | .ldarg2 => some (.argument 2)
  | .ldarg3 => some (.argument 3)
  | .ldarg | .ldargS => instruction.slotOperand?.map .argument
  | .ldcI4M1 => some (.literal (-1))
  | .ldcI40 => some (.literal 0)
  | .ldcI41 => some (.literal 1)
  | .ldcI42 => some (.literal 2)
  | .ldcI43 => some (.literal 3)
  | .ldcI44 => some (.literal 4)
  | .ldcI45 => some (.literal 5)
  | .ldcI46 => some (.literal 6)
  | .ldcI47 => some (.literal 7)
  | .ldcI48 => some (.literal 8)
  | .ldcI4 | .ldcI4S => instruction.integerOperand?.map .literal
  | .add => some (.arithmetic .add)
  | .sub => some (.arithmetic .subtract)
  | .mul => some (.arithmetic .multiply)
  | .ceq => some (.comparison .equal)
  | .cgt => some (.comparison .greater)
  | .clt => some (.comparison .less)
  | .dup => some .duplicate
  | .ret => some .leave
  | _ => none

end Instruction

/-- How values are held on a stack. -/
structure Values (α : Type) where
  number : Int32 → α
  combine : (Int32 → Int32 → Int32) → α → α → α
  compare : (Int32 → Int32 → Bool) → α → α → α

/-- The stack of the machine: a condition is the integer one or zero. -/
def Values.words : Values Int32 where
  number := id
  combine compute := compute
  compare holds left right := wordOf (holds left right)

/-- The stack of a tree: a condition stays one as long as it meets conditions only. -/
def Values.cells : Values Cell where
  number := .number
  combine := Cell.combine
  compare holds left right := .condition (holds left.word right.word)

namespace Operation

variable {α : Type} (values : Values α) (arguments : Nat → Int32)

/-- The stack after an operation, top first, if the operands are there. -/
def perform : Operation → List α → Option (List α)
  | .argument slot, stack => some (values.number (arguments slot) :: stack)
  | .literal value, stack => some (values.number (Int32.ofInt value) :: stack)
  | .arithmetic kind, right :: left :: rest =>
    some (values.combine kind.compute left right :: rest)
  | .comparison kind, right :: left :: rest =>
    some (values.compare kind.holds left right :: rest)
  | .duplicate, top :: rest => some (top :: top :: rest)
  | _, _ => none

/-- What the first return gives, if it finds one value. -/
def returned? : List Operation → List α → Option α
  | [], _ => none
  | .leave :: _, [result] => some result
  | operation :: rest, stack => do returned? rest (← operation.perform values arguments stack)

/-- Arithmetic on two conditions leaves zero or one. -/
def isExact : Operation → List Cell → Bool
  | .arithmetic kind, .condition right :: .condition left :: _ =>
    [0, 1].contains (kind.compute (wordOf left) (wordOf right))
  | _, _ => true

/-- Up to the first return, all arithmetic on two conditions leaves zero or one. -/
def staysExact : List Operation → List Cell → Bool
  | [], _ => true
  | operation :: rest, stack =>
    operation.isExact stack &&
      match operation.perform .cells arguments stack with
      | some next => staysExact rest next
      | none => true

/-- The event by which the operation is announced. -/
def event : Operation → Event
  | .argument slot => .access .ldarg slot
  | .literal value => .literal (.integer .int32 value) .int32
  | .arithmetic kind => .plain kind.opcode
  | .comparison .equal => .plain .ceq
  | .comparison .greater => .plain .cgt
  | .comparison .less => .plain .clt
  | .duplicate => .plain .dup
  | .leave => .plain .ret

variable {arguments} {cells : List Cell}

theorem returned?_leave {values : Values α} {rest : List Operation} {stack : List α} {result : α} :
    returned? values arguments (.leave :: rest) stack = some result ↔ stack = [result] := by
  match stack with
  | [] | _ :: _ :: _ => simp [returned?, perform]
  | [_] => simp [returned?]

theorem returned?_of_ne_leave {values : Values α} {rest : List Operation} {stack : List α}
    (goesOn : operation ≠ .leave) :
    returned? values arguments (operation :: rest) stack =
      (operation.perform values arguments stack).bind (returned? values arguments rest) := by
  cases operation with
  | leave => exact absurd rfl goesOn
  | _ => rfl

/-- The two stacks grow and shrink alike. -/
theorem exists_perform_cells {stack after : List Int32} (sameHeight : cells.length = stack.length)
    (performed : operation.perform .words arguments stack = some after) :
    ∃ next, operation.perform .cells arguments cells = some next ∧ next.length = after.length := by
  cases operation with
  | argument | literal =>
    cases performed
    exact ⟨_, rfl, congrArg (· + 1) sameHeight⟩
  | arithmetic | comparison =>
    match stack, cells with
    | [], _ | [_], _ => cases performed
    | _ :: _ :: _, [] | _ :: _ :: _, [_] => cases sameHeight
    | _ :: _ :: _, _ :: _ :: _ =>
      cases performed
      exact ⟨_, rfl, Nat.succ.inj sameHeight⟩
  | duplicate =>
    match stack, cells with
    | [], _ => cases performed
    | _ :: _, [] => cases sameHeight
    | _ :: _, _ :: _ =>
      cases performed
      exact ⟨_, rfl, congrArg (· + 1) sameHeight⟩
  | leave => cases performed

/-- Where the machine returns something, so does the stack of a tree. -/
theorem exists_returned?_cells {operations : List Operation} {stack : List Int32} {word : Int32}
    (sameHeight : cells.length = stack.length)
    (returns : returned? .words arguments operations stack = some word) :
    ∃ cell, returned? .cells arguments operations cells = some cell := by
  induction operations generalizing stack cells with
  | nil => cases returns
  | cons operation rest ih =>
    by_cases isLeave : operation = .leave
    · subst isLeave
      rw [returned?_leave.1 returns] at sameHeight
      obtain ⟨cell, rfl⟩ := List.length_eq_one_iff.1 sameHeight
      exact ⟨cell, returned?_leave.2 rfl⟩
    · rw [returned?_of_ne_leave isLeave] at returns ⊢
      obtain ⟨after, performed, returns⟩ := bind_eq_some_iff.1 returns
      obtain ⟨next, isNext, sameHeight⟩ := exists_perform_cells sameHeight performed
      rw [isNext]
      exact ih sameHeight returns

theorem combine_word_of_isExact {kind : Arithmetic} {first second : Cell} {rest : List Cell}
    (exact : (arithmetic kind).isExact (second :: first :: rest) = true) :
    (Cell.combine kind.compute first second).word = kind.compute first.word second.word := by
  cases first with
  | number => cases second <;> rfl
  | condition left =>
    cases second with
    | number => rfl
    | condition right =>
      have isBit : kind.compute (wordOf left) (wordOf right) = 0 ∨
          kind.compute (wordOf left) (wordOf right) = 1 := by
        simpa [isExact] using exact
      change wordOf (kind.compute (wordOf left) (wordOf right) != 0) =
        kind.compute (wordOf left) (wordOf right)
      rcases isBit with isZero | isOne
      · rw [isZero]
        rfl
      · rw [isOne]
        rfl

/-- An exact operation does on both stacks the same. -/
theorem perform_words {cells next : List Cell}
    (performed : operation.perform .cells arguments cells = some next)
    (exact : operation.isExact cells = true) :
    operation.perform .words arguments (cells.map Cell.word) = some (next.map Cell.word) := by
  cases operation with
  | argument | literal =>
    cases performed
    rfl
  | arithmetic kind =>
    match cells with
    | [] | [_] => cases performed
    | second :: first :: rest =>
      cases performed
      have isWord := combine_word_of_isExact exact
      exact congrArg (fun word => some (word :: rest.map Cell.word)) isWord.symm
  | comparison =>
    match cells with
    | [] | [_] => cases performed
    | _ :: _ :: _ =>
      cases performed
      rfl
  | duplicate =>
    match cells with
    | [] => cases performed
    | _ :: _ =>
      cases performed
      rfl
  | leave => cases performed

/-- If all arithmetic on conditions leaves zero or one, both stacks return the same. -/
theorem returned?_words {operations : List Operation} {cell : Cell}
    (returns : returned? .cells arguments operations cells = some cell)
    (exact : staysExact arguments operations cells = true) :
    returned? .words arguments operations (cells.map Cell.word) = some cell.word := by
  induction operations generalizing cells with
  | nil => cases returns
  | cons operation rest ih =>
    by_cases isLeave : operation = .leave
    · subst isLeave
      rw [returned?_leave.1 returns]
      exact returned?_leave.2 rfl
    · rw [returned?_of_ne_leave isLeave] at returns ⊢
      obtain ⟨next, performed, returns⟩ := bind_eq_some_iff.1 returns
      rw [staysExact, performed, Bool.and_eq_true] at exact
      rw [perform_words performed exact.1]
      exact ih returns exact.2

end Operation

theorem Instruction.event_of_operation? {instruction : Instruction}
    (isOperation : instruction.operation? = some operation) (resolver : Resolver)
    (context : Instantiation) :
    instruction.event resolver context = .ok (some operation.event) ∧ instruction.jumpOffset? = none := by
  obtain ⟨offset, size, opcode, operand⟩ := instruction
  unfold operation? at isOperation
  split at isOperation
  case h_27 => cases isOperation
  case h_5 isOpcode | h_6 isOpcode | h_17 isOpcode | h_18 isOpcode =>
    cases isOpcode
    cases operand <;> cases isOperation
    exact ⟨rfl, rfl⟩
  all_goals
    rename_i isOpcode
    cases isOpcode
    cases isOperation
    exact ⟨rfl, rfl⟩

namespace Trace

variable {resolver : Resolver} {context : Instantiation}

/-- The events of straight-line code, which has no labels. -/
def ofOperations (entries : List (Instruction × Operation)) : List Event :=
  entries.flatMap fun entry => [.offset entry.1.offset, entry.2.event]

theorem streamed_operations (length : Nat) {entries : List (Instruction × Operation)}
    (areOperations : ∀ entry ∈ entries, entry.1.operation? = some entry.2) :
    streamed resolver context length none [] (entries.map Prod.fst) =
      ⟨ofOperations entries ++ [.finish], none⟩ := by
  induction entries with
  | nil => rfl
  | cons entry rest ih =>
    obtain ⟨isEvent, noJump⟩ := event_of_operation?
      (areOperations entry List.mem_cons_self) resolver context
    have later := ih fun found mem =>
      areOperations found (List.mem_cons_of_mem _ mem)
    rw [List.map_cons, streamed, isEvent, noJump]
    change prepend _ (streamed resolver context length none [] (rest.map Prod.fst)) = _
    rw [later]
    rfl

end Trace

/-- The parameters of a task are all integers, and nothing else is known. -/
structure Task.TakesIntegers (task : Task) : Prop where
  target : task.target = none
  arguments : task.arguments = []
  parameter : ∀ index node, task.parameters[index]? = some node →
    node.id?.isSome = true ∧ ∃ header name, node = Expr.parameter header index name ∧ header.type = .int32

theorem Task.TakesIntegers.argument_eq_ok {task : Task} (takes : task.TakesIntegers) {slot : Nat}
    {node : Expr} {machine next : Machine}
    (loaded : Machine.argument task slot machine = .ok node next) :
    task.parameters[slot]? = some node ∧ machine = next := by
  unfold Machine.argument at loaded
  rw [takes.target, takes.arguments] at loaded
  dsimp only [List.getElem?_nil] at loaded
  cases found : task.parameters[slot]? with
  | none =>
    rw [found] at loaded
    cases loaded
  | some parameter =>
    rw [found] at loaded
    cases loaded
    exact ⟨rfl, rfl⟩

/-- The machine follows its only path, which holds trees for what a stack holds. -/
structure Machine.Computes (machine : Machine) (path : StackId) (arguments : Nat → Int32)
    (cells : List Cell) : Prop where
  current : machine.current = some path
  inside : path < machine.workspace.paths.length
  active : (machine.workspace.stack path).isReduced = false
  items : List.Forall₂ (Expr.Denotes arguments) (machine.workspace.stack path).items cells
  placed : ∀ item ∈ (machine.workspace.stack path).items, item.id?.isSome = true
  waiters : machine.waiters = []
  statements : machine.workspace.emission.statements = []
  declarations : machine.workspace.emission.declarations = []

namespace Machine.Computes

variable {machine next : Machine} {path : StackId} {arguments : Nat → Int32}
  {cells rest : List Cell} {task : Task}

section

variable (computes : machine.Computes path arguments cells)

include computes

theorem withTop {value : Expr} {cell : Cell} {items : List Expr}
    (denotes : value.Denotes arguments cell)
    (below : List.Forall₂ (Expr.Denotes arguments) items rest)
    (isPart : items ⊆ (machine.workspace.stack path).items) :
    (machine.withTop path value items).Computes path arguments (cell :: rest) := by
  obtain ⟨identity, isPlaced, -⟩ := value.exists_id_place machine.workspace.emission.nextNode
  have isStack := machine.workspace.stack_withTop path path value items
  rw [if_pos ⟨rfl, computes.inside⟩] at isStack
  refine ⟨computes.current, ?_, ?_, ?_, ?_, computes.waiters, computes.statements, computes.declarations⟩
  · rw [Machine.withTop, Workspace.length_withTop]
    exact computes.inside
  · rw [Machine.withTop, isStack]
    exact computes.active
  · rw [Machine.withTop, isStack]
    exact .cons (denotes.place _) below
  · rw [Machine.withTop, isStack]
    intro item mem
    rcases List.mem_cons.1 mem with rfl | mem
    · exact isSome_iff_exists.2 ⟨identity, isPlaced⟩
    · exact computes.placed item (isPart mem)

theorem pushes {value : Expr} {cell : Cell} (denotes : value.Denotes arguments cell)
    (pushed : push path value machine = .ok () next) :
    next.Computes path arguments (cell :: cells) := by
  rw [push_eq] at pushed
  cases pushed
  exact computes.withTop denotes computes.items (List.Subset.refl _)

/-- An operation on two values of the stack. -/
theorem binary {consumer : String} {build : Expr → Expr → Except Error Expr}
    {outcome : Cell → Cell → Cell}
    (builds : ∀ {left right result : Expr} {first second : Cell}, left.Denotes arguments first →
      right.Denotes arguments second → build left right = .ok result →
      result.Denotes arguments (outcome first second))
    (performed : binary path consumer build machine = .ok () next) :
    ∃ first second rest, cells = second :: first :: rest ∧
      next.Computes path arguments (outcome first second :: rest) := by
  obtain ⟨right, left, below, value, found, -, -, built, rfl⟩ := binary_eq_ok.1 performed
  have items := computes.items
  rw [found] at items
  cases items with
  | cons isRight items =>
    cases items with
    | cons isLeft items =>
      refine ⟨_, _, _, rfl, computes.withTop (builds isLeft isRight built) items ?_⟩
      rw [found]
      exact fun item mem => .tail _ (.tail _ mem)

/-- An integer is repeated as it is. -/
theorem duplicate (performed : duplicate task path machine = .ok () next) :
    ∃ top rest, cells = top :: rest ∧ next.Computes path arguments (top :: cells) := by
  obtain ⟨_, _, isState, performed⟩ := andThen_eq_ok.1 performed
  cases isState
  have items := computes.items
  cases found : (machine.workspace.stack path).items with
  | nil =>
    rw [found] at performed
    cases performed
  | cons top below =>
    rw [found] at items performed
    cases items with
    | @cons _ cell _ rest isTop isBelow =>
      have noCalls := Expr.hasCalls_of_evaluate task.options.isPureCall isTop.value
      dsimp only at performed
      split at performed
      · exact ⟨cell, rest, rfl, computes.pushes isTop performed⟩
      · rw [noCalls] at performed
        exact ⟨cell, rest, rfl, computes.pushes isTop performed⟩

/-- One operation of straight-line code: the path holds trees for the stack after it. -/
theorem performs (takes : task.TakesIntegers)
    (performed : operation.perform .cells arguments cells = some rest)
    (stepped : step task operation.event machine = .ok () next) :
    next.Computes path arguments rest := by
  cases operation with
  | argument slot =>
    cases performed
    change onCurrent (fun stack => runAccess task stack .ldarg slot) machine = .ok () next at stepped
    rw [onCurrent_eq _ computes.current] at stepped
    obtain ⟨node, _, loaded, pushed⟩ := andThen_eq_ok.1 stepped
    obtain ⟨isParameter, rfl⟩ := takes.argument_eq_ok loaded
    obtain ⟨-, header, name, rfl, isType⟩ := takes.parameter slot node isParameter
    have denotes : (Expr.parameter header slot name).Denotes arguments (.number (arguments slot)) :=
      ⟨rfl, isType, nofun⟩
    exact computes.pushes denotes pushed
  | literal value =>
    cases performed
    change onCurrent (fun stack => push stack (.mkConstant (.integer .int32 value) .int32)) machine =
      .ok () next at stepped
    rw [onCurrent_eq _ computes.current] at stepped
    exact computes.pushes ⟨rfl, rfl, nofun⟩ stepped
  | arithmetic kind =>
    obtain ⟨first, second, below, rfl, after⟩ : ∃ first second below,
        cells = second :: first :: below ∧
          next.Computes path arguments (Cell.combine kind.compute first second :: below) := by
      obtain ⟨consumer, isOperation⟩ := kind.stackOperation?_opcode
      rw [Operation.event, step_plain computes.current isOperation] at stepped
      exact computes.binary (Expr.numeric_denotes kind.compute?_operator) stepped
    cases performed
    exact after
  | comparison kind =>
    obtain ⟨first, second, below, rfl, after⟩ : ∃ first second below,
        cells = second :: first :: below ∧
          next.Computes path arguments (.condition (kind.holds first.word second.word) :: below) := by
      cases kind <;> rw [Operation.event, step_plain computes.current rfl] at stepped
      · exact computes.binary Expr.equal_denotes stepped
      · exact computes.binary (Expr.numericComparison_denotes fun _ _ => rfl) stepped
      · exact computes.binary (Expr.numericComparison_denotes fun _ _ => rfl) stepped
    cases performed
    exact after
  | duplicate =>
    rw [Operation.event, step_plain computes.current rfl] at stepped
    obtain ⟨top, below, rfl, after⟩ := computes.duplicate stepped
    cases performed
    exact after
  | leave => cases performed

theorem atOffset (offset : Nat) : { machine with offset }.Computes path arguments cells :=
  ⟨computes.current, computes.inside, computes.active, computes.items, computes.placed,
    computes.waiters, computes.statements, computes.declarations⟩

end

end Machine.Computes

/-- A path has returned: it waits for the end with one tree for what is returned. -/
structure Machine.Returns (machine : Machine) (path : StackId) (arguments : Nat → Int32)
    (cell : Cell) : Prop where
  current : machine.current = none
  active : (machine.workspace.stack path).isReduced = false
  item : ∃ item, (machine.workspace.stack path).items = [item] ∧ item.id?.isSome = true ∧
    item.Denotes arguments cell
  waiters : machine.waiters = [(.finish, path)]
  statements : machine.workspace.emission.statements = []
  declarations : machine.workspace.emission.declarations = []

namespace Machine

variable {machine next : Machine} {path : StackId} {arguments : Nat → Int32} {cells : List Cell}
  {cell : Cell} {task : Task}

theorem Computes.leave (computes : machine.Computes path arguments [cell])
    (stepped : step task Operation.leave.event machine = .ok () next) :
    next.Returns path arguments cell := by
  rw [Operation.event, step_plain computes.current rfl] at stepped
  cases stepped
  have items := computes.items
  have placed := computes.placed
  cases found : (machine.workspace.stack path).items with
  | nil =>
    rw [found] at items
    cases items
  | cons item below =>
    rw [found] at items placed
    cases items with
    | cons isItem isBelow =>
      cases isBelow
      exact ⟨rfl, computes.active, ⟨item, found, placed item List.mem_cons_self, isItem⟩,
        congrArg (· ++ [(Label.finish, path)]) computes.waiters, computes.statements,
        computes.declarations⟩

theorem Returns.atOffset (returns : machine.Returns path arguments cell) (offset : Nat) :
    { machine with offset }.Returns path arguments cell :=
  ⟨returns.current, returns.active, returns.item, returns.waiters, returns.statements,
    returns.declarations⟩

theorem step_dead (isDead : machine.current = none) :
    step task operation.event machine = .ok () machine := by
  have skips (instruction : StackId → Run Unit) : onCurrent instruction machine = .ok () machine := by
    refine (andThen_of_ok rfl).trans ?_
    rw [isDead]
    rfl
  cases operation with
  | comparison kind => cases kind <;> exact skips _
  | _ => exact skips _

theorem operations_cons {instruction : Instruction} {entries : List (Instruction × Operation)}
    (passed : (ofOperations ((instruction, operation) :: entries)).forM (step task) machine =
      .ok () next) :
    ∃ after, step task operation.event { machine with offset := instruction.offset } =
        .ok () after ∧ (ofOperations entries).forM (step task) after = .ok () next := by
  obtain ⟨⟨⟩, _, isOffset, passed⟩ := andThen_eq_ok.1 passed
  obtain ⟨⟨⟩, after, stepped, later⟩ := andThen_eq_ok.1 passed
  cases isOffset
  exact ⟨after, stepped, later⟩

theorem Returns.operations (returns : machine.Returns path arguments cell)
    (entries : List (Instruction × Operation))
    (passed : (ofOperations entries).forM (step task) machine = .ok () next) :
    next.Returns path arguments cell := by
  induction entries generalizing machine with
  | nil =>
    cases passed
    exact returns
  | cons entry rest ih =>
    obtain ⟨after, stepped, later⟩ := operations_cons passed
    have here := returns.atOffset entry.1.offset
    rw [step_dead here.current] at stepped
    cases stepped
    exact ih here later

/-- The run of straight-line code comes to its return with a tree for what is returned. -/
theorem Computes.operations (computes : machine.Computes path arguments cells)
    (takes : task.TakesIntegers) (entries : List (Instruction × Operation))
    (passed : (ofOperations entries).forM (step task) machine = .ok () next)
    (returns : Operation.returned? .cells arguments (entries.map Prod.snd) cells = some cell) :
    next.Returns path arguments cell := by
  induction entries generalizing machine cells with
  | nil => cases returns
  | cons entry rest ih =>
    obtain ⟨instruction, operation⟩ := entry
    obtain ⟨after, stepped, later⟩ := operations_cons passed
    have here := computes.atOffset instruction.offset
    by_cases isLeave : operation = .leave
    · subst isLeave
      cases Operation.returned?_leave.1 returns
      exact (here.leave stepped).operations rest later
    · rw [List.map_cons, Operation.returned?_of_ne_leave isLeave] at returns
      obtain ⟨stack, performed, returns⟩ := bind_eq_some_iff.1 returns
      exact ih (here.performs takes performed stepped) later returns

theorem opening_computes (task : Task) (types : List TypeSig) (nextNode : Nat)
    (arguments : Nat → Int32) : (opening task types nextNode).Computes 0 arguments [] :=
  ⟨rfl, zero_lt_one, rfl, .nil, nofun, rfl, rfl, rfl⟩

end Machine

/-- A static method with integers only. -/
structure Method.OnIntegers (method : Method) : Prop where
  isStatic : method.isStatic = true
  parameters : ∀ parameter ∈ method.parameters, parameter.type = .int32
  returns : method.returnType = .int32

namespace Lifter

variable {lifter : Lifter} {method : Method} {body : MethodBody} {tree : MethodTree}
  {task : Task} {nextNode : Nat} {operations : List Operation}

theorem rootTask_takesIntegers (prepared : lifter.rootTask method = .ok (task, nextNode))
    (onIntegers : method.OnIntegers) : task.TakesIntegers ∧ task.returnType = .int32 := by
  obtain ⟨noTarget, noArguments, isType, parameters⟩ := rootTask_static prepared onIntegers.isStatic
  refine ⟨⟨noTarget, noArguments, fun index node found => ?_⟩, ?_⟩
  · obtain ⟨start, isNode⟩ := parameters index
    rw [found] at isNode
    obtain ⟨parameter, isParameter, rfl⟩ := map_eq_some_iff.1 isNode.symm
    have isInteger := onIntegers.parameters parameter (List.mem_of_getElem? isParameter)
    unfold parameterNode
    rw [isInteger]
    exact ⟨rfl, _, _, rfl, rfl⟩
  · rw [isType, onIntegers.returns]
    rfl

theorem exists_entries {instructions : List Instruction}
    (areOperations : instructions.mapM operation? = some operations) :
    ∃ entries : List (Instruction × Operation), entries.map Prod.fst = instructions ∧
      entries.map Prod.snd = operations ∧
      ∀ entry ∈ entries, entry.1.operation? = some entry.2 := by
  induction instructions generalizing operations with
  | nil =>
    cases areOperations
    exact ⟨[], rfl, rfl, fun entry mem => absurd mem List.not_mem_nil⟩
  | cons instruction rest ih =>
    rw [List.mapM_cons] at areOperations
    obtain ⟨operation, isOperation, areOperations⟩ := bind_eq_some_iff.1 areOperations
    obtain ⟨others, areOthers, isList⟩ := bind_eq_some_iff.1 areOperations
    cases isList
    obtain ⟨entries, rfl, rfl, areEntries⟩ := ih areOthers
    exact ⟨(instruction, operation) :: entries, rfl, rfl,
      List.forall_mem_cons.2 ⟨isOperation, areEntries⟩⟩

/-- The run of a straight-line body comes to its return. -/
theorem Passage.returns {machine : Machine} (passage : lifter.Passage task nextNode body machine)
    (takes : task.TakesIntegers) {instructions : List Instruction}
    (listed : decode body.code = .ok instructions)
    (areOperations : instructions.mapM operation? = some operations) {arguments : Nat → Int32}
    {cell : Cell} (returns : Operation.returned? .cells arguments operations [] = some cell) :
    passage.passed.Returns 0 arguments cell := by
  obtain ⟨entries, rfl, rfl, areEntries⟩ := exists_entries areOperations
  obtain ⟨isComplete, isListing⟩ := decode_eq_ok listed
  have isTrace : readFrom lifter.resolver lifter.context [] { data := body.code }
      body.code.length = ⟨ofOperations entries ++ [.finish], none⟩ := by
    rw [readFrom_eq_streamed]
    change streamed _ _ _ (Listing.ofCode body.code).failure []
      (Listing.ofCode body.code).instructions = _
    rw [isComplete, isListing]
    exact streamed_operations _ areEntries
  have isBody := passage.isBody
  rw [trace, ofBody, isTrace] at isBody
  have sameEvents := List.cons.inj (List.cons.inj (congrArg events isBody)).2
  have isInner : passage.inner = ofOperations entries :=
    (List.append_cancel_right sameEvents.2).symm
  have steps := passage.steps
  rw [isInner] at steps
  exact (Machine.opening_computes ..).operations takes entries steps returns

/-- The tree of a method that has returned one integer. -/
theorem Passage.evaluates {machine : Machine} (passage : lifter.Passage task nextNode body machine)
    (returnsInteger : task.returnType = .int32) {arguments : Nat → Int32} {cell : Cell}
    (returns : passage.passed.Returns 0 arguments cell) :
    (treeOf task machine).body.evaluate arguments = some cell.word := by
  obtain ⟨item, isItem, isPlaced, denotes⟩ := returns.item
  have arrives := passage.arrives
  rw [Machine.arriveAt_single returns.waiters returns.current returns.active] at arrives
  have isArrived := (EStateM.Result.ok.inj arrives).2
  have isCurrent := passage.isCurrent
  have completes := passage.completes
  rw [← isArrived] at isCurrent completes
  have isValue : item.isVoid = false := by
    rw [Expr.isVoid, denotes.type]
    cases cell <;> rfl
  rw [← some.inj isCurrent, isItem, List.reverse_singleton, returnsInteger,
    Emission.complete_singleton _ returns.statements isPlaced isValue rfl] at completes
  cases coerced : item.coerce .int32 with
  | error =>
    rw [coerced] at completes
    cases completes
  | ok result =>
    rw [coerced] at completes
    have isEmission := Except.ok.inj completes
    have isFinal : machine.workspace.emission = passage.emission :=
      congrArg (fun machine => machine.workspace.emission) passage.isMachine
    have isBody : (treeOf task machine).body = (passage.passed.workspace.emission.place result).1 := by
      unfold treeOf MethodTree.body
      rw [isFinal, ← isEmission]
      dsimp only [Emission.place]
      rw [returns.declarations]
    rw [isBody]
    exact (Expr.evaluate_place _ _).trans (denotes.coerce_int32 coerced).1

/-- A straight-line method that returns something is lifted to a tree with the value that the
instructions leave if arithmetic on two conditions gives a condition; this is what is returned, if
all such arithmetic leaves zero or one. -/
theorem lift_evaluates_straightLine {instructions : List Instruction} {operations : List Operation}
    {arguments : Nat → Int32} {word : Int32} (lifted : lifter.lift method body = .ok tree)
    (onIntegers : method.OnIntegers) (listed : decode body.code = .ok instructions)
    (areOperations : instructions.mapM operation? = some operations)
    (returns : Operation.returned? .words arguments operations [] = some word) :
    ∃ cell, Operation.returned? .cells arguments operations [] = some cell ∧
      tree.body.evaluate arguments = some cell.word ∧
      (Operation.staysExact arguments operations [] = true → cell.word = word) := by
  obtain ⟨task, nextNode, machine, prepared, completed, rfl⟩ := lift_eq_ok lifted
  obtain ⟨passage⟩ := exists_passage completed
  obtain ⟨takes, returnsInteger⟩ := rootTask_takesIntegers prepared onIntegers
  have sameHeight : ([] : List Cell).length = ([] : List Int32).length := rfl
  obtain ⟨cell, isCell⟩ := Operation.exists_returned?_cells sameHeight returns
  have hasReturned := passage.returns takes listed areOperations isCell
  refine ⟨cell, isCell, passage.evaluates returnsInteger hasReturned, fun exact => ?_⟩
  have same := Operation.returned?_words isCell exact
  rw [List.map_nil, returns] at same
  exact (some.inj same).symm

/-- The operations of a straight-line body. -/
def operationsOf? (body : MethodBody) : Option (List Operation) := do
  (← (decode body.code).toOption).mapM operation?

theorem exists_instructions (areOperations : operationsOf? body = some operations) :
    ∃ instructions, decode body.code = .ok instructions ∧
      instructions.mapM operation? = some operations := by
  obtain ⟨instructions, listed, areOperations⟩ := bind_eq_some_iff.1 areOperations
  cases decoded : decode body.code with
  | error error =>
    rw [decoded] at listed
    cases listed
  | ok found =>
    rw [decoded] at listed
    cases listed
    exact ⟨instructions, rfl, areOperations⟩

/-- Three and five. -/
def threeAndFive (slot : Nat) : Int32 := if slot = 0 then 3 else 5

/-- Adds the first argument to the outcome of a comparison, multiplies the sum by itself and asks
whether the product is not zero. -/
def comparisonAsNumber : MethodBody where
  code := [0x02, 0x03, 0xfe, 0x04, 0x02, 0x58, 0x25, 0x5a, 0x16, 0xfe, 0x01, 0x16, 0xfe, 0x01, 0x2a]

/-- The outcome of a comparison meets a number, and is one there. -/
theorem comparisonAsNumber_evaluates :
    ∃ tree operations,
      withoutMembers.lift (.taking .int32 ["a", "b"]) comparisonAsNumber = .ok tree ∧
      operationsOf? comparisonAsNumber = some operations ∧
      Operation.returned? .words threeAndFive operations [] = some 1 ∧
      Operation.staysExact threeAndFive operations [] = true ∧
      tree.text = "(a, b) => ((((((a < b) ? 1 : 0) + a) * (((a < b) ? 1 : 0) + a)) != 0) ? 1 : 0)" ∧
      tree.body.evaluate threeAndFive = some 1 := by
  have viewed : (withoutMembers.lift (.taking .int32 ["a", "b"])
      comparisonAsNumber).map MethodTree.text = .ok
        "(a, b) => ((((((a < b) ? 1 : 0) + a) * (((a < b) ? 1 : 0) + a)) != 0) ? 1 : 0)" := by
    decide +kernel
  have returned : (operationsOf? comparisonAsNumber).map (fun operations =>
      (Operation.returned? .words threeAndFive operations [],
        Operation.staysExact threeAndFive operations [])) = some (some 1, true) := by
    decide +kernel
  have onIntegers : (Method.taking .int32 ["a", "b"]).OnIntegers := ⟨rfl, by decide, rfl⟩
  obtain ⟨tree, lifted, view⟩ := exists_of_map viewed
  obtain ⟨operations, areOperations, outcome⟩ := map_eq_some_iff.1 returned
  obtain ⟨returns, exact⟩ := Prod.mk.inj outcome
  obtain ⟨instructions, listed, isMapped⟩ := exists_instructions areOperations
  obtain ⟨cell, -, evaluates, same⟩ :=
    lift_evaluates_straightLine lifted onIntegers listed isMapped returns
  rw [same exact] at evaluates
  exact ⟨tree, operations, lifted, areOperations, returns, exact, view, evaluates⟩

/-- Adds the outcome of a comparison to itself. -/
def twiceComparison : MethodBody where
  code := [0x02, 0x03, 0xfe, 0x04, 0x25, 0x58, 0x2a]

/-- The sum of two conditions that hold is two, but one in the tree. -/
theorem twiceComparison_loses_sum :
    ∃ tree operations,
      withoutMembers.lift (.taking .int32 ["a", "b"]) twiceComparison = .ok tree ∧
      operationsOf? twiceComparison = some operations ∧
      Operation.returned? .words threeAndFive operations [] = some 2 ∧
      tree.text = "(a, b) => (((a < b) + (a < b)) ? 1 : 0)" ∧
      tree.body.evaluate threeAndFive = some 1 := by
  have viewed : (withoutMembers.lift (.taking .int32 ["a", "b"])
      twiceComparison).map (fun tree => (tree.text, tree.body.evaluate threeAndFive)) =
      .ok ("(a, b) => (((a < b) + (a < b)) ? 1 : 0)", some 1) := by
    decide +kernel
  have returned : (operationsOf? twiceComparison).map (fun operations =>
      Operation.returned? .words threeAndFive operations []) = some (some 2) := by
    decide +kernel
  obtain ⟨tree, lifted, view⟩ := exists_of_map viewed
  obtain ⟨operations, areOperations, returns⟩ := map_eq_some_iff.1 returned
  exact ⟨tree, operations, lifted, areOperations, returns, congrArg Prod.fst view, congrArg Prod.snd view⟩

end Lifter

end CilLift
