import CilLift.MethodTree
import CilLift.Options
import CilLift.Paths.Join
import CilLift.Resolver

/-!
The machine that runs a method body on expressions. It follows one path at a time; the others wait
at the labels they jump to and are joined there.
-/

namespace CilLift

/-- Lifts the body of a delegate on the given receiver, with identities from the given number on, and
returns the next free one. -/
abbrev NestedLift := Nat → Method → MethodBody → Option Expr → Except Error (MethodTree × Nat)

/-- What one lifting works on. -/
structure Task where
  resolver : Resolver
  options : Options
  method : Method
  returnType : TypeSig
  parameters : List Expr
  /-- The receiver of an instance method. -/
  target : Option Expr
  /-- Arguments known in advance, by position. -/
  arguments : List (Option Expr)
  liftNested : NestedLift

structure Machine where
  workspace : Workspace := {}
  /-- The path being followed; none in dead code. -/
  current : Option StackId := none
  /-- The parked paths and their labels, in the order of parking. -/
  waiters : List (Label × StackId) := []
  offset : Nat := 0
  notCacheable : Bool := false

abbrev Run := EStateM Error Machine

namespace Machine

/-- The machine before the first event of a body, with identities from `nextNode` on. -/
abbrev initial (nextNode : Nat) : Machine := { workspace := { emission := { nextNode } } }

/-- A step of the workspace. -/
def work {α : Type} (step : Work α) : Run α := fun machine =>
  match step machine.workspace with
  | .ok result workspace => .ok result { machine with workspace }
  | .error error workspace => .error error { machine with workspace }

/-- The failure of an instruction that has no counterpart in an expression. -/
def unsupported {α : Type} (opcode : Opcode) : Run α := do
  throw (.unsupportedInstruction opcode.mnemonic (← get).offset)

def malformed {α : Type} (fault : Nat → ShapeFault) : Run α := do
  throw (.shape (fault (← get).offset))

def push (stack : StackId) (value : Expr) : Run Unit := work (Work.push stack value)

/-- Takes an operand off the stack. -/
def pop (stack : StackId) (consumer : String) : Run Expr := do
  match ← work (Work.pop? stack) with
  | some value =>
    if value.branch?.isSome then malformed (.branchConsumed consumer) else return value
  | none => malformed (.stackUnderflow consumer)

/-- Adds an effect in its place. -/
def statement (effect : Expr) : Run Unit := work do
  let effect ← Work.place effect
  Work.emit fun emission => ((), (emission.track effect).addStatement effect)

/-- Binds a value to a temporary. -/
def materialize (value : Expr) : Run Expr := work <| Work.emit fun emission =>
  let (name, emission) := emission.freshName
  emission.materialize value name

def park (label : Label) (stack : StackId) : Run Unit :=
  modify fun machine => { machine with waiters := machine.waiters ++ [(label, stack)] }

/-- The current path goes to a label; what follows it is dead code. -/
def jumpTo (label : Label) (stack : StackId) : Run Unit := do
  park label stack
  modify fun machine => { machine with current := none }

/-- Forks the current path: it goes on where the test holds and waits at the label elsewhere. -/
def forkAt (label : Label) (stack : StackId) (test : Expr) : Run Unit := do
  let branch ← work (Work.newFork stack test)
  let fork := (← get).workspace.fork branch
  push stack (.mkBranch branch)
  park label fork.onFalse
  modify fun machine => { machine with current := some fork.onTrue }

/-- The paths that meet at a label: those that wait there and have not been absorbed, in the order of
parking, and the current one. -/
def meeting (machine : Machine) (label : Label) : List StackId :=
  (machine.waiters.filterMap fun waiter =>
    if waiter.1 == label && !(machine.workspace.stack waiter.2).isReduced then some waiter.2
    else none) ++ machine.current.toList

/-- The paths waiting at a label become the current one, together with it. -/
def arriveAt (label : Label) : Run Unit := do
  let machine ← get
  if machine.waiters.any fun waiter => waiter.1 == label then
    set { machine with waiters := machine.waiters.filter fun waiter => waiter.1 != label }
    match machine.meeting label with
    | [] => modify fun machine => { machine with current := none }
    | waiting =>
      let joined ← work (Work.join label waiting)
      modify fun machine => { machine with current := some joined }
  else return ()

/-! What most instructions are made of. -/

def binary (stack : StackId) (consumer : String) (build : Expr → Expr → Except Error Expr) :
    Run Unit := do
  let right ← pop stack consumer
  let left ← pop stack consumer
  push stack (← build left right)

def unary (stack : StackId) (consumer : String) (build : Expr → Except Error Expr) :
    Run Unit := do
  let operand ← pop stack consumer
  push stack (← build operand)

/-- The `int32` literal of a node. -/
def int32Literal? : Expr → Option Int
  | .constant _ (.integer .int32 value) => some value
  | _ => none

end Machine

end CilLift
