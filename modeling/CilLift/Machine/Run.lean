import CilLift.Emission.Result
import CilLift.Event
import CilLift.Machine.Calls
import CilLift.Machine.Jumps
import CilLift.Machine.Operators
import CilLift.Machine.Types
import CilLift.Machine.Variables

/-! The run of a body, event by event. -/

namespace CilLift

namespace Machine

/-- Starts the run with a path whose locals are unassigned. Temporaries are numbered after the
locals. -/
def begin (task : Task) (types : List TypeSig) : Run Unit := do
  let stem := task.options.variableStem
  let locals := types.mapIdx fun index type =>
    ({ type, name := stem ++ toString index } : LocalSlot)
  work (Work.emit fun emission => ((),
    { stem, nextTemporary := .ofNat types.length, nextNode := emission.nextNode }))
  let root ← work (Work.newRoot locals)
  modify fun machine => { machine with current := some root }

/-- Joins what waits at the end, and completes the statements with what the last path holds. -/
def finish (task : Task) : Run Unit := do
  arriveAt .finish
  let machine ← get
  let lost := machine.waiters.find? fun waiter =>
    !(machine.workspace.stack waiter.2).isReduced
  match lost, machine.current with
  | some waiter, _ => throw (.shape (.pathsNeverJoin waiter.1))
  | none, none => throw (.shape (.endUnreachable task.method))
  | none, some stack =>
    let remaining := (machine.workspace.stack stack).items.reverse
    let emission ←
      machine.workspace.emission.complete remaining task.returnType task.options.inlineTrailing
    work (Work.emit fun _ => ((), emission))

/-- An instruction on the current path, if there is one. -/
def onCurrent (instruction : StackId → Run Unit) : Run Unit := do
  match (← get).current with
  | some stack => instruction stack
  | none => return ()

def step (task : Task) : Event → Run Unit
  | .code => return ()
  | .locals _ types => begin task types
  | .label label => arriveAt label
  | .offset position => modify fun machine => { machine with offset := position }
  | .plain opcode => onCurrent fun stack => runPlain task stack opcode
  | .literal value type => onCurrent fun stack => push stack (.mkConstant value type)
  | .access opcode index => onCurrent fun stack => runAccess task stack opcode index
  | .jump opcode label => onCurrent fun stack => runJump task stack opcode label
  | .field opcode member => onCurrent fun stack => runField stack opcode member
  | .method opcode method => onCurrent fun stack => runMethod task stack opcode method
  | .type opcode type => onCurrent fun stack => runType stack opcode type
  | .finish => finish task

/-- Runs a trace; a failure of the machine comes before the failure that ended the trace. -/
def runTrace (task : Task) (trace : Trace) : Run Unit := do
  trace.events.forM (step task)
  match trace.failure with
  | some error => throw error
  | none => return ()

end Machine

end CilLift
