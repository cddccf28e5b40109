import CilLift.Machine

/-! Arguments, locals and fields. -/

namespace CilLift

namespace Machine

/-- The value of an argument; the receiver of an instance method comes first. -/
def argument (task : Task) (index : Nat) : Run Expr :=
  let declared (index : Nat) : Run Expr :=
    match task.arguments[index]?, task.parameters[index]? with
    | some (some bound), _ => return bound
    | _, some parameter => return parameter
    | _, none => malformed (.noSuchArgument index task.method)
  match task.target, index with
  | some target, 0 => return target
  | some _, index + 1 => declared index
  | none, index => declared index

/-- Fails unless the path has the local. -/
def requireLocal (stack : StackId) (index : Nat) : Run LocalSlot := do
  match (← get).workspace.slot? stack index with
  | some slot => return slot
  | none => malformed (.noSuchLocal index)

/-- The address of a local is its value, which an unassigned local gets first. -/
def loadAddress (stack : StackId) (index : Nat) : Run Unit := do
  let slot ← requireLocal stack index
  match ← work (Work.readLocal stack index) with
  | some value => push stack value
  | none =>
    let value ← work (Work.place (.zeroOf slot.type))
    work (Work.assignLocal stack index value)
    push stack value

def loadLocal (stack : StackId) (index : Nat) : Run Unit := do
  let _ ← requireLocal stack index
  match ← work (Work.readLocal stack index) with
  | some value => push stack value
  | none => malformed (.localUnassigned index)

def storeLocal (stack : StackId) (index : Nat) : Run Unit := do
  let value ← pop stack "stloc"
  let _ ← requireLocal stack index
  work (Work.assignLocal stack index value)

def runAccess (task : Task) (stack : StackId) (opcode : Opcode) (index : Nat) : Run Unit :=
  match opcode with
  | .ldarg | .ldarga => do push stack (← argument task index)
  | .ldloca => loadAddress stack index
  | .ldloc => loadLocal stack index
  | .stloc => storeLocal stack index
  | other => unsupported other

/-- Stores into a field that the compiler added; a store into a field of a field is dropped. -/
def storeSynthetic (stack : StackId) (opcode : Opcode) (member : Field) : Run Unit := do
  let value ← pop stack "stfld"
  let target ← pop stack "stfld"
  match target with
  | .field .. => return ()
  | .parameter .. | .constant .. | .var .. =>
    let value ← value.coerce member.type
    statement (.mkAssign (.mkField (some target) member) value)
  | _ => unsupported opcode

def runField (stack : StackId) (opcode : Opcode) (member : Field) : Run Unit :=
  match opcode with
  | .ldfld | .ldflda => unary stack "ldfld" fun target => .ok (.mkField (some target) member)
  | .ldsfld | .ldsflda =>
    if member.isSynthetic then push stack (.zeroOf member.type)
    else push stack (.mkField none member)
  | .stsfld => do
    if member.isSynthetic then
      let _ ← pop stack "stsfld"
    else unsupported opcode
  | .stfld => if member.isSynthetic then storeSynthetic stack opcode member else unsupported opcode
  | other => unsupported other

end Machine

end CilLift
