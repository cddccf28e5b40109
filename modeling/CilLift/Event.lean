import CilLift.Instruction.Decode
import CilLift.Resolver

/-!
A method body as a stream of events: its locals, then every instruction in address order with its
tokens resolved and its form normalised, each branch target announced before the instruction there.
-/

namespace CilLift

inductive Event where
  | code
  | locals (maxStack : Nat) (types : List TypeSig)
  | label (label : Label)
  | offset (position : Nat)
  | plain (opcode : Opcode)
  | literal (value : Constant) (type : TypeSig)
  | access (opcode : Opcode) (index : Nat)
  | jump (opcode : Opcode) (target : Label)
  | field (opcode : Opcode) (field : Field)
  | method (opcode : Opcode) (method : Method)
  | type (opcode : Opcode) (type : TypeSig)
  | finish

def Event.text : Event → String
  | .code => "code"
  | .locals maxStack types =>
    s!"max_stack {maxStack} " ++ Text.bracketed (types.map TypeSig.text)
  | .label target => s!"label {target.text}"
  | .offset position => s!"offset {position}"
  | .plain opcode => s!"insn {opcode.mnemonic}"
  | .literal value valueType => s!"ldc {value.kind} {value.text} {valueType.text}"
  | .access opcode index => s!"var {opcode.mnemonic} {index}"
  | .jump opcode target => s!"jump {opcode.mnemonic} {target.text}"
  | .field opcode member => s!"field {opcode.mnemonic} {member.token.text} {member.name}"
  | .method opcode member => s!"method {opcode.mnemonic} {member.token.text} {member.text}"
  | .type opcode named => s!"type {opcode.mnemonic} {named.text}"
  | .finish => "end"

namespace Instruction

def mismatch (instruction : Instruction) : Error :=
  .shape (.operandMismatch instruction.opcode.mnemonic instruction.operand)

def token (instruction : Instruction) : Except Error Token :=
  match instruction.operand with
  | .token found => .ok found
  | _ => .error instruction.mismatch

/-- What the token of the instruction names. -/
def member (resolver : Resolver) (context : Instantiation) (instruction : Instruction) :
    Except Error (Member × Token) := do
  let token ← instruction.token
  return (← resolver.resolve token context, token)

/-- The value and the type of a loaded literal. -/
def literal (resolver : Resolver) (context : Instantiation) (instruction : Instruction) :
    Except Error (Constant × TypeSig) :=
  match instruction.opcode.impliedInteger? with
  | some value => .ok (.integer .int32 value, .int32)
  | none =>
    match instruction.opcode, instruction.operand with
    | .ldnull, _ => .ok (.null, .object)
    | .ldstr, .token token => do
      let text ← (← resolver.resolve token context).asString token
      return (.string text, .string)
    | _, .int value => .ok (.integer .int32 value.toInt, .int32)
    | _, .long value => .ok (.integer .int64 value.toInt, .integer .int64)
    | _, .single bits => .ok (.single bits, .float32)
    | _, .double bits => .ok (.double bits, .float64)
    | _, _ => .error instruction.mismatch

/-- The long form of a variable access and its slot. -/
def slot (instruction : Instruction) : Except Error (Opcode × Nat) :=
  match instruction.opcode.impliedSlot?, instruction.operand with
  | some implied, _ => .ok implied
  | none, .slot index => .ok (instruction.opcode.longForm, index.toNat)
  | none, _ => .error instruction.mismatch

def target (instruction : Instruction) : Except Error Label :=
  match instruction.operand with
  | .target label => .ok label
  | _ => .error instruction.mismatch

/-- The event of an instruction; those without effect have none. -/
def event (resolver : Resolver) (context : Instantiation) (instruction : Instruction) :
    Except Error (Option Event) :=
  let opcode := instruction.opcode
  match opcode.family with
  | .skipped => .ok none
  | .unsupported =>
    .error (.unsupportedInstruction opcode.mnemonic instruction.offset)
  | .plain | .typedElement => .ok (some (.plain opcode))
  | .literal => do
    let (value, type) ← instruction.literal resolver context
    return some (.literal value type)
  | .access => do
    let (access, index) ← instruction.slot
    return some (.access access index)
  | .jump => do
    return some (.jump opcode.longForm (← instruction.target))
  | .field => do
    let (member, token) ← instruction.member resolver context
    return some (.field opcode (← member.asField token))
  | .method => do
    let (member, token) ← instruction.member resolver context
    return some (.method opcode (← member.asMethod token))
  | .type => do
    let (member, token) ← instruction.member resolver context
    let type ← member.asType token
    return some (.type opcode (type.instantiate context))

/-- The offset that a jump makes a label of. -/
def jumpOffset? (instruction : Instruction) : Option Nat :=
  match instruction.opcode.family, instruction.operand with
  | .jump, .target label => label.offset?
  | _, _ => none

end Instruction

/-- The events of a body up to the first failure, and that failure. -/
structure Trace where
  events : List Event
  failure : Option Error

namespace Trace

def prepend (events : List Event) (trace : Trace) : Trace :=
  { trace with events := events ++ trace.events }

/-- The label at an offset that some jump before it goes to. -/
def announce (labels : List Nat) (offset : Nat) : List Event :=
  if labels.contains offset then [.label (Label.ofOffset offset)] else []

/-- What comes after the last instruction. -/
def closing (labels : List Nat) (length : Nat) : Trace :=
  ⟨announce labels length ++ [.finish], none⟩

/-- Reads and announces one instruction after the other while bytes are left; an instruction has at
least one byte. `labels` holds the targets of the jumps so far, each until it is reached. -/
def readFrom (resolver : Resolver) (context : Instantiation) (labels : List Nat) (cursor : Cursor) :
    Nat → Trace
  | 0 => closing labels cursor.data.length
  | limit + 1 =>
    if cursor.hasMore then
      match readInstruction cursor with
      | .error error _ => ⟨[], some error⟩
      | .ok instruction cursor =>
        let head := announce labels instruction.offset ++ [.offset instruction.offset]
        match instruction.event resolver context with
        | .error error => ⟨head, some error⟩
        | .ok event =>
          let labels := labels.filter (· != instruction.offset)
          prepend (head ++ event.toList)
            (readFrom resolver context (instruction.jumpOffset?.toList ++ labels) cursor limit)
    else closing labels cursor.data.length

def ofBody (resolver : Resolver) (context : Instantiation) (body : MethodBody) : Trace :=
  prepend [.code, .locals body.maxStack (body.locals.map (TypeSig.instantiate context))]
    (readFrom resolver context [] { data := body.code } body.code.length)

end Trace

end CilLift
