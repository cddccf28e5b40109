import CilLift.Bytes
import CilLift.Power

/-!
Code written instruction by instruction. Branches name their target by a label, and their distances
are filled in when the code is complete.
-/

namespace CilLift

/-- The bytes of an operand after the given opcode. -/
def operandBytes (opcode : Opcode) (operand : Operand) : Except OperandFault (List UInt8) :=
  match opcode.operandKind, operand with
  | .none, .none => .ok []
  | .int8, .int value =>
    if -128 ≤ value.toInt ∧ value.toInt < 128 then
      .ok (littleEndian 1 value.toUInt32.toNat)
    else .error .exceedsInt8
  | .uint8, .slot index =>
    if index.toNat < 256 then .ok (littleEndian 1 index.toNat) else .error .exceedsUInt8
  | .uint8, .byte value => .ok [value]
  | .uint16, .slot index => .ok (littleEndian 2 index.toNat)
  | .int32, .int value => .ok (littleEndian 4 value.toUInt32.toNat)
  | .int64, .long value => .ok (littleEndian 8 value.toUInt64.toNat)
  | .float32, .single bits => .ok (littleEndian 4 bits.toNat)
  | .float64, .double bits => .ok (littleEndian 8 bits.toNat)
  | .token, .token token => .ok (littleEndian 4 token.value.toNat)
  | .switch, .switch offsets =>
    if offsets.length < twoTo 32 then
      .ok (littleEndian 4 offsets.length ++
        offsets.flatMap fun offset => littleEndian 4 offset.toUInt32.toNat)
    else .error .tooManyTargets
  | expected, found => .error (.wrongKind expected found)

/-- A branch whose distance is still to be written. -/
structure Fixup where
  label : String
  /-- Where the distance stands. -/
  position : Nat
  /-- The bytes it takes, one or four. -/
  width : Nat
  mnemonic : String
  deriving DecidableEq

/-- Code under construction. -/
structure Assembler where
  code : List UInt8 := []
  labels : List (String × Nat) := []
  fixups : List Fixup := []
  deriving DecidableEq

/-- Steps of an assembler; what was done before a refusal stays done. -/
abbrev Assembly := EStateM Error Assembler

namespace Assembler

def position (assembler : Assembler) : Nat :=
  assembler.code.length

def write (bytes : List UInt8) : Assembly Unit :=
  modify fun assembler => { assembler with code := assembler.code ++ bytes }

def emit (opcode : Opcode) (operand : Operand) : Assembly Unit :=
  match operandBytes opcode operand with
  | .ok bytes => write (opcode.encoding ++ bytes)
  | .error fault => throw (.invalidOperand opcode.mnemonic fault)

/-- The bytes a branch opcode gives to its distance. -/
def distanceWidth? (opcode : Opcode) : Option Nat :=
  match opcode.operandKind with
  | .int8 => if opcode = .ldcI4S then none else some 1
  | .int32 => if opcode = .ldcI4 then none else some 4
  | _ => none

/-- A branch to a label that may be defined before or after it. -/
def emitBranch (opcode : Opcode) (label : String) : Assembly Unit :=
  match distanceWidth? opcode with
  | none => throw (.invalidOperand opcode.mnemonic .notBranch)
  | some width => do
    write opcode.encoding
    modify fun assembler =>
      let fixup := { label, position := assembler.position, width, mnemonic := opcode.mnemonic }
      { assembler with fixups := assembler.fixups ++ [fixup] }
    write (List.replicate width 0)

def defineLabel (name : String) : Assembly Unit := do
  let assembler ← get
  if (assembler.labels.lookup name).isSome then throw (.duplicateLabel name)
  else set { assembler with labels := (name, assembler.position) :: assembler.labels }

/-- The code with the bytes from `position` on replaced. -/
def patch (code : List UInt8) (position : Nat) (bytes : List UInt8) : List UInt8 :=
  code.take position ++ bytes ++ code.drop (position + bytes.length)

/-- Whether a signed number fits the given number of bytes. -/
def fitsWidth (width : Nat) (value : Int) : Bool :=
  decide (-(twoTo (8 * width - 1) : Int) ≤ value ∧ value < (twoTo (8 * width - 1) : Int))

/-- Writes the distance from the end of a branch to its label. -/
def Fixup.apply (labels : List (String × Nat)) (code : List UInt8) (fixup : Fixup) :
    Except Error (List UInt8) :=
  match labels.lookup fixup.label with
  | none => .error (.undefinedLabel fixup.label)
  | some target =>
    let distance : Int := target - (fixup.position + fixup.width : Nat)
    if fitsWidth fixup.width distance then
      let number := (distance % (twoTo (8 * fixup.width) : Int)).toNat
      .ok (patch code fixup.position (littleEndian fixup.width number))
    else .error (.invalidOperand fixup.mnemonic (.unreachable fixup.label distance))

/-- The finished code. -/
def finalize (assembler : Assembler) : Except Error (List UInt8) :=
  assembler.fixups.foldlM (Fixup.apply assembler.labels) assembler.code

end Assembler

end CilLift
