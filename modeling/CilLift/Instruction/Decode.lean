import CilLift.Bytes

/-! Instructions read from code. Branches that do not go forward are refused here. -/

namespace CilLift

open Cursor

/-- Where a branch goes: a distance from the end of its instruction, as a place in the code. -/
def readTarget (offset : Nat) (distance : Int) : Read Label := do
  let cursor ← get
  let target : Int := cursor.position + distance
  if target ≤ offset then throw (.backwardBranch offset target.toNat)
  else if cursor.data.length < target.toNat then throw .outOfBounds
  else return Label.ofOffset target.toNat

/-- The distances of a jump table with the given number of entries. -/
def readDistances : Nat → Read (List Int32)
  | 0 => return []
  | count + 1 => do
    let distance ← readInt32
    return distance :: (← readDistances count)

/-- A relative operand: branches go to a place in the code, all else keeps the number. -/
def relativeOperand (offset : Nat) (opcode : Opcode) (value : Int32) : Read Operand :=
  if opcode.family = .jump then do
    return .target (← readTarget offset value.toInt)
  else
    return .int value

/-- The operand of the opcode found at `offset`. -/
def readOperand (offset : Nat) (opcode : Opcode) : Read Operand :=
  match opcode.operandKind with
  | .none => return .none
  | .int8 => do relativeOperand offset opcode (← readInt8).toInt32
  | .uint8 => do
    let value ← readUInt8
    match opcode with
    | .unaligned | .noCheck => return .byte value
    | _ => return .slot value.toUInt16
  | .uint16 => do return .slot (← readUInt16)
  | .int32 => do relativeOperand offset opcode (← readInt32)
  | .int64 => do return .long (← readInt64)
  | .float32 => do return .single (← readUInt32)
  | .float64 => do return .double (← readUInt64)
  | .token => do return .token ⟨← readUInt32⟩
  | .switch => do
    let count ← readUInt32
    return .switch (← readDistances count.toNat)

def knownOpcode (offset : Nat) : Option Opcode → Read Opcode
  | some opcode => return opcode
  | none => throw (.unsupportedInstruction "unknown" offset)

def readOpcode (offset : Nat) : Read Opcode := do
  let first ← readUInt8
  if first = Opcode.escapeByte then
    knownOpcode offset (Opcode.ofByte? true (← readUInt8))
  else
    knownOpcode offset (Opcode.ofByte? false first)

def readInstruction : Read Instruction := do
  let offset := (← get).position
  let opcode ← readOpcode offset
  let operand ← readOperand offset opcode
  return { offset, size := (← get).position - offset, opcode, operand }

/-- The instructions of a code up to the first that cannot be read, and why it cannot. -/
structure Listing where
  instructions : List Instruction
  failure : Option Error

namespace Listing

/-- Reads on while bytes are left; an instruction has at least one byte. -/
def readFrom (cursor : Cursor) : Nat → Listing
  | 0 => ⟨[], none⟩
  | limit + 1 =>
    if cursor.hasMore then
      match readInstruction cursor with
      | .ok instruction cursor =>
        let rest := readFrom cursor limit
        ⟨instruction :: rest.instructions, rest.failure⟩
      | .error error _ => ⟨[], some error⟩
    else ⟨[], none⟩

def ofCode (code : List UInt8) : Listing :=
  readFrom { data := code } code.length

end Listing

/-- All instructions of a code, or the first reason why it has none such. -/
def decode (code : List UInt8) : Except Error (List Instruction) :=
  let listing := Listing.ofCode code
  match listing.failure with
  | none => .ok listing.instructions
  | some error => .error error

end CilLift
