import CilLift.Ieee.Text
import CilLift.Label
import CilLift.Opcode
import CilLift.Text.Quoted
import CilLift.Token

/-! Instructions: an opcode at an offset, with its operand. -/

namespace CilLift

inductive Operand where
  | none
  | int (value : Int32)
  | long (value : Int64)
  | single (bits : UInt32)
  | double (bits : UInt64)
  /-- The index of an argument or a local. -/
  | slot (index : UInt16)
  | byte (value : UInt8)
  /-- Where a branch goes, as a place in the code. -/
  | target (label : Label)
  | token (token : Token)
  /-- The offsets of a jump table, counted from the end of the instruction. -/
  | switch (offsets : List Int32)
  deriving DecidableEq

namespace Operand

def text : Operand → String
  | .none => ""
  | .int value => toString value.toInt
  | .long value => toString value.toInt
  | .single bits => Ieee.operandLayout.singleText bits
  | .double bits => Ieee.operandLayout.doubleText bits
  | .slot index => toString index.toNat
  | .byte value => toString value.toNat
  | .target label => label.text
  | .token member => member.text
  | .switch offsets => s!"({offsets.length} targets)"

/-- The operand with its kind spelled out. -/
def description : Operand → String
  | .none => "None"
  | .int value => s!"Int({value.toInt})"
  | .long value => s!"Long({value.toInt})"
  | .single bits => s!"Single({Ieee.literalLayout.singleText bits})"
  | .double bits => s!"Double({Ieee.literalLayout.doubleText bits})"
  | .slot index => s!"Var({index.toNat})"
  | .byte value => s!"Byte({value.toNat})"
  | .target label => s!"Target({label.description})"
  | .token member => s!"Token({member.description})"
  | .switch offsets =>
    let items := Text.bracketed (offsets.map fun offset => toString offset.toInt)
    s!"Switch({items})"

end Operand

structure Instruction where
  offset : Nat
  /-- The bytes of opcode and operand. -/
  size : Nat
  opcode : Opcode
  operand : Operand
  deriving DecidableEq

namespace Instruction

def next (instruction : Instruction) : Nat :=
  instruction.offset + instruction.size

def text (instruction : Instruction) : String :=
  let head := "IL_" ++ Text.hex 4 instruction.offset ++ ": " ++ instruction.opcode.mnemonic
  match instruction.operand with
  | .none => head
  | operand => head ++ " " ++ operand.text

end Instruction

end CilLift
