/-! The instruction set: names, encodings, operand kinds and families of all opcodes. -/

namespace CilLift

/-- How an operand is laid out after its opcode. -/
inductive OperandKind where
  | none
  | int8
  | uint8
  | uint16
  | int32
  | int64
  | float32
  | float64
  | token
  | switch
  deriving DecidableEq, Repr

def OperandKind.name : OperandKind → String
  | .none => "None"
  | .int8 => "Int8"
  | .uint8 => "UInt8"
  | .uint16 => "UInt16"
  | .int32 => "Int32"
  | .int64 => "Int64"
  | .float32 => "Float32"
  | .float64 => "Float64"
  | .token => "Token"
  | .switch => "Switch"

/-- What an instruction does with its operand. -/
inductive Family where
  /-- Without effect on the evaluation stack. -/
  | skipped
  /-- Works on the stack alone. -/
  | plain
  /-- Loads a literal. -/
  | literal
  /-- Accesses an argument or a local. -/
  | access
  | jump
  | field
  | method
  | type
  /-- Works on the stack alone, its type token is not needed. -/
  | typedElement
  /-- Has no counterpart in an expression. -/
  | unsupported
  deriving DecidableEq, Repr

inductive Opcode where
  | nop | debugBreak | ldarg0 | ldarg1 | ldarg2 | ldarg3 | ldloc0 | ldloc1 | ldloc2 | ldloc3
  | stloc0 | stloc1 | stloc2 | stloc3 | ldargS | ldargaS | stargS | ldlocS | ldlocaS | stlocS
  | ldnull | ldcI4M1 | ldcI40 | ldcI41 | ldcI42 | ldcI43 | ldcI44 | ldcI45 | ldcI46 | ldcI47
  | ldcI48 | ldcI4S | ldcI4 | ldcI8 | ldcR4 | ldcR8 | dup | pop | jmp | call | calli | ret | brS
  | brfalseS | brtrueS | beqS | bgeS | bgtS | bleS | bltS | bneUnS | bgeUnS | bgtUnS | bleUnS
  | bltUnS | br | brfalse | brtrue | beq | bge | bgt | ble | blt | bneUn | bgeUn | bgtUn | bleUn
  | bltUn | switch | ldindI1 | ldindU1 | ldindI2 | ldindU2 | ldindI4 | ldindU4 | ldindI8 | ldindI
  | ldindR4 | ldindR8 | ldindRef | stindRef | stindI1 | stindI2 | stindI4 | stindI8 | stindR4
  | stindR8 | add | sub | mul | div | divUn | rem | remUn | and | or | xor | shl | shr | shrUn
  | neg | not | convI1 | convI2 | convI4 | convI8 | convR4 | convR8 | convU4 | convU8 | callvirt
  | cpobj | ldobj | ldstr | newobj | castclass | isinst | convRUn | unbox | throw | ldfld
  | ldflda | stfld | ldsfld | ldsflda | stsfld | stobj | convOvfI1Un | convOvfI2Un | convOvfI4Un
  | convOvfI8Un | convOvfU1Un | convOvfU2Un | convOvfU4Un | convOvfU8Un | convOvfIUn | convOvfUUn
  | box | newarr | ldlen | ldelema | ldelemI1 | ldelemU1 | ldelemI2 | ldelemU2 | ldelemI4
  | ldelemU4 | ldelemI8 | ldelemI | ldelemR4 | ldelemR8 | ldelemRef | stelemI | stelemI1
  | stelemI2 | stelemI4 | stelemI8 | stelemR4 | stelemR8 | stelemRef | ldelem | stelem | unboxAny
  | convOvfI1 | convOvfU1 | convOvfI2 | convOvfU2 | convOvfI4 | convOvfU4 | convOvfI8 | convOvfU8
  | refanyval | ckfinite | mkrefany | ldtoken | convU2 | convU1 | convI | convOvfI | convOvfU
  | addOvf | addOvfUn | mulOvf | mulOvfUn | subOvf | subOvfUn | endfinally | leave | leaveS
  | stindI | convU | arglist | ceq | cgt | cgtUn | clt | cltUn | ldftn | ldvirtftn | ldarg
  | ldarga | starg | ldloc | ldloca | stloc | localloc | endfilter | unaligned | volatile | tail
  | initobj | constrained | cpblk | initblk | noCheck | rethrow | sizeof | refanytype | readonly
  deriving DecidableEq

namespace Opcode

/-- The opcodes in the order of their encodings, in which they are declared. -/
def all : List Opcode := (List.range 219).map ofNat

/-- One row of the instruction table. -/
structure Spec where
  mnemonic : String
  /-- The opcode's byte follows an escape byte. -/
  isPrefixed : Bool
  byte : UInt8
  operand : OperandKind
  family : Family

/-- The row of an opcode of one byte. -/
abbrev Spec.one (mnemonic : String) : UInt8 → OperandKind → Family → Spec := .mk mnemonic false

/-- The row of an opcode of two bytes. -/
abbrev Spec.two (mnemonic : String) : UInt8 → OperandKind → Family → Spec := .mk mnemonic true

def spec : Opcode → Spec
  | .nop => .one "nop" 0x00 .none .skipped
  | .debugBreak => .one "break" 0x01 .none .skipped
  | .ldarg0 => .one "ldarg.0" 0x02 .none .access
  | .ldarg1 => .one "ldarg.1" 0x03 .none .access
  | .ldarg2 => .one "ldarg.2" 0x04 .none .access
  | .ldarg3 => .one "ldarg.3" 0x05 .none .access
  | .ldloc0 => .one "ldloc.0" 0x06 .none .access
  | .ldloc1 => .one "ldloc.1" 0x07 .none .access
  | .ldloc2 => .one "ldloc.2" 0x08 .none .access
  | .ldloc3 => .one "ldloc.3" 0x09 .none .access
  | .stloc0 => .one "stloc.0" 0x0A .none .access
  | .stloc1 => .one "stloc.1" 0x0B .none .access
  | .stloc2 => .one "stloc.2" 0x0C .none .access
  | .stloc3 => .one "stloc.3" 0x0D .none .access
  | .ldargS => .one "ldarg.s" 0x0E .uint8 .access
  | .ldargaS => .one "ldarga.s" 0x0F .uint8 .access
  | .stargS => .one "starg.s" 0x10 .uint8 .access
  | .ldlocS => .one "ldloc.s" 0x11 .uint8 .access
  | .ldlocaS => .one "ldloca.s" 0x12 .uint8 .access
  | .stlocS => .one "stloc.s" 0x13 .uint8 .access
  | .ldnull => .one "ldnull" 0x14 .none .literal
  | .ldcI4M1 => .one "ldc.i4.m1" 0x15 .none .literal
  | .ldcI40 => .one "ldc.i4.0" 0x16 .none .literal
  | .ldcI41 => .one "ldc.i4.1" 0x17 .none .literal
  | .ldcI42 => .one "ldc.i4.2" 0x18 .none .literal
  | .ldcI43 => .one "ldc.i4.3" 0x19 .none .literal
  | .ldcI44 => .one "ldc.i4.4" 0x1A .none .literal
  | .ldcI45 => .one "ldc.i4.5" 0x1B .none .literal
  | .ldcI46 => .one "ldc.i4.6" 0x1C .none .literal
  | .ldcI47 => .one "ldc.i4.7" 0x1D .none .literal
  | .ldcI48 => .one "ldc.i4.8" 0x1E .none .literal
  | .ldcI4S => .one "ldc.i4.s" 0x1F .int8 .literal
  | .ldcI4 => .one "ldc.i4" 0x20 .int32 .literal
  | .ldcI8 => .one "ldc.i8" 0x21 .int64 .literal
  | .ldcR4 => .one "ldc.r4" 0x22 .float32 .literal
  | .ldcR8 => .one "ldc.r8" 0x23 .float64 .literal
  | .dup => .one "dup" 0x25 .none .plain
  | .pop => .one "pop" 0x26 .none .plain
  | .jmp => .one "jmp" 0x27 .token .unsupported
  | .call => .one "call" 0x28 .token .method
  | .calli => .one "calli" 0x29 .token .unsupported
  | .ret => .one "ret" 0x2A .none .plain
  | .brS => .one "br.s" 0x2B .int8 .jump
  | .brfalseS => .one "brfalse.s" 0x2C .int8 .jump
  | .brtrueS => .one "brtrue.s" 0x2D .int8 .jump
  | .beqS => .one "beq.s" 0x2E .int8 .jump
  | .bgeS => .one "bge.s" 0x2F .int8 .jump
  | .bgtS => .one "bgt.s" 0x30 .int8 .jump
  | .bleS => .one "ble.s" 0x31 .int8 .jump
  | .bltS => .one "blt.s" 0x32 .int8 .jump
  | .bneUnS => .one "bne.un.s" 0x33 .int8 .jump
  | .bgeUnS => .one "bge.un.s" 0x34 .int8 .jump
  | .bgtUnS => .one "bgt.un.s" 0x35 .int8 .jump
  | .bleUnS => .one "ble.un.s" 0x36 .int8 .jump
  | .bltUnS => .one "blt.un.s" 0x37 .int8 .jump
  | .br => .one "br" 0x38 .int32 .jump
  | .brfalse => .one "brfalse" 0x39 .int32 .jump
  | .brtrue => .one "brtrue" 0x3A .int32 .jump
  | .beq => .one "beq" 0x3B .int32 .jump
  | .bge => .one "bge" 0x3C .int32 .jump
  | .bgt => .one "bgt" 0x3D .int32 .jump
  | .ble => .one "ble" 0x3E .int32 .jump
  | .blt => .one "blt" 0x3F .int32 .jump
  | .bneUn => .one "bne.un" 0x40 .int32 .jump
  | .bgeUn => .one "bge.un" 0x41 .int32 .jump
  | .bgtUn => .one "bgt.un" 0x42 .int32 .jump
  | .bleUn => .one "ble.un" 0x43 .int32 .jump
  | .bltUn => .one "blt.un" 0x44 .int32 .jump
  | .switch => .one "switch" 0x45 .switch .unsupported
  | .ldindI1 => .one "ldind.i1" 0x46 .none .unsupported
  | .ldindU1 => .one "ldind.u1" 0x47 .none .unsupported
  | .ldindI2 => .one "ldind.i2" 0x48 .none .unsupported
  | .ldindU2 => .one "ldind.u2" 0x49 .none .unsupported
  | .ldindI4 => .one "ldind.i4" 0x4A .none .unsupported
  | .ldindU4 => .one "ldind.u4" 0x4B .none .unsupported
  | .ldindI8 => .one "ldind.i8" 0x4C .none .unsupported
  | .ldindI => .one "ldind.i" 0x4D .none .unsupported
  | .ldindR4 => .one "ldind.r4" 0x4E .none .unsupported
  | .ldindR8 => .one "ldind.r8" 0x4F .none .unsupported
  | .ldindRef => .one "ldind.ref" 0x50 .none .unsupported
  | .stindRef => .one "stind.ref" 0x51 .none .unsupported
  | .stindI1 => .one "stind.i1" 0x52 .none .unsupported
  | .stindI2 => .one "stind.i2" 0x53 .none .unsupported
  | .stindI4 => .one "stind.i4" 0x54 .none .unsupported
  | .stindI8 => .one "stind.i8" 0x55 .none .unsupported
  | .stindR4 => .one "stind.r4" 0x56 .none .unsupported
  | .stindR8 => .one "stind.r8" 0x57 .none .unsupported
  | .add => .one "add" 0x58 .none .plain
  | .sub => .one "sub" 0x59 .none .plain
  | .mul => .one "mul" 0x5A .none .plain
  | .div => .one "div" 0x5B .none .plain
  | .divUn => .one "div.un" 0x5C .none .plain
  | .rem => .one "rem" 0x5D .none .plain
  | .remUn => .one "rem.un" 0x5E .none .plain
  | .and => .one "and" 0x5F .none .plain
  | .or => .one "or" 0x60 .none .plain
  | .xor => .one "xor" 0x61 .none .plain
  | .shl => .one "shl" 0x62 .none .plain
  | .shr => .one "shr" 0x63 .none .plain
  | .shrUn => .one "shr.un" 0x64 .none .plain
  | .neg => .one "neg" 0x65 .none .plain
  | .not => .one "not" 0x66 .none .plain
  | .convI1 => .one "conv.i1" 0x67 .none .plain
  | .convI2 => .one "conv.i2" 0x68 .none .plain
  | .convI4 => .one "conv.i4" 0x69 .none .plain
  | .convI8 => .one "conv.i8" 0x6A .none .plain
  | .convR4 => .one "conv.r4" 0x6B .none .plain
  | .convR8 => .one "conv.r8" 0x6C .none .plain
  | .convU4 => .one "conv.u4" 0x6D .none .plain
  | .convU8 => .one "conv.u8" 0x6E .none .plain
  | .callvirt => .one "callvirt" 0x6F .token .method
  | .cpobj => .one "cpobj" 0x70 .token .unsupported
  | .ldobj => .one "ldobj" 0x71 .token .unsupported
  | .ldstr => .one "ldstr" 0x72 .token .literal
  | .newobj => .one "newobj" 0x73 .token .method
  | .castclass => .one "castclass" 0x74 .token .type
  | .isinst => .one "isinst" 0x75 .token .type
  | .convRUn => .one "conv.r.un" 0x76 .none .plain
  | .unbox => .one "unbox" 0x79 .token .type
  | .throw => .one "throw" 0x7A .none .unsupported
  | .ldfld => .one "ldfld" 0x7B .token .field
  | .ldflda => .one "ldflda" 0x7C .token .field
  | .stfld => .one "stfld" 0x7D .token .field
  | .ldsfld => .one "ldsfld" 0x7E .token .field
  | .ldsflda => .one "ldsflda" 0x7F .token .field
  | .stsfld => .one "stsfld" 0x80 .token .field
  | .stobj => .one "stobj" 0x81 .token .unsupported
  | .convOvfI1Un => .one "conv.ovf.i1.un" 0x82 .none .plain
  | .convOvfI2Un => .one "conv.ovf.i2.un" 0x83 .none .plain
  | .convOvfI4Un => .one "conv.ovf.i4.un" 0x84 .none .plain
  | .convOvfI8Un => .one "conv.ovf.i8.un" 0x85 .none .plain
  | .convOvfU1Un => .one "conv.ovf.u1.un" 0x86 .none .plain
  | .convOvfU2Un => .one "conv.ovf.u2.un" 0x87 .none .plain
  | .convOvfU4Un => .one "conv.ovf.u4.un" 0x88 .none .plain
  | .convOvfU8Un => .one "conv.ovf.u8.un" 0x89 .none .plain
  | .convOvfIUn => .one "conv.ovf.i.un" 0x8A .none .unsupported
  | .convOvfUUn => .one "conv.ovf.u.un" 0x8B .none .unsupported
  | .box => .one "box" 0x8C .token .type
  | .newarr => .one "newarr" 0x8D .token .type
  | .ldlen => .one "ldlen" 0x8E .none .plain
  | .ldelema => .one "ldelema" 0x8F .token .unsupported
  | .ldelemI1 => .one "ldelem.i1" 0x90 .none .plain
  | .ldelemU1 => .one "ldelem.u1" 0x91 .none .plain
  | .ldelemI2 => .one "ldelem.i2" 0x92 .none .plain
  | .ldelemU2 => .one "ldelem.u2" 0x93 .none .plain
  | .ldelemI4 => .one "ldelem.i4" 0x94 .none .plain
  | .ldelemU4 => .one "ldelem.u4" 0x95 .none .plain
  | .ldelemI8 => .one "ldelem.i8" 0x96 .none .plain
  | .ldelemI => .one "ldelem.i" 0x97 .none .unsupported
  | .ldelemR4 => .one "ldelem.r4" 0x98 .none .plain
  | .ldelemR8 => .one "ldelem.r8" 0x99 .none .plain
  | .ldelemRef => .one "ldelem.ref" 0x9A .none .plain
  | .stelemI => .one "stelem.i" 0x9B .none .unsupported
  | .stelemI1 => .one "stelem.i1" 0x9C .none .plain
  | .stelemI2 => .one "stelem.i2" 0x9D .none .plain
  | .stelemI4 => .one "stelem.i4" 0x9E .none .plain
  | .stelemI8 => .one "stelem.i8" 0x9F .none .plain
  | .stelemR4 => .one "stelem.r4" 0xA0 .none .plain
  | .stelemR8 => .one "stelem.r8" 0xA1 .none .plain
  | .stelemRef => .one "stelem.ref" 0xA2 .none .plain
  | .ldelem => .one "ldelem" 0xA3 .token .typedElement
  | .stelem => .one "stelem" 0xA4 .token .typedElement
  | .unboxAny => .one "unbox.any" 0xA5 .token .type
  | .convOvfI1 => .one "conv.ovf.i1" 0xB3 .none .plain
  | .convOvfU1 => .one "conv.ovf.u1" 0xB4 .none .plain
  | .convOvfI2 => .one "conv.ovf.i2" 0xB5 .none .plain
  | .convOvfU2 => .one "conv.ovf.u2" 0xB6 .none .plain
  | .convOvfI4 => .one "conv.ovf.i4" 0xB7 .none .plain
  | .convOvfU4 => .one "conv.ovf.u4" 0xB8 .none .plain
  | .convOvfI8 => .one "conv.ovf.i8" 0xB9 .none .plain
  | .convOvfU8 => .one "conv.ovf.u8" 0xBA .none .plain
  | .refanyval => .one "refanyval" 0xC2 .token .unsupported
  | .ckfinite => .one "ckfinite" 0xC3 .none .unsupported
  | .mkrefany => .one "mkrefany" 0xC6 .token .unsupported
  | .ldtoken => .one "ldtoken" 0xD0 .token .unsupported
  | .convU2 => .one "conv.u2" 0xD1 .none .plain
  | .convU1 => .one "conv.u1" 0xD2 .none .plain
  | .convI => .one "conv.i" 0xD3 .none .unsupported
  | .convOvfI => .one "conv.ovf.i" 0xD4 .none .unsupported
  | .convOvfU => .one "conv.ovf.u" 0xD5 .none .unsupported
  | .addOvf => .one "add.ovf" 0xD6 .none .plain
  | .addOvfUn => .one "add.ovf.un" 0xD7 .none .plain
  | .mulOvf => .one "mul.ovf" 0xD8 .none .plain
  | .mulOvfUn => .one "mul.ovf.un" 0xD9 .none .plain
  | .subOvf => .one "sub.ovf" 0xDA .none .plain
  | .subOvfUn => .one "sub.ovf.un" 0xDB .none .plain
  | .endfinally => .one "endfinally" 0xDC .none .unsupported
  | .leave => .one "leave" 0xDD .int32 .unsupported
  | .leaveS => .one "leave.s" 0xDE .int8 .unsupported
  | .stindI => .one "stind.i" 0xDF .none .unsupported
  | .convU => .one "conv.u" 0xE0 .none .unsupported
  | .arglist => .two "arglist" 0x00 .none .unsupported
  | .ceq => .two "ceq" 0x01 .none .plain
  | .cgt => .two "cgt" 0x02 .none .plain
  | .cgtUn => .two "cgt.un" 0x03 .none .plain
  | .clt => .two "clt" 0x04 .none .plain
  | .cltUn => .two "clt.un" 0x05 .none .plain
  | .ldftn => .two "ldftn" 0x06 .token .method
  | .ldvirtftn => .two "ldvirtftn" 0x07 .token .method
  | .ldarg => .two "ldarg" 0x09 .uint16 .access
  | .ldarga => .two "ldarga" 0x0A .uint16 .access
  | .starg => .two "starg" 0x0B .uint16 .access
  | .ldloc => .two "ldloc" 0x0C .uint16 .access
  | .ldloca => .two "ldloca" 0x0D .uint16 .access
  | .stloc => .two "stloc" 0x0E .uint16 .access
  | .localloc => .two "localloc" 0x0F .none .unsupported
  | .endfilter => .two "endfilter" 0x11 .none .unsupported
  | .unaligned => .two "unaligned." 0x12 .uint8 .skipped
  | .volatile => .two "volatile." 0x13 .none .skipped
  | .tail => .two "tail." 0x14 .none .skipped
  | .initobj => .two "initobj" 0x15 .token .type
  | .constrained => .two "constrained." 0x16 .token .type
  | .cpblk => .two "cpblk" 0x17 .none .unsupported
  | .initblk => .two "initblk" 0x18 .none .unsupported
  | .noCheck => .two "no." 0x19 .uint8 .unsupported
  | .rethrow => .two "rethrow" 0x1A .none .unsupported
  | .sizeof => .two "sizeof" 0x1C .token .unsupported
  | .refanytype => .two "refanytype" 0x1D .none .unsupported
  | .readonly => .two "readonly." 0x1E .none .skipped

def mnemonic (opcode : Opcode) : String := opcode.spec.mnemonic

def isPrefixed (opcode : Opcode) : Bool := opcode.spec.isPrefixed

def operandKind (opcode : Opcode) : OperandKind := opcode.spec.operand

def family (opcode : Opcode) : Family := opcode.spec.family

/-- The first byte of every opcode of two bytes. -/
def escapeByte : UInt8 := 0xFE

def encoding (opcode : Opcode) : List UInt8 :=
  if opcode.isPrefixed then [escapeByte, opcode.spec.byte] else [opcode.spec.byte]

/-- The opcode with the given byte, on its own or after the escape byte. -/
def ofByte? (isPrefixed : Bool) (byte : UInt8) : Option Opcode :=
  all.find? fun opcode => opcode.isPrefixed == isPrefixed && opcode.spec.byte == byte

/-- Short branches and short variable accesses in their long form. -/
def longForm : Opcode → Opcode
  | .brS => .br
  | .brfalseS => .brfalse
  | .brtrueS => .brtrue
  | .beqS => .beq
  | .bgeS => .bge
  | .bgtS => .bgt
  | .bleS => .ble
  | .bltS => .blt
  | .bneUnS => .bneUn
  | .bgeUnS => .bgeUn
  | .bgtUnS => .bgtUn
  | .bleUnS => .bleUn
  | .bltUnS => .bltUn
  | .leaveS => .leave
  | .ldargS => .ldarg
  | .ldargaS => .ldarga
  | .stargS => .starg
  | .ldlocS => .ldloc
  | .ldlocaS => .ldloca
  | .stlocS => .stloc
  | other => other

/-- The access and slot of an opcode that names its slot itself. -/
def impliedSlot? : Opcode → Option (Opcode × Nat)
  | .ldarg0 => some (.ldarg, 0)
  | .ldarg1 => some (.ldarg, 1)
  | .ldarg2 => some (.ldarg, 2)
  | .ldarg3 => some (.ldarg, 3)
  | .ldloc0 => some (.ldloc, 0)
  | .ldloc1 => some (.ldloc, 1)
  | .ldloc2 => some (.ldloc, 2)
  | .ldloc3 => some (.ldloc, 3)
  | .stloc0 => some (.stloc, 0)
  | .stloc1 => some (.stloc, 1)
  | .stloc2 => some (.stloc, 2)
  | .stloc3 => some (.stloc, 3)
  | _ => none

/-- The integer of an opcode that names its literal itself. -/
def impliedInteger? : Opcode → Option Int
  | .ldcI4M1 => some (-1)
  | .ldcI40 => some 0
  | .ldcI41 => some 1
  | .ldcI42 => some 2
  | .ldcI43 => some 3
  | .ldcI44 => some 4
  | .ldcI45 => some 5
  | .ldcI46 => some 6
  | .ldcI47 => some 7
  | .ldcI48 => some 8
  | _ => none

end Opcode

end CilLift
