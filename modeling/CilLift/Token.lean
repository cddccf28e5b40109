import CilLift.Text.Hex

/-! Metadata tokens: a table number and a row in one 32-bit word. -/

namespace CilLift

/-- The metadata tables that instruction operands refer to. -/
inductive TokenTable where
  | typeRef
  | typeDef
  | field
  | methodDef
  | memberRef
  | standAloneSig
  | typeSpec
  | methodSpec
  | userString
  deriving DecidableEq, Repr

def TokenTable.all : List TokenTable :=
  [.typeRef, .typeDef, .field, .methodDef, .memberRef, .standAloneSig, .typeSpec, .methodSpec,
    .userString]

def TokenTable.number : TokenTable → UInt8
  | .typeRef => 0x01
  | .typeDef => 0x02
  | .field => 0x04
  | .methodDef => 0x06
  | .memberRef => 0x0A
  | .standAloneSig => 0x11
  | .typeSpec => 0x1B
  | .methodSpec => 0x2B
  | .userString => 0x70

def TokenTable.name : TokenTable → String
  | .typeRef => "TypeRef"
  | .typeDef => "TypeDef"
  | .field => "Field"
  | .methodDef => "MethodDef"
  | .memberRef => "MemberRef"
  | .standAloneSig => "StandAloneSig"
  | .typeSpec => "TypeSpec"
  | .methodSpec => "MethodSpec"
  | .userString => "UserString"

structure Token where
  value : UInt32
  deriving DecidableEq, Repr, Inhabited

namespace Token

/-- The token of a row, of which the low 24 bits count. -/
def ofParts (table : TokenTable) (row : UInt32) : Token :=
  ⟨(table.number.toUInt32 <<< 24) ||| (row &&& 0x00FFFFFF)⟩

/-- The number in the top byte, whether or not it names a known table. -/
def tableNumber (token : Token) : UInt8 :=
  (token.value >>> 24).toUInt8

def row (token : Token) : UInt32 :=
  token.value &&& 0x00FFFFFF

def table? (token : Token) : Option TokenTable :=
  TokenTable.all.find? fun table => table.number == token.tableNumber

def isNull (token : Token) : Bool :=
  token.value == 0

def text (token : Token) : String :=
  "0x" ++ Text.hex 8 token.value.toNat

/-- The token with its table and row spelled out. -/
def description (token : Token) : String :=
  match token.table? with
  | some table => s!"Token({token.text}, {table.name}[{token.row.toNat}])"
  | none => s!"Token({token.text})"

end Token

end CilLift
