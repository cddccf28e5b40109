import CilLift.Error

/-! Little-endian numbers, and a cursor that reads them from code without leaving it. -/

namespace CilLift

/-- The low `width` bytes of a number, least significant first. -/
def littleEndian : Nat → Nat → List UInt8
  | 0, _ => []
  | width + 1, number => (number % 256).toUInt8 :: littleEndian width (number / 256)

def ofLittleEndian : List UInt8 → Nat
  | [] => 0
  | byte :: rest => byte.toNat + 256 * ofLittleEndian rest

/-- A position in code. -/
structure Cursor where
  data : List UInt8
  position : Nat := 0
  deriving DecidableEq

/-- Reading moves the cursor; a failed read leaves it where the value should have begun. -/
abbrev Read := EStateM Error Cursor

namespace Cursor

def hasMore (cursor : Cursor) : Bool :=
  decide (cursor.position < cursor.data.length)

/-- The cursor moved to a position inside the code. -/
def seek (cursor : Cursor) (position : Nat) : Except Error Cursor :=
  if position < cursor.data.length then .ok { cursor with position } else .error .outOfBounds

def peek (cursor : Cursor) : Except Error UInt8 :=
  match cursor.data[cursor.position]? with
  | some byte => .ok byte
  | none => .error .outOfBounds

/-- The number in the next `width` bytes. -/
def readNumber (width : Nat) : Read Nat := fun cursor =>
  let bytes := (cursor.data.drop cursor.position).take width
  if bytes.length = width then
    .ok (ofLittleEndian bytes) { cursor with position := cursor.position + width }
  else
    .error .outOfBounds cursor

def readUInt8 : Read UInt8 := do
  return (← readNumber 1).toUInt8

def readInt8 : Read Int8 := do
  return (← readNumber 1).toUInt8.toInt8

def readUInt16 : Read UInt16 := do
  return (← readNumber 2).toUInt16

def readInt16 : Read Int16 := do
  return (← readNumber 2).toUInt16.toInt16

def readUInt32 : Read UInt32 := do
  return (← readNumber 4).toUInt32

def readInt32 : Read Int32 := do
  return (← readNumber 4).toUInt32.toInt32

def readUInt64 : Read UInt64 := do
  return (← readNumber 8).toUInt64

def readInt64 : Read Int64 := do
  return (← readNumber 8).toUInt64.toInt64

end Cursor

end CilLift
