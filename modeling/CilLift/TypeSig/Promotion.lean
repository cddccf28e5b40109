import CilLift.TypeSig

/-! The type in which two operands of different types meet. -/

namespace CilLift.TypeSig

/-- The place of a type in the order of numeric widening. -/
def numericRank? : TypeSig → Option Nat
  | .integer .int8 => some 1
  | .integer .uint8 => some 2
  | .integer .int16 => some 3
  | .integer .uint16 | .char => some 4
  | .integer .int32 => some 5
  | .integer .uint32 => some 6
  | .integer .int64 => some 7
  | .integer .uint64 => some 8
  | .float32 => some 9
  | .float64 => some 10
  | _ => none

def isSigned : TypeSig → Bool
  | .integer type => type.isSigned
  | _ => false

/-- The result of widening a wider and a narrower numeric type: a signed operand turns an unsigned
32 or 64-bit one into `int64`, and everything small becomes `int32`. -/
def widened (wide narrow : TypeSig) : TypeSig :=
  match wide with
  | .float64 | .float32 | .integer .int64 => wide
  | .integer .uint64 => if narrow.isSigned then .integer .int64 else .integer .uint64
  | .integer .uint32 => if narrow.isSigned then .integer .int64 else .integer .uint32
  | _ => .int32

/-- The type of a binary operation on two numeric operands, characters counting as numbers. -/
def promote (left right : TypeSig) : Option TypeSig := do
  let leftRank ← left.numericRank?
  let rightRank ← right.numericRank?
  if left = right ∧ 5 ≤ leftRank then some left
  else if rightRank ≤ leftRank then some (widened left right)
  else some (widened right left)

/-- The common type of an operand and one of the plain type `plain`. -/
def commonWithPlain (plain : TypeSig) : TypeSig → Option TypeSig
  | .nullable inner =>
    if plain.acceptsNull then none else (commonWithPlain plain inner).map .nullable
  | other => if other = plain then some other else promote other plain

/-- The common type of two operands, lifted over nullable types. -/
def commonType : TypeSig → TypeSig → Option TypeSig
  | .nullable left, .nullable right =>
    if left = right then some (.nullable left) else (commonType left right).map .nullable
  | .nullable inner, plain => commonWithPlain plain (.nullable inner)
  | plain, .nullable inner => commonWithPlain plain (.nullable inner)
  | left, right => if left = right then some left else promote left right

end CilLift.TypeSig
