import CilLift.Expr.Coerce
import CilLift.TypeSig.Promotion

/-!
Typed nodes built from the raw values of an evaluation stack, on which a boolean is an integer.
Operands are brought to a common type, boolean literals are folded away, and negation is pushed as
deep as it goes.
-/

namespace CilLift.Expr

/-- The type in which the operands of a binary operation meet. -/
def operandType (left right : Expr) : TypeSig :=
  if left.type = right.type then left.type
  else
    match left.type.commonType right.type with
    | some common => common
    | none =>
      match left.type.isNumeric, right.type.isNumeric with
      | true, false => left.type
      | false, true => right.type
      | _, _ => if left.isConstant && !right.isConstant then right.type else left.type

/-- Arithmetic on operands of a common type. -/
def numeric (op : BinaryOp) (left right : Expr) : Except Error Expr := do
  let type := operandType left right
  let left ← left.coerce type
  let right ← right.coerce type
  return mkBinary op left right type

/-- Booleans and characters as `int32`, enumerations as their underlying type. -/
def ensureNumeric (operand : Expr) : Except Error Expr :=
  match operand.type with
  | .bool | .char => operand.coerce .int32
  | .enum _ underlying => operand.coerce underlying
  | _ => .ok operand

/-- A shift has the type of the shifted value, and its amount is left as it is. -/
def shift (op : BinaryOp) (value amount : Expr) : Except Error Expr := do
  let value ← value.ensureNumeric
  return mkBinary op value amount value.type

def negate (operand : Expr) : Except Error Expr := do
  let operand ← operand.ensureNumeric
  return mkUnary .negate operand operand.type

/-- What a conversion instruction makes of a value. -/
def convert (operand : Expr) (type : TypeSig) : Except Error Expr :=
  if operand.type = type then .ok operand
  else if operand.isConstant || operand.isBool then operand.coerce type
  else .ok (mkConvert operand type)

/-- An order comparison. -/
def numericComparison (op : BinaryOp) (left right : Expr) : Except Error Expr := do
  let left ← left.ensureNumeric
  let right ← right.ensureNumeric
  let type := operandType left right
  let left ← left.coerce type
  let right ← right.coerce type
  return mkBinary op left right .bool

/-- The constant of two operands and the other one, if the other one is boolean. -/
def constantAndBool? (left right : Expr) : Option (Expr × Expr) :=
  if left.isConstant then if right.isBool then some (left, right) else none
  else if right.isConstant then if left.isBool then some (right, left) else none
  else none

/-- The truth value that a boolean operand meets, with that operand. -/
def foldable? (left right : Expr) : Except Error (Option (Bool × Expr)) :=
  match constantAndBool? left right with
  | none => .ok none
  | some (literal, other) => do
    let literal ← literal.coerce .bool
    return literal.boolLiteral?.map fun value => (value, other)

/-- Both operands as conditions. -/
def connective (op : BinaryOp) (left right : Expr) : Except Error Expr := do
  let left ← left.coerce .bool
  let right ← right.coerce .bool
  return mkBinary op left right .bool

def logicalAnd (left right : Expr) : Except Error Expr := do
  match ← foldable? left right with
  | some (true, other) => return other
  | some (false, _) => return boolean false
  | none => connective .andAlso left right

def logicalOr (left right : Expr) : Except Error Expr := do
  match ← foldable? left right with
  | some (true, _) => return boolean true
  | some (false, other) => return other
  | none => connective .orElse left right

/-- The negation of a condition. -/
def logicalNot (operand : Expr) : Except Error Expr :=
  if operand.isBool then
    match operand with
    | .conditional _ test onTrue onFalse => do
      let onTrue ← onTrue.logicalNot
      let onFalse ← onFalse.logicalNot
      return mkConditional test onTrue onFalse
    | .constant _ (.bool value) => .ok (boolean !value)
    | .unary _ .logicalNot inner => .ok inner
    | .binary header op left right =>
      match op with
      | .andAlso => do
        let left ← left.logicalNot
        let right ← right.logicalNot
        logicalOr left right
      | .orElse => do
        let left ← left.logicalNot
        let right ← right.logicalNot
        logicalAnd left right
      | _ =>
        match op.complement? with
        | some complement => .ok (mkBinary complement left right .bool)
        | none => .ok (mkUnary .logicalNot (.binary header op left right) .bool)
    | other => .ok (mkUnary .logicalNot other .bool)
  else .error (.invalidCoercion operand.type .bool)

/-- The type in which two values are compared; `null` takes the type of what it is compared with. -/
def comparisonType (left right : Expr) : TypeSig :=
  if left.isNull then right.type else if right.isNull then left.type else operandType left right

/-- A comparison for equality or inequality, once no literal can be folded. -/
def compareEqual (op : BinaryOp) (left right : Expr) : Except Error Expr := do
  let type := comparisonType left right
  let left ← left.coerce type
  let right ← right.coerce type
  return mkBinary op left right .bool

def equal (left right : Expr) : Except Error Expr := do
  match ← foldable? left right with
  | some (true, other) => return other
  | some (false, other) => other.logicalNot
  | none => compareEqual .equal left right

def notEqual (left right : Expr) : Except Error Expr := do
  match ← foldable? left right with
  | some (true, other) => other.logicalNot
  | some (false, other) => return other
  | none => compareEqual .notEqual left right

/-- Bitwise operations, which on two conditions are the logical ones. -/
def bitwise (op : BinaryOp) (left right : Expr) : Except Error Expr :=
  if left.isBool && right.isBool then
    match op with
    | .and => logicalAnd left right
    | .or => logicalOr left right
    | _ => .ok (mkBinary op left right .bool)
  else numeric op left right

def bitwiseNot (operand : Expr) : Except Error Expr :=
  if operand.isBool then operand.logicalNot else .ok (mkUnary .not operand operand.type)

/-- What a value is compared with when it is used as a condition. -/
def falsehood (operand : Expr) : Expr :=
  if isNumberTarget operand.type then zeroOf operand.type else null operand.type

/-- The condition under which a jump on a true value is taken. -/
def isTrue (operand : Expr) : Except Error Expr :=
  if operand.isBool then .ok operand else notEqual operand operand.falsehood

/-- The condition under which a jump on a false value is taken. -/
def isFalse (operand : Expr) : Except Error Expr :=
  if operand.isBool then operand.logicalNot else equal operand operand.falsehood

/-- The type of a conditional whose sides have different types. -/
def conditionType (onTrue onFalse : Expr) : TypeSig :=
  match onTrue.type.commonType onFalse.type with
  | some common => common
  | none => if onTrue.type = .object then onFalse.type else onTrue.type

/-- A conditional that no boolean literal simplifies. -/
def chooseBetween (test onTrue onFalse : Expr) : Except Error Expr :=
  if onTrue.type = onFalse.type then .ok (mkConditional test onTrue onFalse)
  else do
    let type := conditionType onTrue onFalse
    let onTrue ← onTrue.coerce type
    let onFalse ← onFalse.coerce type
    return mkConditional test onTrue onFalse

/-- The value of `onTrue` where the test holds and of `onFalse` elsewhere. -/
def condition (test onTrue onFalse : Expr) : Except Error Expr :=
  if test.isBool then
    match onTrue.boolLiteral?, onFalse.boolLiteral? with
    | some true, some true => .ok (boolean true)
    | some true, some false => .ok test
    | some false, some true => test.logicalNot
    | some false, some false => .ok (boolean false)
    | some true, none =>
      if onFalse.isBool then logicalOr test onFalse else chooseBetween test onTrue onFalse
    | some false, none =>
      if onFalse.isBool then do logicalAnd (← test.logicalNot) onFalse
      else chooseBetween test onTrue onFalse
    | none, some true =>
      if onTrue.isBool then do logicalOr (← test.logicalNot) onTrue
      else chooseBetween test onTrue onFalse
    | none, some false =>
      if onTrue.isBool then logicalAnd test onTrue else chooseBetween test onTrue onFalse
    | none, none => chooseBetween test onTrue onFalse
  else .error (.invalidCoercion test.type .bool)

end CilLift.Expr
