import CilLift.Error
import CilLift.Expr

/-! Conversion of an expression to a required type, pushed as far down as values allow. -/

namespace CilLift.Expr

/-- The types that hold an integer on the evaluation stack, or a number. -/
def isNumberTarget (type : TypeSig) : Bool :=
  type.isNumeric || type.isEnum || type == .char

/-- The same through a nullable type. -/
def isArithmeticTarget : TypeSig → Bool
  | .nullable inner => isNumberTarget inner
  | type => isNumberTarget type

/-- Converts the literal of `source`; what has no literal form is converted when it runs. -/
def coerceConstant (value : Constant) (source : Expr) : TypeSig → Except Error Expr
  | .nullable inner =>
    match value with
    | .null => .ok (null (.nullable inner))
    | _ => do
      let converted ← coerceConstant value source inner
      match converted with
      | .constant _ innerValue => return mkConstant innerValue (.nullable inner)
      | _ => return mkConvert converted (.nullable inner)
  | target =>
    match value with
    | .null =>
      if target.acceptsNull then .ok (null target)
      else .error (.invalidCoercion source.type target)
    | _ =>
      match target with
      | .bool =>
        match value.toInt? with
        | some 0 => .ok (boolean false)
        | some 1 => .ok (boolean true)
        | _ => .error (.invalidCoercion source.type target)
      | .float32 =>
        match value.toDouble? with
        | some bits => .ok (mkConstant (.single (Ieee.narrow bits)) .float32)
        | none => .ok (mkConvert source target)
      | .float64 =>
        match value.toDouble? with
        | some bits => .ok (mkConstant (.double bits) .float64)
        | none => .ok (mkConvert source target)
      | _ =>
        if isNumberTarget target then
          match value.truncated?.bind fun number => Constant.ofInt? number target with
          | some converted => .ok (mkConstant converted target)
          | none => .ok (mkConvert source target)
        else .ok (mkConvert source target)

/-- An integer as a condition. -/
def nonZero (expr : Expr) : Expr :=
  mkBinary .notEqual expr (zeroOf expr.type) .bool

/-- A condition as an integer of the given type. -/
def oneOrZero (expr : Expr) (target : TypeSig) : Except Error Expr := do
  let one ← coerceConstant (.integer .int32 1) (int 1) target
  let zero ← coerceConstant (.integer .int32 0) (int 0) target
  return mkConditional expr one zero

/-- How a node that does not yet have the target type is converted. -/
inductive Conversion where
  | branch
  | literal (value : Constant)
  | fromBool
  | toBool
  | operands
  | sides
  | wrapped

/-- The first rule that applies to a node. -/
def conversion (expr : Expr) (target : TypeSig) : Conversion :=
  match expr with
  | .branch .. => .branch
  | .constant _ value => .literal value
  | _ =>
    if expr.isBool && isNumberTarget target then .fromBool
    else if target.isBool && expr.type.underlying.isInteger then .toBool
    else
      match expr with
      | .binary _ op _ _ =>
        if op.isArithmetic && isArithmeticTarget target then .operands else .wrapped
      | .conditional .. => .sides
      | _ => .wrapped

/-- The expression as one of type `target`; a node that already is one stays the same node. -/
def coerce (expr : Expr) (target : TypeSig) : Except Error Expr :=
  if target.isVoid || target.accepts expr.type then .ok expr
  else
    match expr.conversion target, expr with
    | .branch, _ => .error (.shape (.branchAsValue target))
    | .literal value, expr => coerceConstant value expr target
    | .fromBool, expr => oneOrZero expr target
    | .toBool, expr => .ok expr.nonZero
    | .operands, .binary _ op left right => do
      let left ← left.coerce target
      let right ← if op.isShift then .ok right else right.coerce target
      return mkBinary op left right target
    | .sides, .conditional _ test onTrue onFalse => do
      let onTrue ← onTrue.coerce target
      let onFalse ← onFalse.coerce target
      return mkConditional test onTrue onFalse
    | _, expr => .ok (mkConvert expr target)

end CilLift.Expr
