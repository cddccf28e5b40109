import CilLift.Expr
import Mathlib.Data.Int.Bitwise

/-!
The numbers that trees of truth values, characters and integers stand for. Every node is computed
exactly and then wrapped around in its own type, so that the number of a tree always is one of its
type.
-/

namespace CilLift

open TypeSig

theorem IntegerType.wrap_wrap (type : IntegerType) (number : Int) :
    type.wrap (type.wrap number) = type.wrap number := by
  unfold wrap
  split
  · exact Int.bmod_bmod
  · exact Int.emod_emod ..

/-- What the leaves of a tree stand for, and what an operator gives in a type where its operands have
no outcome. -/
structure Bindings where
  argument : Nat → Int
  content : Nat → Int
  other : Expr → Int
  unanswered : BinaryOp → TypeSig → Int → Int → Int

namespace TypeSig

/-- The types whose values are numbers. -/
def isScalar : TypeSig → Bool
  | .bool | .char | .integer _ => true
  | _ => false

/-- The number of the type that stands for the given one: of a truth value it only counts whether it
is zero, the others agree in their low bits. -/
def wrap (type : TypeSig) (number : Int) : Int :=
  match type with
  | .bool => (number != 0).toInt
  | .char => number.emod 65536
  | .integer type => type.wrap number
  | _ => number

/-- The width of an integral type. -/
def width : TypeSig → Nat
  | .integer type => type.bits
  | _ => 0

theorem wrap_wrap (type : TypeSig) (number : Int) : type.wrap (type.wrap number) = type.wrap number := by
  cases type <;> try rfl
  case bool => simp only [wrap]; cases number != 0 <;> rfl
  case char => exact Int.emod_emod ..
  case integer type => exact type.wrap_wrap number

theorem wrap_toInt {type : TypeSig} (isScalar : type.isScalar = true) (holds : Bool) :
    type.wrap holds.toInt = holds.toInt := by
  cases type <;> try cases isScalar
  case bool | char => cases holds <;> rfl
  case integer type => cases type <;> cases holds <;> rfl

end TypeSig

namespace BinaryOp

/-- The exact outcome of an operator on two numbers, in arithmetic of the given width. There is none
for a divisor that is zero and for a shift by the whole width or more. -/
def outcome? (width : Nat) (left right : Int) : BinaryOp → Option Int
  | .add => some (left + right)
  | .subtract => some (left - right)
  | .multiply => some (left * right)
  | .divide => if right = 0 then none else some (left.tdiv right)
  | .modulo => if right = 0 then none else some (left.tmod right)
  | .and => some (left.land right)
  | .or => some (left.lor right)
  | .exclusiveOr => some (left.xor right)
  | .leftShift =>
    if 0 ≤ right ∧ right < width then some (left * twoTo right.toNat) else none
  | .rightShift =>
    if 0 ≤ right ∧ right < width then some (left.fdiv (twoTo right.toNat)) else none
  | .equal => some (left == right).toInt
  | .notEqual => some (left != right).toInt
  | .lessThan => some (decide (left < right)).toInt
  | .lessThanOrEqual => some (decide (left ≤ right)).toInt
  | .greaterThan => some (decide (right < left)).toInt
  | .greaterThanOrEqual => some (decide (right ≤ left)).toInt
  | .andAlso => some (left != 0 && right != 0).toInt
  | .orElse => some (left != 0 || right != 0).toInt

end BinaryOp

namespace Expr

/-- The number that a tree stands for. -/
def number (bindings : Bindings) : Expr → Int
  | .constant header value => header.type.wrap (value.toInt?.getD 0)
  | .parameter header slot _ => header.type.wrap (bindings.argument slot)
  | .var header slot _ => header.type.wrap (bindings.content slot)
  | .unary header .negate operand => header.type.wrap (-operand.number bindings)
  | .unary header .not operand => header.type.wrap (-operand.number bindings - 1)
  | .unary header .convert operand => header.type.wrap (operand.number bindings)
  | .unary _ .logicalNot operand => (operand.number bindings == 0).toInt
  | .binary header op left right =>
    let left := left.number bindings
    let right := right.number bindings
    header.type.wrap ((op.outcome? header.type.width left right).getD
      (bindings.unanswered op header.type left right))
  | .conditional _ test onTrue onFalse =>
    if test.number bindings != 0 then onTrue.number bindings else onFalse.number bindings
  | expr => expr.type.wrap (bindings.other expr)

/-- Whether a tree counts as true. -/
def truth (bindings : Bindings) (expr : Expr) : Bool := expr.number bindings != 0

/-- The nodes that are not taken apart. -/
def isLeaf : Expr → Bool
  | .constant .. | .unary .. | .binary .. | .conditional .. | .branch .. => false
  | _ => true

end Expr

/-- The literal is one of the type. -/
def Constant.IsOf : TypeSig → Constant → Prop
  | .bool, .bool _ => True
  | .char, .char _ => True
  | .integer type, .integer written value => written = type ∧ type.wrap value = value
  | _, _ => False

namespace Expr

/-- The tree is well typed, and all its types are admitted: a literal is one of its type, arithmetic
stays within one integral type, only values of one type are compared, and what is negated, connected
or tested is a truth value. -/
inductive Typed (admits : TypeSig → Prop) : TypeSig → Expr → Prop where
  | constant {header : Header} {value : Constant} (admitted : admits header.type)
      (isOf : value.IsOf header.type) : Typed admits header.type (.constant header value)
  | leaf {expr : Expr} (admitted : admits expr.type) (isScalar : expr.type.isScalar = true)
      (isLeaf : expr.isLeaf = true) : Typed admits expr.type expr
  | converted {header : Header} {operand : Expr} {source : TypeSig} (admitted : admits header.type)
      (isScalar : header.type.isScalar = true) (typed : Typed admits source operand) :
      Typed admits header.type (.unary header .convert operand)
  | inverted {header : Header} {op : UnaryOp} {operand : Expr} {type : IntegerType}
      (isType : header.type = .integer type) (isInversion : op = .negate ∨ op = .not)
      (typed : Typed admits (.integer type) operand) :
      Typed admits (.integer type) (.unary header op operand)
  | computed {header : Header} {op : BinaryOp} {left right : Expr} {type : IntegerType}
      (isType : header.type = .integer type) (isArithmetic : op.isArithmetic = true)
      (notShift : op.isShift = false) (typedLeft : Typed admits (.integer type) left)
      (typedRight : Typed admits (.integer type) right) :
      Typed admits (.integer type) (.binary header op left right)
  | shifted {header : Header} {op : BinaryOp} {left amount : Expr} {type : IntegerType}
      (isType : header.type = .integer type) (isShift : op.isShift = true)
      (typedLeft : Typed admits (.integer type) left) (typedAmount : Typed admits .int32 amount) :
      Typed admits (.integer type) (.binary header op left amount)
  | compared {header : Header} {op : BinaryOp} {left right : Expr} {type : TypeSig}
      (isType : header.type = .bool) (admitted : admits .bool) (isComparison : op.isComparison = true)
      (typedLeft : Typed admits type left) (typedRight : Typed admits type right) :
      Typed admits .bool (.binary header op left right)
  | connected {header : Header} {op : BinaryOp} {left right : Expr} (isType : header.type = .bool)
      (isLogical : op.isLogical = true) (typedLeft : Typed admits .bool left)
      (typedRight : Typed admits .bool right) : Typed admits .bool (.binary header op left right)
  | negated {header : Header} {operand : Expr} (isType : header.type = .bool)
      (typed : Typed admits .bool operand) : Typed admits .bool (.unary header .logicalNot operand)
  | chosen {header : Header} {test onTrue onFalse : Expr} {type : TypeSig}
      (isType : header.type = type) (typedTest : Typed admits .bool test)
      (typedTrue : Typed admits type onTrue) (typedFalse : Typed admits type onFalse) :
      Typed admits type (.conditional header test onTrue onFalse)

variable {bindings : Bindings} {admits : TypeSig → Prop} {type : TypeSig} {expr : Expr}

theorem number_binary {header : Header} {op : BinaryOp} {left right : Expr} {outcome : Int}
    (isOutcome : op.outcome? header.type.width (left.number bindings) (right.number bindings) =
      some outcome) : (binary header op left right).number bindings = header.type.wrap outcome := by
  rw [number, isOutcome, Option.getD_some]

theorem number_bool (header : Header) (value : Bool) :
    (constant header (.bool value)).number bindings = header.type.wrap value.toInt := by
  cases value <;> rfl

theorem toInt_bne_zero (holds : Bool) : (holds.toInt != 0) = holds := by
  cases holds <;> rfl

theorem truth_binary {header : Header} {op : BinaryOp} {left right : Expr} {holds : Bool}
    (isType : header.type = .bool)
    (isOutcome : op.outcome? 0 (left.number bindings) (right.number bindings) = some holds.toInt) :
    (binary header op left right).truth bindings = holds := by
  have isNumber : (binary header op left right).number bindings = header.type.wrap holds.toInt := by
    refine number_binary ?_
    rw [isType]
    exact isOutcome
  rw [truth, isNumber, isType, wrap_toInt rfl, toInt_bne_zero]

theorem number_leaf (isLeaf : expr.isLeaf = true) :
    ∃ value, expr.number bindings = expr.type.wrap value := by
  cases expr <;> first | exact ⟨_, rfl⟩ | cases isLeaf

namespace Typed

theorem type_eq (typed : Typed admits type expr) : expr.type = type := by
  cases typed <;> first | rfl | assumption

theorem isScalar (typed : Typed admits type expr) : type.isScalar = true := by
  induction typed with
  | @constant header value _ isOf =>
    unfold Constant.IsOf at isOf
    split at isOf <;> first | exact isOf.elim | simp [*, TypeSig.isScalar]
  | chosen _ _ _ _ _ ih _ => exact ih
  | leaf _ isScalar _ => exact isScalar
  | converted _ isScalar _ _ => exact isScalar
  | _ => rfl

theorem admitted (typed : Typed admits type expr) : admits type := by
  induction typed with
  | constant admitted _ | leaf admitted _ _ | converted admitted _ _ _ => exact admitted
  | compared _ admitted => exact admitted
  | inverted _ _ _ ih => exact ih
  | computed _ _ _ _ _ ih _ => exact ih
  | shifted _ _ _ _ ih _ => exact ih
  | connected _ _ _ _ ih _ => exact ih
  | negated _ _ ih => exact ih
  | chosen _ _ _ _ _ ih _ => exact ih

theorem wrap_number (typed : Typed admits type expr) :
    type.wrap (expr.number bindings) = expr.number bindings := by
  induction typed with
  | constant => exact wrap_wrap ..
  | leaf _ _ isLeaf =>
    obtain ⟨value, isValue⟩ := @number_leaf bindings _ isLeaf
    rw [isValue, wrap_wrap]
  | converted => exact wrap_wrap ..
  | inverted isType isInversion =>
    rcases isInversion with rfl | rfl <;> rw [number, isType, wrap_wrap]
  | computed isType | shifted isType | compared isType | connected isType =>
    rw [number, isType, wrap_wrap]
  | negated => exact wrap_toInt rfl _
  | chosen _ _ _ _ _ trueIh falseIh =>
    rw [number]
    split
    · exact trueIh
    · exact falseIh

theorem number_eq (typed : Typed admits .bool expr) (bindings : Bindings) :
    expr.number bindings = (expr.truth bindings).toInt :=
  typed.wrap_number.symm

end Typed

end Expr

end CilLift
