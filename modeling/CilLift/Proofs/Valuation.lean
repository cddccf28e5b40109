import CilLift.Machine.Operators
import CilLift.Proofs.Outcome
import CilLift.Proofs.Placement

/-!
The value of integer trees in 32-bit arithmetic, where a node of type `bool` is zero or one. The trees
that are built from the values of an evaluation stack have the value that the stack would hold, but
for arithmetic on two conditions, which gives a condition again.
-/

namespace CilLift

open List CilLift.Expr Option TypeSig

variable {op : BinaryOp} {leftWord rightWord : Int32} {holds : Bool}

/-- A condition as an integer. -/
def wordOf (holds : Bool) : Int32 := if holds then 1 else 0

/-- A word as a value of the type; of a condition it only counts whether it is zero. -/
def TypeSig.keep (type : TypeSig) (word : Int32) : Int32 :=
  if type.isBool then wordOf (word != 0) else word

def BinaryOp.compute? (left right : Int32) : BinaryOp → Option Int32
  | .add => some (left + right)
  | .subtract => some (left - right)
  | .multiply => some (left * right)
  | .equal => some (wordOf (left == right))
  | .notEqual => some (wordOf (left != right))
  | .lessThan => some (wordOf (left < right))
  | .lessThanOrEqual => some (wordOf (left ≤ right))
  | .greaterThan => some (wordOf (right < left))
  | .greaterThanOrEqual => some (wordOf (right ≤ left))
  | _ => none

/-- The arithmetic that has an opcode and an operator of its own. -/
inductive Arithmetic where
  | add
  | subtract
  | multiply
  deriving DecidableEq

namespace Arithmetic

def compute : Arithmetic → Int32 → Int32 → Int32
  | .add => (· + ·)
  | .subtract => (· - ·)
  | .multiply => (· * ·)

def operator : Arithmetic → BinaryOp
  | .add => .add
  | .subtract => .subtract
  | .multiply => .multiply

def opcode : Arithmetic → Opcode
  | .add => .add
  | .subtract => .sub
  | .multiply => .mul

theorem compute?_operator (kind : Arithmetic) (left right : Int32) :
    kind.operator.compute? left right = some (kind.compute left right) := by
  cases kind <;> rfl

theorem stackOperation?_opcode (kind : Arithmetic) :
    ∃ consumer, Machine.stackOperation? kind.opcode = some (.arithmetic consumer kind.operator) := by
  cases kind <;> exact ⟨_, rfl⟩

end Arithmetic

def Constant.word? : Constant → Option Int32
  | .integer .int32 value => some (Int32.ofInt value)
  | _ => none

/-- The value of a tree of integers and conditions, for given arguments. -/
def Expr.evaluate (arguments : Nat → Int32) : Expr → Option Int32
  | .constant _ value => value.word?
  | .parameter _ slot _ => some (arguments slot)
  | .unary _ .logicalNot operand => do
    let value ← operand.evaluate arguments
    return wordOf (value == 0)
  | .binary header op left right => do
    let left ← left.evaluate arguments
    let right ← right.evaluate arguments
    return header.type.keep (← op.compute? left right)
  | .conditional _ test onTrue onFalse => do
    let test ← test.evaluate arguments
    let onTrue ← onTrue.evaluate arguments
    let onFalse ← onFalse.evaluate arguments
    return if test != 0 then onTrue else onFalse
  | _ => none

namespace Expr

variable {arguments : Nat → Int32}

theorem evaluate_shape (expr : Expr) : expr.shape.evaluate arguments = expr.evaluate arguments := by
  induction expr using partsInduction with
  | step expr ih =>
    cases expr <;> simp only [parts, children] at ih
    case unary header op operand => cases op <;> simp [shape, evaluate, ih]
    case binary => simp [shape, evaluate, ih]
    case conditional => simp [shape, evaluate, ih]
    all_goals rfl

theorem evaluate_place (next : Nat) (expr : Expr) :
    (expr.place next).1.evaluate arguments = expr.evaluate arguments := by
  rw [← evaluate_shape, shape_place, evaluate_shape]

/-- A tree with a value runs no code. -/
theorem hasCalls_of_evaluate {expr : Expr} {value : Int32} (isPure : Method → Bool)
    (isValue : expr.evaluate arguments = some value) : expr.hasCalls isPure = false := by
  unfold hasCalls
  induction expr using partsInduction generalizing value with
  | step expr ih =>
    cases expr <;> simp only [parts, children, mem_cons, not_mem_nil, or_false,
      forall_eq_or_imp, forall_eq] at ih
    case constant | parameter => rfl
    case unary header op operand =>
      cases op
      case logicalNot =>
        obtain ⟨_, isOperand, -⟩ := bind_eq_some_iff.1 isValue
        simp [any, ih isOperand]
      all_goals cases isValue
    case binary header op left right =>
      obtain ⟨_, isLeft, isValue⟩ := bind_eq_some_iff.1 isValue
      obtain ⟨_, isRight, -⟩ := bind_eq_some_iff.1 isValue
      simp [any, ih.1 isLeft, ih.2 isRight]
    case conditional header test onTrue onFalse =>
      obtain ⟨_, isTest, isValue⟩ := bind_eq_some_iff.1 isValue
      obtain ⟨_, isTrue, isValue⟩ := bind_eq_some_iff.1 isValue
      obtain ⟨_, isFalse, -⟩ := bind_eq_some_iff.1 isValue
      simp [any, ih.1 isTest, ih.2.1 isTrue, ih.2.2 isFalse]
    all_goals cases isValue

end Expr

/-- What a stack holds: a number, or a condition that has not met a number yet. -/
inductive Cell where
  | number (word : Int32)
  | condition (holds : Bool)
  deriving DecidableEq

namespace Cell

/-- The cell as a number. -/
def word : Cell → Int32
  | .number word => word
  | .condition holds => wordOf holds

def type : Cell → TypeSig
  | .number _ => .int32
  | .condition _ => .bool

/-- Arithmetic on two cells. On two conditions the outcome is a condition, and only counts as zero or
not zero. -/
def combine (compute : Int32 → Int32 → Int32) : Cell → Cell → Cell
  | .condition left, .condition right =>
    .condition (compute (wordOf left) (wordOf right) != 0)
  | left, right => .number (compute left.word right.word)

/-- The type in which two cells meet. -/
def meetingType : Cell → Cell → TypeSig
  | .condition _, .condition _ => .bool
  | _, _ => .int32

theorem combine_word (compute : Int32 → Int32 → Int32) (first second : Cell) :
    (combine compute first second).word =
      (meetingType first second).keep (compute first.word second.word) := by
  cases first <;> cases second <;> rfl

theorem combine_type (compute : Int32 → Int32 → Int32) (first second : Cell) :
    (combine compute first second).type = meetingType first second := by
  cases first <;> cases second <;> rfl

end Cell

theorem TypeSig.keep_bool (word : Int32) : bool.keep word = wordOf (word != 0) := rfl

theorem wordOf_bne_zero (holds : Bool) : (wordOf holds != 0) = holds := by
  cases holds <;> rfl

theorem wordOf_beq_zero (holds : Bool) : (wordOf holds == 0) = !holds := by
  cases holds <;> rfl

theorem BinaryOp.exists_complement {op : BinaryOp} (isComparison : op.isComparison = true) :
    ∃ complement, op.complement? = some complement := by
  cases op <;> first | exact ⟨_, rfl⟩ | cases isComparison

theorem BinaryOp.compute?_complement {complement : BinaryOp} (left right : Int32)
    (isComplement : op.complement? = some complement) :
    ∃ holds, op.compute? left right = some (wordOf holds) ∧
      complement.compute? left right = some (wordOf !holds) := by
  unfold complement? at isComplement
  split at isComplement <;> cases isComplement <;> refine ⟨_, rfl, ?_⟩ <;>
    simp [compute?, ← decide_not, bne]

namespace Expr

/-- The conditions that comparisons and arithmetic on conditions leave on a stack. -/
def IsTest : Expr → Prop
  | .binary header op _ _ => header.type = .bool ∧ op.isLogical = false
  | .unary header .logicalNot inner => header.type = .bool ∧ inner.IsTest
  | _ => False

theorem isTest_shape (expr : Expr) : expr.shape.IsTest ↔ expr.IsTest := by
  induction expr using partsInduction with
  | step expr ih =>
    cases expr with
    | unary header op operand =>
      cases op with
      | logicalNot => exact and_congr_right fun _ => ih operand (by simp [parts, children])
      | _ => exact Iff.rfl
    | _ => exact Iff.rfl

/-- The tree stands for what a stack holds. -/
structure Denotes (arguments : Nat → Int32) (expr : Expr) (cell : Cell) : Prop where
  value : expr.evaluate arguments = some cell.word
  type : expr.type = cell.type
  isTest : cell.type = .bool → expr.IsTest

variable {arguments : Nat → Int32} {expr result left right : Expr} {cell first second : Cell}
  {word : Int32}

theorem Denotes.place (denotes : expr.Denotes arguments cell) (next : Nat) :
    (expr.place next).1.Denotes arguments cell where
  value := (evaluate_place next expr).trans denotes.value
  type := (type_place next expr).trans denotes.type
  isTest isBool := by
    rw [← isTest_shape, shape_place, isTest_shape]
    exact denotes.isTest isBool

theorem coerce_of_type {target : TypeSig} (isType : expr.type = target) :
    expr.coerce target = .ok expr := by
  unfold coerce
  rw [if_pos (by simp [accepts, isType])]

theorem IsTest.type (isTest : expr.IsTest) : expr.type = .bool := by
  unfold IsTest at isTest
  split at isTest
  · exact isTest.1
  · exact isTest.1
  · exact isTest.elim

theorem isBool_of_type (isType : expr.type = .bool) : expr.isBool = true := by
  rw [isBool, isType]
  rfl

/-! Negation, by the node that it is pushed into. -/

section Negation

variable {header : Header} {op complement : BinaryOp} {test onTrue onFalse : Expr}
  {newLeft newRight newTrue newFalse : Expr}

/-- A node that a negation is put before, where others take it into their operands. -/
def isAtomic : Expr → Bool
  | .constant .. | .conditional .. | .unary _ .logicalNot _ => false
  | .binary _ op _ _ => !op.isLogical && !op.isComparison
  | _ => true

theorem logicalNot_atomic (isType : expr.type = .bool) (isAtomic : expr.isAtomic = true) :
    expr.logicalNot = .ok (mkUnary .logicalNot expr .bool) := by
  unfold logicalNot
  rw [if_pos (isBool_of_type isType)]
  cases expr with
  | constant | conditional => cases isAtomic
  | unary header op operand => cases op <;> first | rfl | cases isAtomic
  | binary header op left right => cases op <;> first | rfl | cases isAtomic
  | _ => rfl

theorem logicalNot_negation (isType : (unary header .logicalNot expr).type = .bool) :
    (unary header .logicalNot expr).logicalNot = .ok expr := by
  rw [logicalNot, if_pos (isBool_of_type isType)]

theorem logicalNot_literal {value : Bool} (isType : (constant header (.bool value)).type = .bool) :
    (constant header (.bool value)).logicalNot = .ok (boolean !value) := by
  rw [logicalNot, if_pos (isBool_of_type isType)]

theorem logicalNot_comparison (isType : (binary header op left right).type = .bool)
    (isComplement : op.complement? = some complement) :
    (binary header op left right).logicalNot = .ok (mkBinary complement left right .bool) := by
  unfold logicalNot
  rw [if_pos (isBool_of_type isType)]
  cases op <;> cases isComplement <;> rfl

theorem logicalNot_conditional (isType : (conditional header test onTrue onFalse).type = .bool)
    (isTrue : onTrue.logicalNot = .ok newTrue) (isFalse : onFalse.logicalNot = .ok newFalse) :
    (conditional header test onTrue onFalse).logicalNot = .ok (mkConditional test newTrue newFalse) := by
  rw [logicalNot, if_pos (isBool_of_type isType), isTrue, isFalse]
  rfl

theorem logicalNot_andAlso (isType : (binary header .andAlso left right).type = .bool)
    (isLeft : left.logicalNot = .ok newLeft) (isRight : right.logicalNot = .ok newRight) :
    (binary header .andAlso left right).logicalNot = logicalOr newLeft newRight := by
  rw [logicalNot, if_pos (isBool_of_type isType), isLeft, isRight]
  rfl

theorem logicalNot_orElse (isType : (binary header .orElse left right).type = .bool)
    (isLeft : left.logicalNot = .ok newLeft) (isRight : right.logicalNot = .ok newRight) :
    (binary header .orElse left right).logicalNot = logicalAnd newLeft newRight := by
  rw [logicalNot, if_pos (isBool_of_type isType), isLeft, isRight]
  rfl

end Negation

theorem IsTest.conversion (isTest : expr.IsTest) : expr.conversion .int32 = .fromBool := by
  have isBool := isBool_of_type isTest.type
  cases expr with
  | unary => simp [conversion, isBool, isNumberTarget, isNumeric, isInteger]
  | binary => simp [conversion, isBool, isNumberTarget, isNumeric, isInteger]
  | _ => exact isTest.elim

theorem IsTest.coerce_int32 (isTest : expr.IsTest) :
    expr.coerce .int32 = .ok (mkConditional expr (int 1) (int 0)) := by
  unfold coerce
  rw [isTest.type, isTest.conversion]
  rfl

theorem IsTest.exists_holds (isTest : expr.IsTest)
    (isValue : expr.evaluate arguments = some word) : ∃ holds, word = wordOf holds := by
  unfold IsTest at isTest
  split at isTest
  · obtain ⟨_, -, isValue⟩ := bind_eq_some_iff.1 isValue
    obtain ⟨_, -, isValue⟩ := bind_eq_some_iff.1 isValue
    obtain ⟨_, -, isValue⟩ := bind_eq_some_iff.1 isValue
    rw [isTest.1] at isValue
    cases isValue
    exact ⟨_, rfl⟩
  · obtain ⟨_, -, isValue⟩ := bind_eq_some_iff.1 isValue
    cases isValue
    exact ⟨_, rfl⟩
  · exact isTest.elim

theorem evaluate_mkBinary {type : TypeSig} (isLeft : left.evaluate arguments = some leftWord)
    (isRight : right.evaluate arguments = some rightWord)
    (computes : op.compute? leftWord rightWord = some word) :
    (mkBinary op left right type).evaluate arguments = some (type.keep word) := by
  simp only [mkBinary, evaluate, isLeft, isRight, bind_eq_bind, bind_some, computes]
  rfl

/-- The negation of a condition. -/
theorem IsTest.logicalNot (isTest : expr.IsTest)
    (isValue : expr.evaluate arguments = some (wordOf holds))
    (negated : expr.logicalNot = .ok result) :
    result.evaluate arguments = some (wordOf !holds) ∧ result.IsTest := by
  have isBool := isBool_of_type isTest.type
  unfold IsTest at isTest
  unfold Expr.logicalNot at negated
  rw [if_pos isBool] at negated
  split at isTest
  · rename_i header op left right
    obtain ⟨isType, notLogical⟩ := isTest
    obtain ⟨leftWord, isLeft, later⟩ := bind_eq_some_iff.1 isValue
    obtain ⟨rightWord, isRight, later⟩ := bind_eq_some_iff.1 later
    obtain ⟨word, computes, isKept⟩ := bind_eq_some_iff.1 later
    rw [isType] at isKept
    have isWord : wordOf (word != 0) = wordOf holds := some.inj isKept
    cases isComplement : op.complement? with
    | some complement =>
      have isNegated : result = mkBinary complement left right .bool := by
        cases op <;> cases isComplement <;> cases negated <;> rfl
      obtain ⟨outcome, isOutcome, isOpposite⟩ :=
        BinaryOp.compute?_complement leftWord rightWord isComplement
      rw [isOutcome] at computes
      cases computes
      rw [isNegated, evaluate_mkBinary isLeft isRight isOpposite]
      refine ⟨?_, rfl, ?_⟩
      · cases outcome <;> cases holds <;> first | rfl | cases isWord
      · cases op <;> cases isComplement <;> rfl
    | none =>
      have isNegated : result = mkUnary .logicalNot (.binary header op left right) .bool := by
        cases op <;> cases isComplement <;> cases notLogical <;> cases negated <;> rfl
      rw [isNegated]
      refine ⟨?_, rfl, isType, notLogical⟩
      rw [mkUnary, evaluate, isValue, ← wordOf_beq_zero]
      rfl
  · cases negated
    obtain ⟨word, isInner, isWord⟩ := bind_eq_some_iff.1 isValue
    obtain ⟨inside, rfl⟩ := isTest.2.exists_holds isInner
    refine ⟨?_, isTest.2⟩
    rw [isInner]
    cases inside <;> cases holds <;> first | rfl | cases isWord
  · exact isTest.elim

theorem Denotes.coerce_int32 (denotes : expr.Denotes arguments cell)
    (coerced : expr.coerce .int32 = .ok result) :
    result.evaluate arguments = some cell.word ∧ result.type = .int32 := by
  cases cell with
  | number word =>
    have isType : expr.type = .int32 := denotes.type
    rw [coerce_of_type isType] at coerced
    cases coerced
    exact ⟨denotes.value, denotes.type⟩
  | condition holds =>
    rw [(denotes.isTest rfl).coerce_int32] at coerced
    cases coerced
    refine ⟨?_, rfl⟩
    simp only [mkConditional, evaluate, denotes.value]
    cases holds <;> rfl

theorem Denotes.ensureNumeric (denotes : expr.Denotes arguments cell)
    (ensured : expr.ensureNumeric = .ok result) :
    result.evaluate arguments = some cell.word ∧ result.type = .int32 := by
  unfold Expr.ensureNumeric at ensured
  cases cell with
  | number word =>
    rw [denotes.type] at ensured
    cases ensured
    exact ⟨denotes.value, denotes.type⟩
  | condition holds =>
    rw [denotes.type] at ensured
    exact denotes.coerce_int32 ensured

theorem isLogical_of_compute?
    (computes : op.compute? leftWord rightWord = some word) : op.isLogical = false := by
  cases op <;> first | rfl | cases computes

theorem evaluate_comparison (isLeft : left.evaluate arguments = some leftWord)
    (isRight : right.evaluate arguments = some rightWord)
    (computes : op.compute? leftWord rightWord = some (wordOf holds)) :
    (mkBinary op left right .bool).Denotes arguments (.condition holds) := by
  refine ⟨?_, rfl, fun _ => ⟨rfl, isLogical_of_compute? computes⟩⟩
  rw [evaluate_mkBinary isLeft isRight computes, keep_bool, wordOf_bne_zero]
  rfl

theorem IsTest.isConstant (isTest : expr.IsTest) : expr.isConstant = false := by
  cases expr with
  | constant => exact isTest.elim
  | _ => rfl

/-- A literal that can be read as a condition. -/
theorem Denotes.literal (denotes : expr.Denotes arguments cell) (isConstant : expr.isConstant = true)
    (coerced : expr.coerce .bool = .ok result) :
    ∃ holds, result.boolLiteral? = some holds ∧ cell.word = wordOf holds := by
  cases cell with
  | condition => exact absurd ((denotes.isTest rfl).isConstant.symm.trans isConstant) (by decide)
  | number word =>
    obtain ⟨header, value, rfl⟩ : ∃ header value, expr = .constant header value := by
      cases expr <;> first | exact ⟨_, _, rfl⟩ | cases isConstant
    have isType : (constant header value).type = .int32 := denotes.type
    have isWord : value.word? = some word := denotes.value
    unfold Constant.word? at isWord
    split at isWord
    · rename_i literal
      unfold coerce at coerced
      rw [isType] at coerced
      change coerceConstant (.integer .int32 literal) _ .bool = _ at coerced
      unfold coerceConstant at coerced
      dsimp only [Constant.toInt?] at coerced
      cases isWord
      split at coerced
      · rename_i isZero
        cases isZero
        cases coerced
        exact ⟨false, rfl, rfl⟩
      · rename_i isOne
        cases isOne
        cases coerced
        exact ⟨true, rfl, rfl⟩
      · cases coerced
    · cases isWord

theorem Denotes.isNull (denotes : expr.Denotes arguments cell) : expr.isNull = false := by
  unfold Expr.isNull
  split
  · cases denotes.value
  · rfl

section

variable (isLeft : left.Denotes arguments first)
  (isRight : right.Denotes arguments second)

include isLeft isRight

theorem operandType_eq : operandType left right = Cell.meetingType first second := by
  unfold operandType
  rw [isLeft.type, isRight.type]
  cases first <;> cases second <;> rfl

/-- Two values keep their meaning when they meet. -/
theorem coerce_meetingType {newLeft newRight : Expr}
    (coercedLeft : left.coerce (Cell.meetingType first second) = .ok newLeft)
    (coercedRight : right.coerce (Cell.meetingType first second) = .ok newRight) :
    newLeft.evaluate arguments = some first.word ∧ newRight.evaluate arguments = some second.word := by
  by_cases asConditions : Cell.meetingType first second = .bool
  · cases first <;> cases second <;> cases asConditions
    have leftType : left.type = .bool := isLeft.type
    have rightType : right.type = .bool := isRight.type
    rw [Cell.meetingType, coerce_of_type leftType] at coercedLeft
    rw [Cell.meetingType, coerce_of_type rightType] at coercedRight
    cases coercedLeft
    cases coercedRight
    exact ⟨isLeft.value, isRight.value⟩
  · have isNumber : Cell.meetingType first second = .int32 := by
      cases first <;> cases second <;> first | rfl | exact absurd rfl asConditions
    rw [isNumber] at coercedLeft coercedRight
    exact ⟨(isLeft.coerce_int32 coercedLeft).1, (isRight.coerce_int32 coercedRight).1⟩

/-- A condition is compared with a literal. -/
theorem exists_literal {literal other : Expr} (compared : constantAndBool? left right =
    some (literal, other)) :
    ∃ cell outcome, literal.isConstant = true ∧ literal.Denotes arguments cell ∧
      other.Denotes arguments (.condition outcome) ∧
      (first.word == second.word) = (cell.word == wordOf outcome) := by
  have condition {expr : Expr} {cell : Cell} (denotes : expr.Denotes arguments cell)
      (isBool : expr.isBool = true) : ∃ outcome, cell = .condition outcome := by
    cases cell with
    | condition outcome => exact ⟨outcome, rfl⟩
    | number => rw [Expr.isBool, denotes.type] at isBool; cases isBool
  unfold constantAndBool? at compared
  split at compared
  · rename_i isConstant
    split at compared
    · rename_i isBool
      cases compared
      obtain ⟨outcome, rfl⟩ := condition isRight isBool
      exact ⟨first, outcome, isConstant, isLeft, isRight, rfl⟩
    · cases compared
  · split at compared
    · rename_i isConstant
      split at compared
      · rename_i isBool
        cases compared
        obtain ⟨outcome, rfl⟩ := condition isLeft isBool
        exact ⟨second, outcome, isConstant, isRight, isLeft, BEq.comm⟩
      · cases compared
    · cases compared

theorem foldable?_denotes {other : Expr}
    (folds : foldable? left right = .ok (some (holds, other))) :
    ∃ outcome, other.Denotes arguments (.condition outcome) ∧
      (first.word == second.word) = (holds == outcome) := by
  unfold foldable? at folds
  split at folds
  · cases folds
  · rename_i literal found compared
    obtain ⟨cell, outcome, isConstant, isLiteral, isOther, same⟩ :=
      exists_literal isLeft isRight compared
    obtain ⟨truth, coerced, folds⟩ := bind_eq_ok.1 folds
    obtain ⟨value, isValue, isWord⟩ := isLiteral.literal isConstant coerced
    rw [isValue] at folds
    cases folds
    refine ⟨outcome, isOther, ?_⟩
    rw [same, isWord]
    cases holds <;> cases outcome <;> rfl

/-- The outcome of a comparison for equality. -/
theorem equal_denotes (built : equal left right = .ok result) :
    result.Denotes arguments (.condition (first.word == second.word)) := by
  obtain ⟨folded, folds, built⟩ := bind_eq_ok.1 built
  match folded with
  | some (true, other) =>
    obtain ⟨outcome, isOther, same⟩ := foldable?_denotes isLeft isRight folds
    cases built
    rw [same, Bool.true_beq]
    exact isOther
  | some (false, other) =>
    obtain ⟨outcome, isOther, same⟩ := foldable?_denotes isLeft isRight folds
    rw [same, Bool.false_beq]
    obtain ⟨isValue, isTest⟩ := (isOther.isTest rfl).logicalNot isOther.value built
    exact ⟨isValue, isTest.type, fun _ => isTest⟩
  | none =>
    obtain ⟨newLeft, coercedLeft, built⟩ := bind_eq_ok.1 built
    obtain ⟨newRight, coercedRight, built⟩ := bind_eq_ok.1 built
    cases built
    have isType : comparisonType left right = Cell.meetingType first second := by
      rw [comparisonType, isLeft.isNull, isRight.isNull, ← operandType_eq isLeft isRight]
      rfl
    rw [isType] at coercedLeft coercedRight
    obtain ⟨leftValue, rightValue⟩ := coerce_meetingType isLeft isRight coercedLeft coercedRight
    exact evaluate_comparison leftValue rightValue rfl

end

/-- The outcome of arithmetic on two values. -/
theorem numeric_denotes {compute : Int32 → Int32 → Int32}
    (computes : ∀ left right, op.compute? left right = some (compute left right))
    (isLeft : left.Denotes arguments first) (isRight : right.Denotes arguments second)
    (built : numeric op left right = .ok result) :
    result.Denotes arguments (Cell.combine compute first second) := by
  obtain ⟨newLeft, coercedLeft, built⟩ := bind_eq_ok.1 built
  obtain ⟨newRight, coercedRight, built⟩ := bind_eq_ok.1 built
  cases built
  rw [operandType_eq isLeft isRight] at coercedLeft coercedRight ⊢
  obtain ⟨leftValue, rightValue⟩ := coerce_meetingType isLeft isRight coercedLeft coercedRight
  refine ⟨?_, (Cell.combine_type ..).symm, fun isBool => ?_⟩
  · rw [Cell.combine_word]
    exact evaluate_mkBinary leftValue rightValue (computes _ _)
  · rw [Cell.combine_type] at isBool
    exact ⟨isBool, isLogical_of_compute? (computes 0 0)⟩

/-- The outcome of an order comparison. -/
theorem numericComparison_denotes {holds : Int32 → Int32 → Bool}
    (computes : ∀ left right, op.compute? left right = some (wordOf (holds left right)))
    (isLeft : left.Denotes arguments first) (isRight : right.Denotes arguments second)
    (built : numericComparison op left right = .ok result) :
    result.Denotes arguments (.condition (holds first.word second.word)) := by
  obtain ⟨leftNumber, ensuredLeft, built⟩ := bind_eq_ok.1 built
  obtain ⟨rightNumber, ensuredRight, built⟩ := bind_eq_ok.1 built
  obtain ⟨leftValue, leftType⟩ := isLeft.ensureNumeric ensuredLeft
  obtain ⟨rightValue, rightType⟩ := isRight.ensureNumeric ensuredRight
  have isType : operandType leftNumber rightNumber = .int32 := by
    rw [operandType, leftType, rightType]
    rfl
  dsimp only at built
  rw [isType, coerce_of_type leftType, coerce_of_type rightType] at built
  cases built
  exact evaluate_comparison leftValue rightValue (computes _ _)

end Expr

end CilLift
