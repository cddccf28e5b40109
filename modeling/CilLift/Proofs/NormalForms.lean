import CilLift.Proofs.Conditions
import CilLift.Proofs.Truth

/-!
Conditions in normal form: a negation stands only before a node that it cannot be pushed into, and no
literal is the operand of a connective. The builders of conditions keep this form, and a condition in
normal form that is negated twice is the condition itself.
-/

namespace CilLift

theorem BinaryOp.complement?_symm {op complement : BinaryOp}
    (isComplement : op.complement? = some complement) : complement.complement? = some op := by
  cases op <;> cases isComplement <;> rfl

namespace Expr

/-- The conditions that no rule of the builders simplifies. -/
inductive IsNormal : Expr → Prop where
  | literal {header : Header} (isType : header.type = .bool) (value : Bool) :
    IsNormal (.constant header (.bool value))
  | atom {expr : Expr} (isType : expr.type = .bool) (isAtomic : expr.isAtomic = true) : IsNormal expr
  | negation {header : Header} {operand : Expr} (isType : header.type = .bool)
    (operandType : operand.type = .bool) (isAtomic : operand.isAtomic = true) :
    IsNormal (.unary header .logicalNot operand)
  | comparison {header : Header} {op : BinaryOp} {left right : Expr} (isType : header.type = .bool)
    (isComparison : op.isComparison = true) : IsNormal (.binary header op left right)
  | connective {header : Header} {op : BinaryOp} {left right : Expr} (isType : header.type = .bool)
    (isLogical : op.isLogical = true) (leftIs : IsNormal left) (rightIs : IsNormal right)
    (openLeft : left.isConstant = false) (openRight : right.isConstant = false) :
    IsNormal (.binary header op left right)
  | conditional {header : Header} {test onTrue onFalse : Expr} (isType : header.type = .bool)
    (trueIs : IsNormal onTrue) (falseIs : IsNormal onFalse) :
    IsNormal (.conditional header test onTrue onFalse)

variable {op complement : BinaryOp} {header : Header} {expr left right test onTrue onFalse : Expr}
  {newLeft newRight newTrue newFalse : Expr}

theorem IsNormal.type (isNormal : expr.IsNormal) : expr.type = .bool := by
  cases isNormal <;> assumption

theorem IsNormal.boolean (value : Bool) : (boolean value).IsNormal := .literal rfl value

theorem IsNormal.exists_bool (isNormal : expr.IsNormal) (isConstant : expr.isConstant = true) :
    ∃ header value, expr = .constant header (.bool value) := by
  obtain ⟨header, value, rfl⟩ := exists_constant isConstant
  cases isNormal with
  | literal => exact ⟨_, _, rfl⟩
  | atom _ isAtomic => cases isAtomic

/-! Connectives. -/

/-- A condition that a connective does not fold. -/
structure IsOpen (expr : Expr) : Prop where
  type : expr.type = .bool
  isConstant : expr.isConstant = false

theorem IsOpen.of_shape (isOpen : left.IsOpen) (sameShape : right.shape = left.shape) :
    right.IsOpen where
  type := by rw [← type_shape, sameShape, type_shape, isOpen.type]
  isConstant := by
    have isConstant := isOpen.isConstant
    cases left <;> cases right <;> first | rfl | cases sameShape | cases isConstant

theorem IsOpen.foldable? (leftIs : left.IsOpen) (rightIs : right.IsOpen) :
    foldable? left right = .ok none := by
  simp [Expr.foldable?, constantAndBool?, leftIs.isConstant, rightIs.isConstant]

theorem IsOpen.logicalAnd (leftIs : left.IsOpen) (rightIs : right.IsOpen) :
    logicalAnd left right = .ok (mkBinary .andAlso left right .bool) := by
  rw [Expr.logicalAnd, leftIs.foldable? rightIs]
  exact connective_of_bool .andAlso leftIs.type rightIs.type

theorem IsOpen.logicalOr (leftIs : left.IsOpen) (rightIs : right.IsOpen) :
    logicalOr left right = .ok (mkBinary .orElse left right .bool) := by
  rw [Expr.logicalOr, leftIs.foldable? rightIs]
  exact connective_of_bool .orElse leftIs.type rightIs.type

/-- A literal among two operands in normal form is folded. -/
theorem IsNormal.folds (leftIs : left.IsNormal) (rightIs : right.IsNormal) :
    (∃ value other, foldable? left right = .ok (some (value, other)) ∧ other.IsNormal) ∨
      left.IsOpen ∧ right.IsOpen := by
  cases leftConstant : left.isConstant with
  | true =>
    obtain ⟨header, value, rfl⟩ := leftIs.exists_bool leftConstant
    refine .inl ⟨value, right, ?_, rightIs⟩
    simp only [foldable?, constantAndBool?, leftConstant, isBool_of_type rightIs.type, if_true,
      coerce_of_type leftIs.type]
    rfl
  | false =>
    cases rightConstant : right.isConstant with
    | true =>
      obtain ⟨header, value, rfl⟩ := rightIs.exists_bool rightConstant
      refine .inl ⟨value, left, ?_, leftIs⟩
      simp only [foldable?, constantAndBool?, leftConstant, rightConstant, if_true,
        isBool_of_type leftIs.type, Bool.false_eq_true, if_false, coerce_of_type rightIs.type]
      rfl
    | false => exact .inr ⟨⟨leftIs.type, leftConstant⟩, rightIs.type, rightConstant⟩

theorem IsNormal.logicalAnd (leftIs : left.IsNormal) (rightIs : right.IsNormal) :
    ∃ result, logicalAnd left right = .ok result ∧ result.IsNormal := by
  rcases leftIs.folds rightIs with ⟨value, other, isFolded, otherIs⟩ | ⟨openLeft, openRight⟩
  · rw [Expr.logicalAnd, isFolded]
    cases value with
    | true => exact ⟨other, rfl, otherIs⟩
    | false => exact ⟨_, rfl, .boolean false⟩
  · exact ⟨_, openLeft.logicalAnd openRight,
      .connective rfl rfl leftIs rightIs openLeft.isConstant openRight.isConstant⟩

theorem IsNormal.logicalOr (leftIs : left.IsNormal) (rightIs : right.IsNormal) :
    ∃ result, logicalOr left right = .ok result ∧ result.IsNormal := by
  rcases leftIs.folds rightIs with ⟨value, other, isFolded, otherIs⟩ | ⟨openLeft, openRight⟩
  · rw [Expr.logicalOr, isFolded]
    cases value with
    | true => exact ⟨_, rfl, .boolean true⟩
    | false => exact ⟨other, rfl, otherIs⟩
  · exact ⟨_, openLeft.logicalOr openRight,
      .connective rfl rfl leftIs rightIs openLeft.isConstant openRight.isConstant⟩

/-! Negation. -/

/-- The connective that De Morgan's laws turn the given one into. -/
def dual (op : BinaryOp) : BinaryOp :=
  if op = .andAlso then .orElse else .andAlso

theorem logicalNot_connective (isType : (binary header op left right).type = .bool)
    (isLogical : op.isLogical = true) (isLeft : left.logicalNot = .ok newLeft)
    (isRight : right.logicalNot = .ok newRight) (openLeft : newLeft.IsOpen)
    (openRight : newRight.IsOpen) :
    (binary header op left right).logicalNot = .ok (mkBinary (dual op) newLeft newRight .bool) := by
  cases op <;> try cases isLogical
  · exact (logicalNot_andAlso isType isLeft isRight).trans (openLeft.logicalOr openRight)
  · exact (logicalNot_orElse isType isLeft isRight).trans (openLeft.logicalAnd openRight)

/-- The negation of a condition in normal form is in normal form and leads back to the condition.
That it is no literal where the condition is none keeps the connectives from folding it. -/
structure Inverts (expr negated : Expr) : Prop where
  isNormal : negated.IsNormal
  isOpen : expr.isConstant = false → negated.isConstant = false
  restores : ∃ restored, negated.logicalNot = .ok restored ∧ restored.shape = expr.shape

theorem inverts_connective (isType : header.type = .bool) (isLogical : op.isLogical = true)
    (openLeft : left.IsOpen) (openRight : right.IsOpen) (leftInverts : Inverts left newLeft)
    (rightInverts : Inverts right newRight) :
    Inverts (binary header op left right) (mkBinary (dual op) newLeft newRight .bool) := by
  obtain ⟨leftIs, leftOpen, restoredLeft, isRestoredLeft, leftShape⟩ := leftInverts
  obtain ⟨rightIs, rightOpen, restoredRight, isRestoredRight, rightShape⟩ := rightInverts
  have isDual : (dual op).isLogical = true ∧ dual (dual op) = op := by
    cases op <;> cases isLogical <;> exact ⟨rfl, rfl⟩
  refine ⟨.connective rfl isDual.1 leftIs rightIs (leftOpen openLeft.isConstant)
    (rightOpen openRight.isConstant), fun _ => rfl, _, logicalNot_connective rfl isDual.1
    isRestoredLeft isRestoredRight (openLeft.of_shape leftShape) (openRight.of_shape rightShape), ?_⟩
  rw [mkBinary, shape, shape, leftShape, rightShape, isDual.2, isType]

/-- Every condition in normal form has a negation, which leads back to it. -/
theorem IsNormal.logicalNot (isNormal : expr.IsNormal) :
    ∃ negated, expr.logicalNot = .ok negated ∧ Inverts expr negated := by
  induction isNormal with
  | literal isType value =>
    refine ⟨_, logicalNot_literal isType, .boolean _, nofun, _, logicalNot_literal rfl, ?_⟩
    rw [Bool.not_not, shape, isType]
    rfl
  | atom isType isAtomic =>
    exact ⟨_, logicalNot_atomic isType isAtomic, .negation rfl isType isAtomic, fun _ => rfl, _,
      logicalNot_negation rfl, rfl⟩
  | @negation header operand isType operandType isAtomic =>
    refine ⟨operand, logicalNot_negation isType, .atom operandType isAtomic, fun _ => ?_, _,
      logicalNot_atomic operandType isAtomic, ?_⟩
    · cases operand <;> first | rfl | cases isAtomic
    · rw [mkUnary, shape, shape, isType]
  | @comparison header op left right isType isComparison =>
    obtain ⟨complement, isComplement⟩ := BinaryOp.exists_complement isComparison
    refine ⟨_, logicalNot_comparison isType isComplement,
      .comparison rfl (isComparison_complement isComplement), fun _ => rfl, _,
      logicalNot_comparison rfl (BinaryOp.complement?_symm isComplement), ?_⟩
    rw [mkBinary, shape, shape, isType]
  | connective isType isLogical leftIs rightIs openLeft openRight leftNegates rightNegates =>
    obtain ⟨newLeft, isNewLeft, leftInverts⟩ := leftNegates
    obtain ⟨newRight, isNewRight, rightInverts⟩ := rightNegates
    exact ⟨_, logicalNot_connective isType isLogical isNewLeft isNewRight
      ⟨leftInverts.isNormal.type, leftInverts.isOpen openLeft⟩
      ⟨rightInverts.isNormal.type, rightInverts.isOpen openRight⟩,
      inverts_connective isType isLogical ⟨leftIs.type, openLeft⟩ ⟨rightIs.type, openRight⟩
        leftInverts rightInverts⟩
  | conditional isType trueIs falseIs trueNegates falseNegates =>
    obtain ⟨newTrue, isNewTrue, trueNormal, -, restoredTrue, isRestoredTrue, trueShape⟩ := trueNegates
    obtain ⟨newFalse, isNewFalse, falseNormal, -, restoredFalse, isRestoredFalse, falseShape⟩ :=
      falseNegates
    refine ⟨_, logicalNot_conditional isType isNewTrue isNewFalse,
      .conditional trueNormal.type trueNormal falseNormal, fun _ => rfl, _,
      logicalNot_conditional trueNormal.type isRestoredTrue isRestoredFalse, ?_⟩
    rw [mkConditional, shape, shape, falseShape, isType, ← type_shape, trueShape, type_shape, trueIs.type]

/-! Conditionals. -/

/-- A condition between normal trees is normal. -/
theorem IsNormal.condition (testIs : test.IsNormal) (trueIs : onTrue.IsNormal)
    (falseIs : onFalse.IsNormal) :
    ∃ result, condition test onTrue onFalse = .ok result ∧ result.IsNormal := by
  obtain ⟨negated, isNegated, negatedIs, -⟩ := testIs.logicalNot
  unfold Expr.condition
  rw [if_pos (isBool_of_type testIs.type), isBool_of_type trueIs.type, isBool_of_type falseIs.type,
    isNegated]
  split
  · exact ⟨_, rfl, .boolean true⟩
  · exact ⟨test, rfl, testIs⟩
  · exact ⟨negated, rfl, negatedIs⟩
  · exact ⟨_, rfl, .boolean false⟩
  · exact testIs.logicalOr falseIs
  · exact negatedIs.logicalAnd falseIs
  · exact negatedIs.logicalOr trueIs
  · exact testIs.logicalAnd trueIs
  · exact ⟨_, chooseBetween_of_type (trueIs.type.trans falseIs.type.symm),
      .conditional trueIs.type trueIs falseIs⟩

/-- A condition in normal form can be negated, its negation is in normal form, and negating that
gives back the condition; connectives of and conditionals between conditions in normal form can be
built and are in normal form. -/
theorem negation_involutive (expr left right test : Expr) (isNormal : expr.IsNormal)
    (leftIs : left.IsNormal) (rightIs : right.IsNormal) (testIs : test.IsNormal) :
    (∃ negated restored, expr.logicalNot = .ok negated ∧ negated.IsNormal ∧
      negated.logicalNot = .ok restored ∧ restored.shape = expr.shape) ∧
    (∃ result, logicalAnd left right = .ok result ∧ result.IsNormal) ∧
    (∃ result, logicalOr left right = .ok result ∧ result.IsNormal) ∧
    ∃ result, condition test left right = .ok result ∧ result.IsNormal := by
  obtain ⟨negated, isNegated, negatedIs, -, restored, isRestored, sameShape⟩ := isNormal.logicalNot
  exact ⟨⟨negated, restored, isNegated, negatedIs, isRestored, sameShape⟩,
    leftIs.logicalAnd rightIs, leftIs.logicalOr rightIs, testIs.condition leftIs rightIs⟩

/-- The negation of a conjunction of a comparison and a negated parameter is the disjunction of
their opposites. -/
theorem negation_involutive_conjunction :
    let flag := mkParameter 0 "flag" .bool
    let compared := mkBinary .lessThan (mkParameter 1 "x" .int32) (int 3) .bool
    let conjunction := mkBinary .andAlso compared (mkUnary .logicalNot flag .bool) .bool
    ∃ negated restored, conjunction.logicalNot = .ok negated ∧ negated.IsNormal ∧
      negated.logicalNot = .ok restored ∧ restored.shape = conjunction.shape := by
  intro flag compared conjunction
  have comparedIs : compared.IsNormal := .comparison rfl rfl
  have conjunctionIs : conjunction.IsNormal :=
    .connective rfl rfl comparedIs (.negation rfl rfl rfl) rfl rfl
  exact (negation_involutive conjunction compared compared compared conjunctionIs comparedIs
    comparedIs comparedIs).1

/-- A negation of type `bool` whose operand is a number leads to the number, which cannot be
negated. -/
theorem number_not_negated_back :
    let number := mkParameter 0 "x" .int32
    (mkUnary .logicalNot number .bool).logicalNot = .ok number ∧
      number.logicalNot = .error (.invalidCoercion .int32 .bool) := by
  exact ⟨logicalNot_negation rfl, rfl⟩

end Expr

end CilLift
