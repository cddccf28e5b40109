import CilLift.Proofs.Valuation

/-!
Conditions and numbers under a valuation of their leaves. The negation, the connectives and the
conditional that are built from them always succeed and mean what they say, whatever literals are
folded away and however deep a negation is pushed. Only a comparison of floats is not negated by its
opposite where one of them is not a number.
-/

namespace CilLift

open CilLift.Expr TypeSig

variable {op complement : BinaryOp} {header : Header} {neutral : Bool}
  {combine : Bool → Bool → Bool}

/-- What the leaves of a tree stand for. A node that is not taken apart here is told by its shape,
and so are values that are compared and are not words. -/
structure Valuation where
  argument : Nat → Int32
  content : Nat → Int32
  other : Expr → Int32
  compared : Expr → Expr → Option Ordering

namespace BinaryOp

/-- The comparisons that floats can fail together with their opposite. -/
def isOrder : BinaryOp → Bool
  | .lessThan | .lessThanOrEqual | .greaterThan | .greaterThanOrEqual => true
  | _ => false

/-- What a comparison says of values that compare in the given way, or not at all. -/
def judge? (found : Option Ordering) : BinaryOp → Option Bool
  | .equal => some (found == some .eq)
  | .notEqual => some (found != some .eq)
  | .lessThan => some (found == some .lt)
  | .lessThanOrEqual => some (found == some .lt || found == some .eq)
  | .greaterThan => some (found == some .gt)
  | .greaterThanOrEqual => some (found == some .gt || found == some .eq)
  | _ => none

theorem judge?_complement {found : Option Ordering}
    (isComplement : op.complement? = some complement)
    (compares : op.isOrder = true → found.isSome = true) :
    ∃ holds, op.judge? found = some holds ∧ complement.judge? found = some !holds := by
  cases op <;> cases isComplement <;> refine ⟨_, rfl, ?_⟩ <;>
    rcases found with _ | _ | _ | _ <;> first | rfl | cases compares rfl

end BinaryOp

namespace Expr

/-- The node is a condition or a 32-bit number. -/
def isWord (expr : Expr) : Bool := expr.type == .bool || expr.type == .int32

/-- How two values compare. Only floats may not compare at all. -/
def compare? (valuation : Valuation) (left right : Expr) : Option Ordering :=
  let found := valuation.compared left.shape right.shape
  if left.type.isFloat || right.type.isFloat then found else some (found.getD .eq)

/-- The value of a condition, which is zero or one, or of a 32-bit number. -/
def word (valuation : Valuation) : Expr → Int32
  | .constant _ (.bool holds) => wordOf holds
  | .constant _ (.integer .int32 value) => Int32.ofInt value
  | .parameter header slot _ => header.type.keep (valuation.argument slot)
  | .var header number _ => header.type.keep (valuation.content number)
  | .unary _ .logicalNot operand => wordOf (operand.word valuation == 0)
  | .binary _ .andAlso left right =>
    wordOf (left.word valuation != 0 && right.word valuation != 0)
  | .binary _ .orElse left right =>
    wordOf (left.word valuation != 0 || right.word valuation != 0)
  | .binary header op left right =>
    let computed :=
      if left.isWord && right.isWord then op.compute? (left.word valuation) (right.word valuation)
      else (op.judge? (compare? valuation left right)).map wordOf
    header.type.keep (computed.getD (valuation.other (binary header op left right).shape))
  | .conditional _ test onTrue onFalse =>
    if test.word valuation != 0 then onTrue.word valuation else onFalse.word valuation
  | expr => expr.type.keep (valuation.other expr.shape)

/-- Whether a condition holds. -/
def holds (valuation : Valuation) (expr : Expr) : Bool := expr.word valuation != 0

/-- The tree is a condition, and its connectives and conditionals join conditions. -/
def IsCondition : Expr → Prop
  | .constant header value => header.type = .bool ∧ ∃ holds, value = .bool holds
  | .unary header .logicalNot operand => header.type = .bool ∧ operand.IsCondition
  | .binary header op left right =>
    header.type = .bool ∧ (op.isLogical = true → left.IsCondition ∧ right.IsCondition)
  | .conditional header test onTrue onFalse =>
    header.type = .bool ∧ test.IsCondition ∧ onTrue.IsCondition ∧ onFalse.IsCondition
  | .branch .. => False
  | expr => expr.type = .bool

/-- The values that a condition compares by order do compare, so that the opposite comparison is the
negation. -/
def Comparable (valuation : Valuation) : Expr → Prop
  | .unary _ .logicalNot operand => operand.Comparable valuation
  | .binary _ op left right =>
    (op.isLogical = true → left.Comparable valuation ∧ right.Comparable valuation) ∧
      (op.isOrder = true → (compare? valuation left right).isSome = true)
  | .conditional _ _ onTrue onFalse => onTrue.Comparable valuation ∧ onFalse.Comparable valuation
  | _ => True

variable {valuation : Valuation} {expr left right test onTrue onFalse : Expr}

theorem isWord_shape (expr : Expr) : expr.shape.isWord = expr.isWord := by
  rw [isWord, type_shape, isWord]

/-- A shape is its own shape. -/
theorem shape_shape (expr : Expr) : expr.shape.shape = expr.shape := by
  induction expr using partsInduction with
  | step expr ih =>
    have ofList : ∀ exprs : List Expr, (∀ part ∈ exprs, part ∈ expr.parts) →
        shapes (shapes exprs) = shapes exprs := by
      intro exprs areParts
      rw [shapes_eq, shapes_eq, List.map_map]
      exact List.map_congr_left fun part mem => ih part (areParts part mem)
    have ofReceiver : ∀ receiver : Option Expr, (∀ part ∈ receiver, part ∈ expr.parts) →
        receiverShape (receiverShape receiver) = receiverShape receiver := by
      rintro (_ | receiver) areParts
      · rfl
      · exact congrArg some (ih receiver (areParts receiver rfl))
    cases expr <;> simp only [parts, children] at ih ofList ofReceiver <;>
      simp +contextual [shape, ih, ofList, ofReceiver]

theorem compare?_shape (left right : Expr) :
    compare? valuation left.shape right.shape = compare? valuation left right := by
  simp [compare?, shape_shape, type_shape]

theorem word_binary (notLogical : op.isLogical = false) :
    (binary header op left right).word valuation = header.type.keep
      ((if left.isWord && right.isWord then
          op.compute? (left.word valuation) (right.word valuation)
        else (op.judge? (compare? valuation left right)).map wordOf).getD
        (valuation.other (binary header op left right).shape)) := by
  cases op <;> first | rfl | cases notLogical

/-- The value of a tree does not depend on its identities. -/
theorem word_shape (expr : Expr) : expr.shape.word valuation = expr.word valuation := by
  induction expr using partsInduction with
  | step expr ih =>
    have opaqueNode : expr.shape.type.keep (valuation.other expr.shape.shape) =
        expr.type.keep (valuation.other expr.shape) := by
      rw [shape_shape, type_shape]
    cases expr <;> simp only [parts, children, List.mem_cons, forall_eq_or_imp] at ih
    case constant header value =>
      cases value <;> try exact opaqueNode
      case bool => rfl
      case integer type value => cases type <;> rfl
    case parameter | var => rfl
    case unary header op operand =>
      cases op
      case logicalNot => simp [shape, word, ih]
      all_goals exact opaqueNode
    case binary header op left right =>
      by_cases isLogical : op.isLogical = true
      · cases op <;> first
        | exact absurd isLogical (by decide)
        | simp [shape, word, ih]
      · have isShape : (binary header op left right).shape.shape = _ := shape_shape _
        simp only [shape] at isShape ⊢
        rw [word_binary (by simpa using isLogical), word_binary (by simpa using isLogical)]
        simp only [shape, isWord_shape, compare?_shape, ih] at isShape ⊢
        rw [isShape]
    case conditional => simp [shape, word, ih]
    all_goals exact opaqueNode

theorem word_place (next : Nat) (expr : Expr) :
    (expr.place next).1.word valuation = expr.word valuation := by
  rw [← word_shape, shape_place, word_shape]

theorem exists_keep {type : TypeSig} (isBool : type = .bool) (word : Int32) :
    ∃ holds, type.keep word = wordOf holds := by
  rw [isBool]
  exact ⟨_, keep_bool word⟩

namespace IsCondition

theorem type (isCondition : expr.IsCondition) : expr.type = .bool := by
  unfold IsCondition at isCondition
  split at isCondition <;> first | exact isCondition.1 | exact isCondition | exact isCondition.elim

theorem exists_holds (isCondition : expr.IsCondition) (valuation : Valuation) :
    ∃ holds, expr.word valuation = wordOf holds := by
  induction expr using partsInduction with
  | step expr ih =>
    cases expr with
    | constant header value =>
      obtain ⟨-, holds, rfl⟩ := isCondition
      exact ⟨holds, rfl⟩
    | unary header op operand =>
      cases op with
      | logicalNot => exact ⟨_, rfl⟩
      | _ => exact exists_keep isCondition _
    | binary header op left right =>
      by_cases isLogical : op.isLogical = true
      · cases op <;> first | exact absurd isLogical (by decide) | exact ⟨_, rfl⟩
      · rw [word_binary (by simpa using isLogical)]
        exact exists_keep isCondition.1 _
    | conditional header test onTrue onFalse =>
      rw [word]
      split
      · exact ih onTrue (by simp [parts, children]) isCondition.2.2.1
      · exact ih onFalse (by simp [parts, children]) isCondition.2.2.2
    | branch => exact isCondition.elim
    | _ => exact exists_keep isCondition _

theorem word_eq (isCondition : expr.IsCondition) (valuation : Valuation) :
    expr.word valuation = wordOf (expr.holds valuation) := by
  obtain ⟨holds, isWord⟩ := isCondition.exists_holds valuation
  rw [Expr.holds, isWord, wordOf_bne_zero]

theorem boolean (value : Bool) : (boolean value).IsCondition := ⟨rfl, value, rfl⟩

end IsCondition

theorem holds_boolean (value : Bool) : (boolean value).holds valuation = value :=
  wordOf_bne_zero value

theorem word_of_boolLiteral? {value : Bool} (isLiteral : expr.boolLiteral? = some value) :
    expr.word valuation = wordOf value := by
  unfold boolLiteral? jumpLiteral? at isLiteral
  split at isLiteral
  · cases isLiteral
  · split at isLiteral
    · rename_i notNull
      exact absurd rfl notNull
    · cases isLiteral
      rfl
    · split_ifs at isLiteral with isType isZero isOne
      · cases isLiteral
        rw [isZero]
        rfl
      · cases isLiteral
        rw [isOne]
        rfl
    · cases isLiteral

theorem holds_of_boolLiteral? {value : Bool} (isLiteral : expr.boolLiteral? = some value) :
    expr.holds valuation = value := by
  rw [holds, word_of_boolLiteral? isLiteral, wordOf_bne_zero]

/-- What is left of a connective of which one operand is a literal: its truth value and the other
operand. -/
theorem foldable?_of_bool (isLeft : left.type = .bool) (isRight : right.type = .bool) :
    ∃ folded, foldable? left right = .ok folded ∧ ∀ value other, folded = some (value, other) →
      other = right ∧ left.boolLiteral? = some value ∨
        other = left ∧ right.boolLiteral? = some value := by
  have unfolds : ∀ literal other : Expr, literal.type = .bool →
      (do let literal ← literal.coerce .bool
          return literal.boolLiteral?.map fun value => (value, other) : Except Error _) =
        .ok (literal.boolLiteral?.map fun value => (value, other)) := by
    intro literal other isType
    rw [coerce_of_type isType]
    rfl
  unfold foldable? constantAndBool?
  rw [isBool_of_type isLeft, isBool_of_type isRight]
  by_cases leftConstant : left.isConstant = true
  · rw [if_pos leftConstant]
    refine ⟨_, unfolds left right isLeft, ?_⟩
    rintro value other isFolded
    obtain ⟨found, isLiteral, ⟨⟩⟩ := Option.map_eq_some_iff.1 isFolded
    exact .inl ⟨rfl, isLiteral⟩
  · rw [if_neg leftConstant]
    by_cases rightConstant : right.isConstant = true
    · rw [if_pos rightConstant]
      refine ⟨_, unfolds right left isRight, ?_⟩
      rintro value other isFolded
      obtain ⟨found, isLiteral, ⟨⟩⟩ := Option.map_eq_some_iff.1 isFolded
      exact .inr ⟨rfl, isLiteral⟩
    · rw [if_neg rightConstant]
      exact ⟨none, rfl, nofun⟩

theorem connective_of_bool (op : BinaryOp) (isLeft : left.type = .bool)
    (isRight : right.type = .bool) :
    connective op left right = .ok (mkBinary op left right .bool) := by
  unfold connective
  rw [coerce_of_type isLeft, coerce_of_type isRight]
  rfl

/-- The condition has a value computed from those of two others, and compares what they compare. -/
structure Combines (combine : Bool → Bool → Bool) (left right result : Expr) : Prop where
  isCondition : result.IsCondition
  holds : ∀ valuation, result.holds valuation = combine (left.holds valuation) (right.holds valuation)
  comparable : ∀ valuation, left.Comparable valuation → right.Comparable valuation →
    result.Comparable valuation

/-- A logical operator that keeps the other operand beside `neutral` and is decided by its
opposite. -/
structure Connects (op : BinaryOp) (neutral : Bool) (combine : Bool → Bool → Bool) : Prop where
  isLogical : op.isLogical = true
  left : ∀ value, combine neutral value = value
  right : ∀ value, combine value neutral = value
  decidedLeft : ∀ value, combine (!neutral) value = !neutral
  decidedRight : ∀ value, combine value (!neutral) = !neutral
  holds : ∀ left right valuation, (mkBinary op left right .bool).holds valuation =
    combine (left.holds valuation) (right.holds valuation)

theorem Connects.combines (connects : Connects op neutral combine) (leftIs : left.IsCondition)
    (rightIs : right.IsCondition) : Combines combine left right (mkBinary op left right .bool) where
  isCondition := ⟨rfl, fun _ => ⟨leftIs, rightIs⟩⟩
  holds := connects.holds left right
  comparable valuation leftCompares rightCompares := by
    refine ⟨fun _ => ⟨leftCompares, rightCompares⟩, fun isOrder => ?_⟩
    have isLogical := connects.isLogical
    cases op <;> cases isOrder <;> cases isLogical

/-- A logical operator on operands of type `bool` gives one again, which on conditions is a
condition and means what the operator says. -/
theorem Connects.exists_result (connects : Connects op neutral combine) {build : Except Error Expr}
    (builds : build = do
      match ← foldable? left right with
      | some (value, other) => return if value = neutral then other else boolean value
      | none => connective op left right) (isLeft : left.type = .bool)
    (isRight : right.type = .bool) :
    ∃ result, build = .ok result ∧ result.type = .bool ∧
      (left.IsCondition → right.IsCondition → Combines combine left right result) := by
  obtain ⟨folded, isFolded, folds⟩ := foldable?_of_bool isLeft isRight
  rw [builds, isFolded]
  match folded with
  | none => exact ⟨_, connective_of_bool op isLeft isRight, rfl, connects.combines⟩
  | some (value, other) =>
    refine ⟨_, rfl, ?_⟩
    split_ifs with isNeutral
    · subst isNeutral
      rcases folds value other rfl with ⟨rfl, isLiteral⟩ | ⟨rfl, isLiteral⟩
      · refine ⟨isRight, fun _ rightIs => ⟨rightIs, fun valuation => ?_, fun _ _ => id⟩⟩
        rw [holds_of_boolLiteral? isLiteral, connects.left]
      · refine ⟨isLeft, fun leftIs _ => ⟨leftIs, fun valuation => ?_, fun _ compares _ => compares⟩⟩
        rw [holds_of_boolLiteral? isLiteral, connects.right]
    · obtain rfl : value = !neutral := Bool.eq_not_of_ne isNeutral
      refine ⟨rfl, fun _ _ => ⟨.boolean _, fun valuation => ?_, fun _ _ _ => trivial⟩⟩
      rw [holds_boolean]
      rcases folds _ other rfl with ⟨-, isLiteral⟩ | ⟨-, isLiteral⟩
      · rw [holds_of_boolLiteral? isLiteral, connects.decidedLeft]
      · rw [holds_of_boolLiteral? isLiteral, connects.decidedRight]

theorem connects_andAlso : Connects .andAlso true (· && ·) where
  isLogical := rfl
  left := Bool.true_and
  right := Bool.and_true
  decidedLeft := Bool.false_and
  decidedRight := Bool.and_false
  holds _ _ _ := wordOf_bne_zero _

theorem connects_orElse : Connects .orElse false (· || ·) where
  isLogical := rfl
  left := Bool.false_or
  right := Bool.or_false
  decidedLeft := Bool.true_or
  decidedRight := Bool.or_true
  holds _ _ _ := wordOf_bne_zero _

theorem logicalAnd_of_bool (isLeft : left.type = .bool) (isRight : right.type = .bool) :
    ∃ result, logicalAnd left right = .ok result ∧ result.type = .bool ∧
      (left.IsCondition → right.IsCondition → Combines (· && ·) left right result) := by
  refine connects_andAlso.exists_result (bind_congr fun folded => ?_) isLeft isRight
  rcases folded with _ | ⟨_ | _, other⟩ <;> rfl

theorem logicalOr_of_bool (isLeft : left.type = .bool) (isRight : right.type = .bool) :
    ∃ result, logicalOr left right = .ok result ∧ result.type = .bool ∧
      (left.IsCondition → right.IsCondition → Combines (· || ·) left right result) := by
  refine connects_orElse.exists_result (bind_congr fun folded => ?_) isLeft isRight
  rcases folded with _ | ⟨_ | _, other⟩ <;> rfl

/-- The condition holds where another one does not, as far as what that one orders compares. -/
structure Negates (expr result : Expr) : Prop where
  isCondition : result.IsCondition
  holds : ∀ valuation, expr.Comparable valuation → result.holds valuation = !expr.holds valuation
  comparable : ∀ valuation, expr.Comparable valuation → result.Comparable valuation

theorem holds_mkNot (expr : Expr) :
    (mkUnary .logicalNot expr .bool).holds valuation = !expr.holds valuation := by
  refine (wordOf_bne_zero _).trans ?_
  rw [holds, bne, Bool.not_not]

theorem IsCondition.mkNot (isCondition : expr.IsCondition) :
    Negates expr (mkUnary .logicalNot expr .bool) :=
  ⟨⟨rfl, isCondition⟩, fun _ _ => holds_mkNot expr, fun _ => id⟩

/-- The complement of a comparison holds where it does not, if the values compare. -/
theorem holds_complement (isType : header.type = .bool)
    (isComplement : op.complement? = some complement)
    (compares : op.isOrder = true → (compare? valuation left right).isSome = true) :
    (mkBinary complement left right .bool).holds valuation =
      !(binary header op left right).holds valuation := by
  have notLogical : op.isLogical = false ∧ complement.isLogical = false := by
    cases op <;> cases isComplement <;> exact ⟨rfl, rfl⟩
  rw [holds, holds, mkBinary, word_binary notLogical.1, word_binary notLogical.2, isType]
  by_cases areWords : (left.isWord && right.isWord) = true
  · obtain ⟨outcome, isOutcome, isOpposite⟩ := BinaryOp.compute?_complement
      (left.word valuation) (right.word valuation) isComplement
    simp [areWords, isOutcome, isOpposite, keep_bool, wordOf_bne_zero]
  · obtain ⟨outcome, isOutcome, isOpposite⟩ := BinaryOp.judge?_complement isComplement compares
    simp [areWords, isOutcome, isOpposite, keep_bool, wordOf_bne_zero]

theorem negates_complement (isType : header.type = .bool)
    (isComplement : op.complement? = some complement) :
    Negates (binary header op left right) (mkBinary complement left right .bool) where
  isCondition := by
    refine ⟨rfl, fun isLogical => ?_⟩
    cases op <;> cases isComplement <;> cases isLogical
  holds valuation comparable := holds_complement isType isComplement comparable.2
  comparable valuation comparable := by
    refine ⟨fun isLogical => ?_, fun isOrder => comparable.2 ?_⟩
    · cases op <;> cases isComplement <;> cases isLogical
    · cases op <;> cases isComplement <;> first | rfl | cases isOrder

/-- The negations of two operands, combined the other way. -/
theorem Combines.negates {dual : Bool → Bool → Bool} {newLeft newRight result : Expr}
    (connects : Connects op neutral combine) (combines : Combines dual newLeft newRight result)
    (negatesLeft : Negates left newLeft) (negatesRight : Negates right newRight)
    (deMorgan : ∀ left right, dual (!left) (!right) = !combine left right) :
    Negates (binary header op left right) result where
  isCondition := combines.isCondition
  holds valuation comparable := by
    obtain ⟨leftCompares, rightCompares⟩ := comparable.1 connects.isLogical
    rw [combines.holds, negatesLeft.holds valuation leftCompares,
      negatesRight.holds valuation rightCompares, deMorgan, ← connects.holds]
    have isLogical := connects.isLogical
    cases op <;> cases isLogical <;> rfl
  comparable valuation comparable :=
    have ⟨leftCompares, rightCompares⟩ := comparable.1 connects.isLogical
    combines.comparable valuation (negatesLeft.comparable valuation leftCompares)
      (negatesRight.comparable valuation rightCompares)

/-- A conditional between negations. -/
theorem negates_conditional {newTrue newFalse : Expr} (isTest : test.IsCondition)
    (negatesTrue : Negates onTrue newTrue) (negatesFalse : Negates onFalse newFalse) :
    Negates (conditional header test onTrue onFalse) (mkConditional test newTrue newFalse) where
  isCondition := ⟨negatesTrue.isCondition.type, isTest, negatesTrue.isCondition, negatesFalse.isCondition⟩
  holds valuation comparable := by
    have isTrue := negatesTrue.holds valuation comparable.1
    have isFalse := negatesFalse.holds valuation comparable.2
    unfold holds at isTrue isFalse ⊢
    rw [mkConditional, word, word]
    split <;> assumption
  comparable valuation comparable := ⟨negatesTrue.comparable valuation comparable.1,
    negatesFalse.comparable valuation comparable.2⟩

/-- A condition can be negated. -/
theorem IsCondition.logicalNot (isCondition : expr.IsCondition) :
    ∃ result, expr.logicalNot = .ok result ∧ Negates expr result := by
  have isType := isCondition.type
  induction expr using partsInduction with
  | step expr ih =>
    cases expr with
    | constant header value =>
      obtain ⟨-, value, rfl⟩ := isCondition
      refine ⟨_, logicalNot_literal isType, .boolean _, fun valuation _ => ?_, fun _ _ => trivial⟩
      rw [holds_boolean]
      exact congrArg (!·) (wordOf_bne_zero value).symm
    | unary header op operand =>
      cases op with
      | logicalNot =>
        refine ⟨operand, logicalNot_negation isType, isCondition.2, fun valuation _ => ?_, fun _ => id⟩
        exact (Bool.not_not _).symm.trans (congrArg (!·) (holds_mkNot operand).symm)
      | _ => exact ⟨_, logicalNot_atomic isType rfl, isCondition.mkNot⟩
    | binary header op left right =>
      obtain ⟨-, connects⟩ := isCondition
      by_cases isLogical : op.isLogical = true
      · obtain ⟨leftIs, rightIs⟩ := connects isLogical
        obtain ⟨newLeft, isNewLeft, negatesLeft⟩ :=
          ih left (by simp [parts, children]) leftIs leftIs.type
        obtain ⟨newRight, isNewRight, negatesRight⟩ :=
          ih right (by simp [parts, children]) rightIs rightIs.type
        have newLeftIs := negatesLeft.isCondition
        have newRightIs := negatesRight.isCondition
        cases op <;> try exact absurd isLogical (by decide)
        case andAlso =>
          obtain ⟨result, isResult, -, combines⟩ := logicalOr_of_bool newLeftIs.type newRightIs.type
          exact ⟨result, (logicalNot_andAlso isType isNewLeft isNewRight).trans isResult,
            (combines newLeftIs newRightIs).negates connects_andAlso negatesLeft negatesRight
              fun _ _ => (Bool.not_and ..).symm⟩
        case orElse =>
          obtain ⟨result, isResult, -, combines⟩ :=
            logicalAnd_of_bool newLeftIs.type newRightIs.type
          exact ⟨result, (logicalNot_orElse isType isNewLeft isNewRight).trans isResult,
            (combines newLeftIs newRightIs).negates connects_orElse negatesLeft negatesRight
              fun _ _ => (Bool.not_or ..).symm⟩
      · cases isComplement : op.complement? with
        | none =>
          refine ⟨_, logicalNot_atomic isType ?_, mkNot ⟨isType, connects⟩⟩
          cases op <;> first | rfl | exact absurd rfl isLogical | cases isComplement
        | some complement =>
          exact ⟨_, logicalNot_comparison isType isComplement, negates_complement isType isComplement⟩
    | conditional header test onTrue onFalse =>
      obtain ⟨-, isTest, trueIs, falseIs⟩ := isCondition
      obtain ⟨newTrue, isTrue, negatesTrue⟩ :=
        ih onTrue (by simp [parts, children]) trueIs trueIs.type
      obtain ⟨newFalse, isFalse, negatesFalse⟩ :=
        ih onFalse (by simp [parts, children]) falseIs falseIs.type
      exact ⟨_, logicalNot_conditional isType isTrue isFalse,
        negates_conditional isTest negatesTrue negatesFalse⟩
    | branch => exact isCondition.elim
    | _ => exact ⟨_, logicalNot_atomic isType rfl, isCondition.mkNot⟩

/-- A condition as a number. -/
theorem IsCondition.coerce_int32 (isCondition : expr.IsCondition) :
    ∃ result, expr.coerce .int32 = .ok result ∧
      ∀ valuation, result.word valuation = expr.word valuation := by
  have isType := isCondition.type
  have chosen : ∀ valuation, (mkConditional expr (int 1) (int 0)).word valuation =
      expr.word valuation := by
    intro valuation
    rw [isCondition.word_eq]
    change (if expr.holds valuation = true then 1 else 0) = _
    cases expr.holds valuation <;> rfl
  have isBool := isBool_of_type isType
  unfold coerce
  rw [isType]
  cases expr with
  | constant header value =>
    obtain ⟨-, value, rfl⟩ := isCondition
    cases value <;> exact ⟨_, rfl, fun _ => rfl⟩
  | branch => exact isCondition.elim
  | _ =>
    refine ⟨_, ?_, chosen⟩
    simp only [conversion, isBool]
    rfl

/-- The node has the type, and only a condition or a number has a truth value as its literal. -/
def Inhabits (type : TypeSig) (expr : Expr) : Prop :=
  expr.type = type ∧ ∀ value, expr.constant? = some (.bool value) → expr.isWord = true

variable {type : TypeSig}

theorem Inhabits.boolLiteral? (inhabits : expr.Inhabits type) (notBool : type ≠ .bool)
    (notNumber : type ≠ .int32) : expr.boolLiteral? = none := by
  unfold Expr.boolLiteral? jumpLiteral?
  split
  · rfl
  · split
    · rename_i notNull
      exact absurd rfl notNull
    · have isWord := inhabits.2 _ rfl
      rw [Expr.isWord, inhabits.1] at isWord
      simp [notBool, notNumber] at isWord
    · exact if_neg fun isNumber => notNumber (inhabits.1.symm.trans isNumber)
    · rfl

theorem chooseBetween_of_type (sameType : onTrue.type = onFalse.type) :
    chooseBetween test onTrue onFalse = .ok (mkConditional test onTrue onFalse) :=
  if_pos sameType

/-- A conditional between two conditions is of type `bool`. -/
theorem IsCondition.condition_of_bool (isCondition : test.IsCondition)
    (isTrue : onTrue.type = .bool) (isFalse : onFalse.type = .bool) :
    ∃ result, condition test onTrue onFalse = .ok result ∧ result.type = .bool := by
  obtain ⟨negated, isNegated, negates⟩ := isCondition.logicalNot
  have negatedIs := negates.isCondition
  have ofOr : ∀ {left right : Expr}, left.type = .bool → right.type = .bool →
      ∃ result, logicalOr left right = .ok result ∧ result.type = .bool := fun isLeft isRight =>
    have ⟨result, isResult, isType, _⟩ := logicalOr_of_bool isLeft isRight
    ⟨result, isResult, isType⟩
  have ofAnd : ∀ {left right : Expr}, left.type = .bool → right.type = .bool →
      ∃ result, logicalAnd left right = .ok result ∧ result.type = .bool := fun isLeft isRight =>
    have ⟨result, isResult, isType, _⟩ := logicalAnd_of_bool isLeft isRight
    ⟨result, isResult, isType⟩
  unfold condition
  rw [if_pos (isBool_of_type isCondition.type), isBool_of_type isTrue, isBool_of_type isFalse, isNegated]
  split
  · exact ⟨_, rfl, rfl⟩
  · exact ⟨_, rfl, isCondition.type⟩
  · exact ⟨_, rfl, negatedIs.type⟩
  · exact ⟨_, rfl, rfl⟩
  · exact ofOr isCondition.type isFalse
  · exact ofAnd negatedIs.type isFalse
  · exact ofOr negatedIs.type isTrue
  · exact ofAnd isCondition.type isTrue
  · exact ⟨_, chooseBetween_of_type (isTrue.trans isFalse.symm), isTrue⟩

/-- The conditional between the values is the negation of its test. -/
def TurnsAround (onTrue onFalse : Expr) : Prop :=
  onTrue.boolLiteral? = some false ∧ onFalse.boolLiteral? = some true

/-- The node has the value that the test selects, as far as the test can be turned around where that
is called for. -/
def Selects (test onTrue onFalse result : Expr) : Prop :=
  ∀ valuation, (TurnsAround onTrue onFalse → test.Comparable valuation) → result.word valuation =
      if test.holds valuation then onTrue.word valuation else onFalse.word valuation

/-- A conditional between two numbers has the value of the side that the test selects, whether it is
a number or a condition. -/
theorem IsCondition.condition_of_int32 (isCondition : test.IsCondition)
    (isTrue : onTrue.type = .int32) (isFalse : onFalse.type = .int32) :
    ∃ result, condition test onTrue onFalse = .ok result ∧
      (result.type = .int32 ∨ result.IsCondition) ∧ Selects test onTrue onFalse result := by
  have chosen : ∃ result, chooseBetween test onTrue onFalse = .ok result ∧
      (result.type = .int32 ∨ result.IsCondition) ∧ Selects test onTrue onFalse result :=
    ⟨_, chooseBetween_of_type (isTrue.trans isFalse.symm), .inl isTrue, fun _ _ => rfl⟩
  obtain ⟨negated, isNegated, negates⟩ := isCondition.logicalNot
  have notBool : onTrue.isBool = false ∧ onFalse.isBool = false := by
    rw [isBool, isBool, isTrue, isFalse]
    exact ⟨rfl, rfl⟩
  unfold condition
  rw [if_pos (isBool_of_type isCondition.type), notBool.1, notBool.2, isNegated]
  split <;> try exact chosen
  all_goals rename_i literalTrue literalFalse
  · refine ⟨_, rfl, .inr (.boolean true), fun valuation _ => ?_⟩
    rw [word_of_boolLiteral? literalTrue, word_of_boolLiteral? literalFalse, ite_self]
    rfl
  · refine ⟨_, rfl, .inr isCondition, fun valuation _ => ?_⟩
    rw [word_of_boolLiteral? literalTrue, word_of_boolLiteral? literalFalse, isCondition.word_eq]
    cases test.holds valuation <;> rfl
  · refine ⟨_, rfl, .inr negates.isCondition, fun valuation compares => ?_⟩
    rw [word_of_boolLiteral? literalTrue, word_of_boolLiteral? literalFalse,
      negates.isCondition.word_eq, negates.holds valuation (compares ⟨literalTrue, literalFalse⟩)]
    cases test.holds valuation <;> rfl
  · refine ⟨_, rfl, .inr (.boolean false), fun valuation _ => ?_⟩
    rw [word_of_boolLiteral? literalTrue, word_of_boolLiteral? literalFalse, ite_self]
    rfl

/-- A conditional between two values of one type can be stored where either of them can. -/
theorem IsCondition.condition_stored (isCondition : test.IsCondition)
    (isTrue : onTrue.Inhabits type) (isFalse : onFalse.Inhabits type) :
    ∃ result stored, condition test onTrue onFalse = .ok result ∧ result.coerce type = .ok stored ∧
      (type = .int32 → Selects test onTrue onFalse stored) := by
  by_cases isBool : type = .bool
  · subst isBool
    obtain ⟨result, isResult, isType⟩ := isCondition.condition_of_bool isTrue.1 isFalse.1
    exact ⟨result, result, isResult, coerce_of_type isType, nofun⟩
  by_cases isNumber : type = .int32
  · subst isNumber
    obtain ⟨result, isResult, isType | resultIs, selects⟩ :=
      isCondition.condition_of_int32 isTrue.1 isFalse.1
    · exact ⟨result, result, isResult, coerce_of_type isType, fun _ => selects⟩
    · obtain ⟨stored, isStored, keeps⟩ := resultIs.coerce_int32
      exact ⟨result, stored, isResult, isStored, fun _ valuation compares =>
        (keeps valuation).trans (selects valuation compares)⟩
  · have isResult : condition test onTrue onFalse = .ok (mkConditional test onTrue onFalse) := by
      unfold condition
      rw [if_pos (isBool_of_type isCondition.type), isTrue.boolLiteral? isBool isNumber,
        isFalse.boolLiteral? isBool isNumber]
      exact chooseBetween_of_type (isTrue.1.trans isFalse.1.symm)
    exact ⟨_, _, isResult, coerce_of_type isTrue.1, fun isInt => absurd isInt isNumber⟩

end Expr

end CilLift
