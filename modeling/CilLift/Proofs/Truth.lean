import CilLift.Proofs.NumberConversion

/-!
The builders of conditions on well-typed truth values and 32-bit numbers. What they build is well
typed and means what the builder means, and they only fail where a literal has to be a truth value and
is none.
-/

namespace CilLift.Expr

open CilLift.Expr TypeSig Bool

variable {value : Bool} {op : BinaryOp}

/-- A well-typed truth value or 32-bit number. -/
def TypedWord (admits : TypeSig → Prop) (expr : Expr) : Prop :=
  Typed admits .bool expr ∨ Typed admits .int32 expr

/-- A literal that cannot be read as a truth value. -/
def isNumeral (expr : Expr) : Bool := expr.isConstant && expr.boolLiteral?.isNone

variable {admits : TypeSig → Prop} {type : TypeSig} {expr left right : Expr} {bindings : Bindings}
  {build : Except Error Expr}

/-! Literals. -/

theorem exists_constant (isConstant : expr.isConstant = true) :
    ∃ header value, expr = .constant header value := by
  cases expr <;> first | exact ⟨_, _, rfl⟩ | cases isConstant

theorem Typed.exists_bool (typed : Typed admits .bool expr) (isConstant : expr.isConstant = true) :
    ∃ header value, expr = .constant header (.bool value) ∧ header.type = .bool := by
  obtain ⟨header, value, rfl⟩ := exists_constant isConstant
  obtain ⟨isType, isOf⟩ := typed.constant_isOf
  cases value <;> first | exact ⟨_, _, rfl, isType⟩ | exact isOf.elim

theorem Typed.exists_int32 (typed : Typed admits .int32 expr) (isConstant : expr.isConstant = true) :
    ∃ header value, expr = .constant header (.integer .int32 value) ∧ header.type = .int32 ∧
      IntegerType.int32.wrap value = value := by
  obtain ⟨header, value, rfl⟩ := exists_constant isConstant
  obtain ⟨isType, isOf⟩ := typed.constant_isOf
  cases value <;> try exact isOf.elim
  case integer written value =>
    obtain ⟨rfl, isWrapped⟩ := isOf
    exact ⟨_, _, rfl, isType, isWrapped⟩

theorem Typed.isNumeral (typed : Typed admits .bool expr) : expr.isNumeral = false := by
  cases isConstant : expr.isConstant with
  | false => rw [Expr.isNumeral, isConstant, Bool.false_and]
  | true =>
    obtain ⟨header, value, rfl, -⟩ := typed.exists_bool isConstant
    rfl

theorem number_of_boolLiteral? (typed : Typed admits type expr)
    (isLiteral : expr.boolLiteral? = some value) : expr.number bindings = value.toInt := by
  have isScalar := typed.isScalar
  rw [← typed.type_eq] at isScalar
  unfold boolLiteral? jumpLiteral? at isLiteral
  split at isLiteral
  · cases isLiteral
  · split at isLiteral
    · rename_i notNull
      exact absurd rfl notNull
    · cases isLiteral
      rw [number_bool]
      exact wrap_toInt isScalar value
    · split_ifs at isLiteral with isType isZero isOne
      · cases isLiteral
        rw [number, isType, isZero]
        rfl
      · cases isLiteral
        rw [number, isType, isOne]
        rfl
    · cases isLiteral

theorem exists_boolLiteral? (isConstant : expr.isConstant = true)
    (notNumeral : expr.isNumeral = false) : ∃ value, expr.boolLiteral? = some value := by
  rw [isNumeral, isConstant, Bool.true_and, Option.isNone_eq_false_iff] at notNumeral
  exact Option.isSome_iff_exists.1 notNumeral

theorem typed_boolean (admitsBool : admits .bool) (value : Bool) : Typed admits .bool (boolean value) :=
  @Typed.constant _ { type := .bool } _ admitsBool trivial

theorem typed_int (admitsNumber : admits .int32) {value : Int}
    (isWrapped : IntegerType.int32.wrap value = value) : Typed admits .int32 (int value) :=
  @Typed.constant _ { type := .int32 } _ admitsNumber ⟨rfl, isWrapped⟩

/-! Truth values and numbers in the place of each other. -/

/-- The tree is a well-typed condition with the given meaning. -/
structure Means (admits : TypeSig → Prop) (meaning : Bindings → Bool) (expr : Expr) : Prop where
  typed : Typed admits .bool expr
  truth : ∀ bindings, expr.truth bindings = meaning bindings

theorem Typed.means (typed : Typed admits .bool expr) : Means admits expr.truth expr :=
  ⟨typed, fun _ => rfl⟩

theorem means_boolean (admitsBool : admits .bool) (value : Bool) :
    Means admits (fun _ => value) (boolean value) := by
  refine ⟨typed_boolean admitsBool value, fun bindings => ?_⟩
  cases value <;> rfl

theorem conversion_toBool {type : IntegerType} (isType : expr.type = .integer type)
    (isValue : expr.branch? = none) (notLiteral : expr.isConstant = false) :
    expr.conversion .bool = .toBool := by
  unfold conversion
  rw [isBool, isType]
  split
  · cases isValue
  · cases notLiteral
  · rfl

theorem boolLiteral?_int32 {header : Header} (isType : header.type = .int32) (number : Int) :
    (constant header (.integer .int32 number)).boolLiteral? =
      if number = 0 then some false else if number = 1 then some true else none :=
  if_pos isType

theorem Typed.coerce_literal (typed : Typed admits .int32 expr)
    (isConstant : expr.isConstant = true) (isLiteral : expr.boolLiteral? = some value) :
    expr.coerce .bool = .ok (boolean value) := by
  obtain ⟨header, number, rfl, isType, -⟩ := typed.exists_int32 isConstant
  rw [boolLiteral?_int32 isType] at isLiteral
  unfold coerce
  rw [typed.type_eq]
  split_ifs at isLiteral with isZero isOne
  · cases isLiteral
    rw [isZero]
    rfl
  · cases isLiteral
    rw [isOne]
    rfl

theorem Typed.coerce_numeral (typed : Typed admits .int32 expr) (isNumeral : expr.isNumeral = true) :
    ∃ error, expr.coerce .bool = .error error := by
  obtain ⟨isConstant, isLiteral⟩ := and_eq_true_iff.1 isNumeral
  obtain ⟨header, number, rfl, isType, -⟩ := typed.exists_int32 isConstant
  rw [boolLiteral?_int32 isType] at isLiteral
  unfold coerce
  rw [typed.type_eq]
  change ∃ error, coerceConstant (.integer .int32 number) _ .bool = _
  unfold coerceConstant
  dsimp only [Constant.toInt?]
  split
  · rename_i isZero
    cases isZero
    cases isLiteral
  · rename_i isOne
    cases isOne
    cases isLiteral
  · exact ⟨_, rfl⟩

/-- A word becomes the truth value of being nonzero. -/
theorem TypedWord.coerce_bool (word : TypedWord admits expr) (admitsBool : admits .bool)
    (notNumeral : expr.isNumeral = false) :
    ∃ result, expr.coerce .bool = .ok result ∧ Means admits expr.truth result := by
  rcases word with typed | typed
  · exact ⟨expr, coerce_of_type typed.type_eq, typed.means⟩
  have means {result : Expr} (isResult : expr.coerce .bool = .ok result) :
      Means admits expr.truth result := by
    obtain ⟨typedResult, -, isNumber⟩ := (coerce_coerces isResult).scalar typed rfl admitsBool (by simp)
    refine ⟨typedResult, fun bindings => ?_⟩
    rw [truth, isNumber bindings trivial]
    exact toInt_bne_zero _
  cases isConstant : expr.isConstant with
  | true =>
    obtain ⟨value, isLiteral⟩ := exists_boolLiteral? isConstant notNumeral
    have isResult := typed.coerce_literal isConstant isLiteral
    exact ⟨_, isResult, means isResult⟩
  | false =>
    have isResult : expr.coerce .bool = .ok expr.nonZero := by
      unfold coerce
      rw [typed.type_eq, if_neg (by decide), conversion_toBool typed.type_eq typed.branch? isConstant]
    exact ⟨_, isResult, means isResult⟩

theorem TypedWord.coerce_int32 (word : TypedWord admits expr) (admitsNumber : admits .int32) :
    ∃ result, expr.coerce .int32 = .ok result ∧ Typed admits .int32 result ∧
      ∀ bindings, result.number bindings = expr.number bindings := by
  rcases word with typed | typed
  · obtain ⟨result, isResult⟩ := @Typed.exists_coerce _ _ _ .int32 typed rfl (by simp)
    obtain ⟨typedResult, -, isNumber⟩ := (coerce_coerces isResult).scalar typed rfl admitsNumber (by simp)
    refine ⟨result, isResult, typedResult, fun bindings => ?_⟩
    rw [isNumber bindings trivial, typed.number_eq, wrap_toInt rfl]
  · exact ⟨expr, coerce_of_type typed.type_eq, typed, fun _ => rfl⟩

/-! Builders. -/

/-- The builder fails under the given condition only, and else gives a condition with the meaning. -/
structure Builds (admits : TypeSig → Prop) (meaning : Bindings → Bool) (fails : Prop)
    (build : Except Error Expr) : Prop where
  succeeds_iff : (∃ result, build = .ok result) ↔ ¬fails
  means : ∀ result, build = .ok result → Means admits meaning result

namespace Builds

variable {meaning : Bindings → Bool} {fails : Prop} {build : Except Error Expr} {result : Expr}

theorem of_ok (isResult : build = .ok result) (means : Means admits meaning result)
    (notFails : ¬fails) : Builds admits meaning fails build where
  succeeds_iff := ⟨fun _ => notFails, fun _ => ⟨result, isResult⟩⟩
  means other isOther := by
    rw [isResult] at isOther
    cases isOther
    exact means

theorem of_error {error : Error} (isError : build = .error error) (isFailure : fails) :
    Builds admits meaning fails build where
  succeeds_iff := by
    rw [isError]
    exact ⟨nofun, fun notFails => absurd isFailure notFails⟩
  means := by
    rw [isError]
    exact nofun

theorem congr {others : Prop} (builds : Builds admits meaning fails build) (same : fails ↔ others) :
    Builds admits meaning others build where
  succeeds_iff := builds.succeeds_iff.trans (not_congr same)
  means := builds.means

end Builds

/-- A truth value meets a literal that is none. -/
def Clashes (left right : Expr) : Prop :=
  ∃ literal other, constantAndBool? left right = some (literal, other) ∧ literal.isNumeral = true

theorem of_constantAndBool? {literal other : Expr}
    (found : constantAndBool? left right = some (literal, other)) :
    (literal = left ∧ other = right ∨ literal = right ∧ other = left) ∧
      literal.isConstant = true ∧ other.isBool = true := by
  unfold constantAndBool? at found
  split_ifs at found with leftConstant rightBool rightConstant leftBool
  · cases found
    exact ⟨.inl ⟨rfl, rfl⟩, leftConstant, rightBool⟩
  · cases found
    exact ⟨.inr ⟨rfl, rfl⟩, rightConstant, leftBool⟩

theorem TypedWord.of_isBool (word : TypedWord admits expr) (isBool : expr.isBool = true) :
    Typed admits .bool expr := by
  refine word.resolve_right fun typed => ?_
  rw [Expr.isBool, typed.type_eq] at isBool
  cases isBool

theorem TypedWord.of_isNumeral (word : TypedWord admits expr) (isNumeral : expr.isNumeral = true) :
    Typed admits .int32 expr :=
  word.resolve_left fun typed => absurd (typed.isNumeral.symm.trans isNumeral) (by decide)

theorem foldable?_of_literal {literal other : Expr} (word : TypedWord admits literal)
    (found : constantAndBool? left right = some (literal, other))
    (isLiteral : literal.boolLiteral? = some value) :
    foldable? left right = .ok (some (value, other)) := by
  obtain ⟨-, isConstant, -⟩ := of_constantAndBool? found
  unfold foldable?
  rw [found]
  rcases word with typed | typed
  · change literal.coerce .bool >>= _ = _
    rw [coerce_of_type typed.type_eq]
    change Except.ok (literal.boolLiteral?.map _) = _
    rw [isLiteral]
    rfl
  · change literal.coerce .bool >>= _ = _
    rw [typed.coerce_literal isConstant isLiteral]
    rfl

section

variable (leftWord : TypedWord admits left) (rightWord : TypedWord admits right)

include leftWord rightWord

/-- A builder that folds literals away and compares or connects its operands if there are none. The
meaning does not depend on the order of the operands. -/
theorem Builds.fold (combine : Int → Int → Bool) (fold : Bool → Expr → Except Error Expr)
    {rest : Except Error Expr} {restFails : Prop}
    (symmetric : ∀ first second, combine first second = combine second first)
    (folds : ∀ value other, Typed admits .bool other → ∃ result, fold value other = .ok result ∧
      Means admits (fun bindings => combine value.toInt (other.number bindings)) result)
    (rests : Builds admits (fun bindings => combine (left.number bindings) (right.number bindings))
      restFails rest) :
    Builds admits (fun bindings => combine (left.number bindings) (right.number bindings))
      (Clashes left right ∨ constantAndBool? left right = none ∧ restFails)
      (foldable? left right >>= fun
        | some (value, other) => fold value other
        | none => rest) := by
  cases found : constantAndBool? left right with
  | none =>
    have isNone : foldable? left right = .ok none := by
      unfold foldable?
      rw [found]
    rw [isNone]
    refine rests.congr ⟨fun fails => .inr ⟨rfl, fails⟩, ?_⟩
    rintro (⟨literal, other, isFound, -⟩ | ⟨-, fails⟩)
    · rw [found] at isFound
      cases isFound
    · exact fails
  | some pair =>
    obtain ⟨literal, other⟩ := pair
    obtain ⟨order, isConstant, isBool⟩ := of_constantAndBool? found
    have words : TypedWord admits literal ∧ TypedWord admits other := by
      rcases order with ⟨rfl, rfl⟩ | ⟨rfl, rfl⟩
      · exact ⟨leftWord, rightWord⟩
      · exact ⟨rightWord, leftWord⟩
    cases isNumeral : literal.isNumeral with
    | true =>
      obtain ⟨error, isError⟩ := (words.1.of_isNumeral isNumeral).coerce_numeral isNumeral
      have fails : foldable? left right = .error error := by
        unfold foldable?
        rw [found]
        change literal.coerce .bool >>= _ = _
        rw [isError]
        rfl
      rw [fails]
      exact .of_error rfl (.inl ⟨literal, other, found, isNumeral⟩)
    | false =>
      obtain ⟨value, isLiteral⟩ := exists_boolLiteral? isConstant isNumeral
      obtain ⟨result, isResult, means⟩ := folds value other (words.2.of_isBool isBool)
      rw [foldable?_of_literal words.1 found isLiteral]
      refine .of_ok isResult ⟨means.typed, fun bindings => ?_⟩ ?_
      · have isNumber : literal.number bindings = value.toInt := by
          rcases words.1 with typed | typed <;> exact number_of_boolLiteral? typed isLiteral
        rw [means.truth, ← isNumber]
        rcases order with ⟨rfl, rfl⟩ | ⟨rfl, rfl⟩
        · rfl
        · exact symmetric _ _
      · rintro (⟨_, _, isFound, clashes⟩ | ⟨isFound, -⟩)
        · rw [found] at isFound
          cases isFound
          rw [isNumeral] at clashes
          cases clashes
        · cases isFound

/-- A numeral among the operands clashes with the other one, or there is no truth value. -/
theorem clashes_or_iff :
    (Clashes left right ∨ constantAndBool? left right = none ∧
      (left.isNumeral = true ∨ right.isNumeral = true)) ↔
      left.isNumeral = true ∨ right.isNumeral = true := by
  constructor
  · rintro (⟨literal, other, found, isNumeral⟩ | ⟨-, isNumeral⟩)
    · rcases (of_constantAndBool? found).1 with ⟨rfl, rfl⟩ | ⟨rfl, rfl⟩
      · exact .inl isNumeral
      · exact .inr isNumeral
    · exact isNumeral
  · intro isNumeral
    cases found : constantAndBool? left right with
    | none => exact .inr ⟨rfl, isNumeral⟩
    | some pair =>
      obtain ⟨literal, other⟩ := pair
      refine .inl ⟨literal, other, found, ?_⟩
      -- the other operand is a truth value, so the numeral is the literal
      obtain ⟨⟨rfl, rfl⟩ | ⟨rfl, rfl⟩, -, isBool⟩ := of_constantAndBool? found
      · exact isNumeral.resolve_right (by simp [(rightWord.of_isBool isBool).isNumeral])
      · exact isNumeral.resolve_left (by simp [(leftWord.of_isBool isBool).isNumeral])

variable (admitsBool : admits .bool)

include admitsBool

/-- Two operands that are conditions, connected. -/
theorem connective_builds {combine : Bool → Bool → Bool} (isLogical : op.isLogical = true)
    (connects : ∀ first second, op.outcome? 0 first second =
      some (combine (first != 0) (second != 0)).toInt) :
    Builds admits (fun bindings => combine (left.truth bindings) (right.truth bindings))
      (left.isNumeral = true ∨ right.isNumeral = true) (connective op left right) := by
  unfold connective
  cases leftNumeral : left.isNumeral with
  | true =>
    obtain ⟨error, isError⟩ := (leftWord.of_isNumeral leftNumeral).coerce_numeral leftNumeral
    rw [isError]
    exact .of_error rfl (.inl rfl)
  | false =>
    obtain ⟨newLeft, isLeft, leftMeans⟩ := leftWord.coerce_bool admitsBool leftNumeral
    rw [isLeft]
    cases rightNumeral : right.isNumeral with
    | true =>
      obtain ⟨error, isError⟩ := (rightWord.of_isNumeral rightNumeral).coerce_numeral rightNumeral
      rw [isError]
      exact .of_error rfl (.inr rfl)
    | false =>
      obtain ⟨newRight, isRight, rightMeans⟩ := rightWord.coerce_bool admitsBool rightNumeral
      rw [isRight]
      refine .of_ok rfl ⟨.connected rfl isLogical leftMeans.typed rightMeans.typed, fun bindings => ?_⟩
        (by decide)
      rw [← leftMeans.truth, ← rightMeans.truth]
      exact truth_binary rfl (connects _ _)

/-- A connective that keeps the other operand beside `neutral` and is decided by its opposite. -/
theorem connected_builds (op : BinaryOp) (neutral : Bool) {combine : Bool → Bool → Bool}
    (isLogical : op.isLogical = true) (connects : ∀ first second, op.outcome? 0 first second =
      some (combine (first != 0) (second != 0)).toInt)
    (symmetric : ∀ first second, combine first second = combine second first)
    (keeps : ∀ value, combine neutral value = value)
    (decides : ∀ value, combine (!neutral) value = !neutral)
    (isBuild : build = foldable? left right >>= fun
      | some (value, other) => .ok (if value = neutral then other else boolean value)
      | none => connective op left right) :
    Builds admits (fun bindings => combine (left.truth bindings) (right.truth bindings))
      (left.isNumeral = true ∨ right.isNumeral = true) build := by
  rw [isBuild]
  refine (Builds.fold leftWord rightWord (fun first second => combine (first != 0) (second != 0))
    (fun value other => .ok (if value = neutral then other else boolean value))
    (fun _ _ => symmetric _ _) (fun value other typed => ⟨_, rfl, ?_⟩)
    (connective_builds leftWord rightWord admitsBool isLogical connects)).congr
    (clashes_or_iff leftWord rightWord)
  simp only [toInt_bne_zero]
  split_ifs with isNeutral
  · subst isNeutral
    exact ⟨typed, fun bindings => (keeps _).symm⟩
  · obtain rfl : value = !neutral := eq_not_of_ne isNeutral
    simp only [decides]
    exact means_boolean admitsBool _

theorem logicalAnd_builds :
    Builds admits (fun bindings => left.truth bindings && right.truth bindings)
      (left.isNumeral = true ∨ right.isNumeral = true) (logicalAnd left right) := by
  refine connected_builds leftWord rightWord admitsBool .andAlso true rfl (fun _ _ => rfl) and_comm
    true_and false_and (bind_congr fun folded => ?_)
  rcases folded with _ | ⟨_ | _, other⟩ <;> rfl

theorem logicalOr_builds :
    Builds admits (fun bindings => left.truth bindings || right.truth bindings)
      (left.isNumeral = true ∨ right.isNumeral = true) (logicalOr left right) := by
  refine connected_builds leftWord rightWord admitsBool .orElse false rfl (fun _ _ => rfl) or_comm
    false_or true_or (bind_congr fun folded => ?_)
  rcases folded with _ | ⟨_ | _, other⟩ <;> rfl

end

theorem Builds.exists_means {meaning : Bindings → Bool}
    (builds : Builds admits meaning (left.isNumeral = true ∨ right.isNumeral = true) build)
    (typedLeft : Typed admits .bool left) (typedRight : Typed admits .bool right) :
    ∃ result, build = .ok result ∧ Means admits meaning result := by
  obtain ⟨result, isResult⟩ := builds.succeeds_iff.2 (by
    simp [typedLeft.isNumeral, typedRight.isNumeral])
  exact ⟨result, isResult, builds.means result isResult⟩

/-! Negation. -/

theorem outcome?_complement {complement : BinaryOp}
    (isComplement : op.complement? = some complement) (first second : Int) :
    ∃ holds : Bool, op.outcome? 0 first second = some holds.toInt ∧
      complement.outcome? 0 first second = some (!holds).toInt := by
  cases op <;> cases isComplement <;> refine ⟨_, rfl, ?_⟩ <;> simp [BinaryOp.outcome?, ← decide_not, bne]

theorem isComparison_complement {complement : BinaryOp}
    (isComplement : op.complement? = some complement) : complement.isComparison = true := by
  cases op <;> cases isComplement <;> rfl

theorem Typed.means_not (typed : Typed admits .bool expr) :
    Means admits (fun bindings => !expr.truth bindings) (mkUnary .logicalNot expr .bool) := by
  refine ⟨.negated rfl typed, fun bindings => ?_⟩
  rw [truth, mkUnary, number, toInt_bne_zero, truth, bne, Bool.not_not]

/-- Every truth value can be negated. -/
theorem Typed.logicalNot (typed : Typed admits .bool expr) :
    ∃ result, expr.logicalNot = .ok result ∧
      Means admits (fun bindings => !expr.truth bindings) result := by
  generalize isType : bool = type at typed
  induction typed with
  | @constant header value admitted isOf =>
    rw [← isType] at admitted isOf
    cases value <;> try exact isOf.elim
    case bool value =>
      refine ⟨_, logicalNot_literal isType.symm, typed_boolean admitted _, fun bindings => ?_⟩
      rw [(means_boolean admitted _).truth, truth, number_bool, ← isType, wrap_toInt rfl, toInt_bne_zero]
  | @leaf expr admitted isScalar isLeaf =>
    refine ⟨_, logicalNot_atomic isType.symm ?_, means_not (isType ▸ .leaf admitted isScalar isLeaf)⟩
    cases expr <;> first | rfl | cases isLeaf
  | @converted header operand source admitted isScalar typed =>
    exact ⟨_, logicalNot_atomic isType.symm rfl, means_not (isType ▸ .converted admitted isScalar typed)⟩
  | inverted | computed | shifted => cases isType
  | @compared header op left right operandType isHeader admitted isComparison typedLeft typedRight =>
    obtain ⟨complement, isComplement⟩ := BinaryOp.exists_complement isComparison
    refine ⟨_, logicalNot_comparison isHeader isComplement, .compared rfl admitted
      (isComparison_complement isComplement) typedLeft typedRight, fun bindings => ?_⟩
    obtain ⟨holds, isOutcome, isOpposite⟩ := outcome?_complement isComplement
      (left.number bindings) (right.number bindings)
    rw [truth_binary isHeader isOutcome]
    exact truth_binary rfl isOpposite
  | @connected header op left right isHeader isLogical typedLeft typedRight leftIh
      rightIh =>
    obtain ⟨newLeft, isLeft, leftMeans⟩ := leftIh rfl
    obtain ⟨newRight, isRight, rightMeans⟩ := rightIh rfl
    cases op <;> try exact absurd isLogical (by decide)
    case andAlso =>
      rw [logicalNot_andAlso isHeader isLeft isRight]
      obtain ⟨result, isResult, means⟩ := (logicalOr_builds (.inl leftMeans.typed)
        (.inl rightMeans.typed) typedLeft.admitted).exists_means leftMeans.typed rightMeans.typed
      refine ⟨result, isResult, means.typed, fun bindings => ?_⟩
      rw [means.truth, leftMeans.truth, rightMeans.truth, ← Bool.not_and]
      exact congrArg (!·) (truth_binary isHeader rfl).symm
    case orElse =>
      rw [logicalNot_orElse isHeader isLeft isRight]
      obtain ⟨result, isResult, means⟩ := (logicalAnd_builds (.inl leftMeans.typed)
        (.inl rightMeans.typed) typedLeft.admitted).exists_means leftMeans.typed rightMeans.typed
      refine ⟨result, isResult, means.typed, fun bindings => ?_⟩
      rw [means.truth, leftMeans.truth, rightMeans.truth, ← Bool.not_or]
      exact congrArg (!·) (truth_binary isHeader rfl).symm
  | @negated header operand isHeader typed _ =>
    refine ⟨operand, logicalNot_negation isHeader, typed, fun bindings => ?_⟩
    rw [truth, truth, number, toInt_bne_zero, bne]
  | @chosen header test onTrue onFalse type isHeader typedTest typedTrue typedFalse _ trueIh
      falseIh =>
    obtain ⟨newTrue, isTrue, trueMeans⟩ := trueIh isType
    obtain ⟨newFalse, isFalse, falseMeans⟩ := falseIh isType
    refine ⟨_, logicalNot_conditional (isHeader.trans isType.symm) isTrue isFalse,
      .chosen trueMeans.typed.type_eq typedTest trueMeans.typed falseMeans.typed, fun bindings => ?_⟩
    have onTruth := trueMeans.truth bindings
    have onFalsehood := falseMeans.truth bindings
    unfold truth at onTruth onFalsehood ⊢
    rw [mkConditional, number, number]
    split <;> assumption

/-! Comparison for equality. -/

theorem Typed.isNull (typed : Typed admits type expr) : expr.isNull = false := by
  unfold Expr.isNull
  split
  · obtain ⟨-, isOf⟩ := typed.constant_isOf
    cases type <;> exact isOf.elim
  · rfl

theorem TypedWord.isNull (word : TypedWord admits expr) : expr.isNull = false :=
  word.elim Typed.isNull Typed.isNull

section

variable (leftWord : TypedWord admits left) (rightWord : TypedWord admits right)
  (admitsNumber : admits .int32)

include leftWord rightWord admitsNumber

/-- Two words meet as truth values, or as numbers. -/
theorem TypedWord.meet :
    ∃ newLeft newRight, left.coerce (operandType left right) = .ok newLeft ∧
      right.coerce (operandType left right) = .ok newRight ∧
      (∃ type, Typed admits type newLeft ∧ Typed admits type newRight) ∧
      (∀ bindings, newLeft.number bindings = left.number bindings) ∧
      ∀ bindings, newRight.number bindings = right.number bindings := by
  have meets : operandType left right = .int32 ∨ Typed admits .bool left ∧ Typed admits .bool right := by
    unfold operandType
    rcases leftWord with typedLeft | typedLeft <;> rcases rightWord with typedRight | typedRight <;>
      rw [typedLeft.type_eq, typedRight.type_eq]
    · exact .inr ⟨typedLeft, typedRight⟩
    all_goals exact .inl rfl
  rcases meets with isNumber | ⟨typedLeft, typedRight⟩
  · obtain ⟨newLeft, isLeft, typedLeft, sameLeft⟩ := leftWord.coerce_int32 admitsNumber
    obtain ⟨newRight, isRight, typedRight, sameRight⟩ := rightWord.coerce_int32 admitsNumber
    rw [isNumber]
    exact ⟨newLeft, newRight, isLeft, isRight, ⟨.int32, typedLeft, typedRight⟩, sameLeft, sameRight⟩
  · have isBool : operandType left right = .bool := by
      rw [operandType, typedLeft.type_eq, typedRight.type_eq, if_pos rfl]
    rw [isBool]
    exact ⟨left, right, coerce_of_type typedLeft.type_eq, coerce_of_type typedRight.type_eq,
      ⟨.bool, typedLeft, typedRight⟩, fun _ => rfl, fun _ => rfl⟩

variable (admitsBool : admits .bool)

include admitsBool

/-- A comparison for equality always succeeds once no literal can be folded away. -/
theorem compareEqual_builds {combine : Int → Int → Bool} (isComparison : op.isComparison = true)
    (compares : ∀ first second, op.outcome? 0 first second = some (combine first second).toInt) :
    Builds admits (fun bindings => combine (left.number bindings) (right.number bindings)) False
      (compareEqual op left right) := by
  obtain ⟨newLeft, newRight, isLeft, isRight, ⟨type, typedLeft, typedRight⟩, sameLeft, sameRight⟩ :=
    leftWord.meet rightWord admitsNumber
  have isType : comparisonType left right = operandType left right := by
    rw [comparisonType, leftWord.isNull, rightWord.isNull]
    rfl
  unfold compareEqual
  rw [isType]
  dsimp only
  rw [isLeft, isRight]
  refine .of_ok rfl ⟨.compared rfl admitsBool isComparison typedLeft typedRight, fun bindings => ?_⟩ id
  rw [← sameLeft, ← sameRight]
  exact truth_binary rfl (compares _ _)

/-- A comparison with a literal is the other operand or its negation. -/
theorem equality_builds (op : BinaryOp) (combine : Int → Int → Bool) (kept : Bool)
    (isComparison : op.isComparison = true)
    (compares : ∀ first second, op.outcome? 0 first second = some (combine first second).toInt)
    (symmetric : ∀ first second, combine first second = combine second first)
    (folds : ∀ value holds : Bool, combine value.toInt holds.toInt =
      if value = kept then holds else !holds) (isBuild : build = foldable? left right >>= fun
      | some (value, other) => if value = kept then .ok other else other.logicalNot
      | none => compareEqual op left right) :
    Builds admits (fun bindings => combine (left.number bindings) (right.number bindings))
      (Clashes left right) build := by
  rw [isBuild]
  refine (Builds.fold leftWord rightWord combine
    (fun value other => if value = kept then .ok other else other.logicalNot) symmetric
    (fun value other typed => ?_) (compareEqual_builds leftWord rightWord admitsNumber admitsBool
      isComparison compares)).congr (by simp)
  simp only [typed.number_eq, folds]
  split_ifs
  · exact ⟨other, rfl, typed.means⟩
  · exact typed.logicalNot

theorem equal_builds :
    Builds admits (fun bindings => left.number bindings == right.number bindings)
      (Clashes left right) (equal left right) := by
  refine equality_builds leftWord rightWord admitsNumber admitsBool .equal (· == ·) true rfl
    (fun _ _ => rfl) (fun _ _ => BEq.comm) (fun value holds => ?_) (bind_congr fun folded => ?_)
  · cases value <;> cases holds <;> rfl
  · rcases folded with _ | ⟨_ | _, other⟩ <;> rfl

theorem notEqual_builds :
    Builds admits (fun bindings => left.number bindings != right.number bindings)
      (Clashes left right) (notEqual left right) := by
  refine equality_builds leftWord rightWord admitsNumber admitsBool .notEqual (· != ·) false rfl
    (fun _ _ => rfl) (fun _ _ => bne_comm) (fun value holds => ?_) (bind_congr fun folded => ?_)
  · cases value <;> cases holds <;> rfl
  · rcases folded with _ | ⟨_ | _, other⟩ <;> rfl

end

/-! Words as conditions. -/

theorem Typed.falsehood (typed : Typed admits .int32 expr) : expr.falsehood = int 0 := by
  rw [Expr.falsehood, typed.type_eq]
  rfl

theorem Typed.isBool (typed : Typed admits .int32 expr) : expr.isBool = false := by
  rw [Expr.isBool, typed.type_eq]
  rfl

theorem Typed.not_clashes (typed : Typed admits .int32 expr) : ¬Clashes expr (int 0) := by
  rintro ⟨literal, other, found, -⟩
  obtain ⟨⟨rfl, rfl⟩ | ⟨rfl, rfl⟩, -, isBool⟩ := of_constantAndBool? found
  · cases isBool
  · exact absurd (typed.isBool.symm.trans isBool) (by decide)

theorem isTrue_builds (word : TypedWord admits expr) (admitsBool : admits .bool)
    (admitsNumber : admits .int32) : Builds admits expr.truth False expr.isTrue := by
  unfold isTrue
  rcases word with typed | typed
  · rw [if_pos (isBool_of_type typed.type_eq)]
    exact .of_ok rfl typed.means id
  · rw [typed.isBool, typed.falsehood]
    exact (notEqual_builds (.inr typed) (.inr (typed_int admitsNumber rfl)) admitsNumber
      admitsBool).congr (iff_false_intro typed.not_clashes)

theorem isFalse_builds (word : TypedWord admits expr) (admitsBool : admits .bool)
    (admitsNumber : admits .int32) :
    Builds admits (fun bindings => !expr.truth bindings) False expr.isFalse := by
  unfold isFalse
  rcases word with typed | typed
  · obtain ⟨result, isResult, means⟩ := typed.logicalNot
    rw [if_pos (isBool_of_type typed.type_eq)]
    exact .of_ok isResult means id
  · rw [typed.isBool, typed.falsehood]
    have builds := (equal_builds (.inr typed) (.inr (typed_int admitsNumber rfl)) admitsNumber
      admitsBool).congr (iff_false_intro typed.not_clashes)
    simp only [truth, bne, Bool.not_not]
    exact builds

/-- On well-typed truth values and 32-bit numbers the builders of conditions give well-typed
conditions that mean what the builder is for, at any values of the leaves. Negation and the tests of a
single word always succeed, and the others fail only where a literal other than zero and one would
have to be a truth value. -/
theorem condition_builders_mean (admitsBool : admits .bool) (admitsNumber : admits .int32) :
    (∀ expr, Typed admits .bool expr →
      Builds admits (fun bindings => !expr.truth bindings) False expr.logicalNot) ∧
    (∀ left right, TypedWord admits left → TypedWord admits right →
      Builds admits (fun bindings => left.truth bindings && right.truth bindings)
        (left.isNumeral = true ∨ right.isNumeral = true) (logicalAnd left right) ∧
      Builds admits (fun bindings => left.truth bindings || right.truth bindings)
        (left.isNumeral = true ∨ right.isNumeral = true) (logicalOr left right) ∧
      Builds admits (fun bindings => left.number bindings == right.number bindings)
        (Clashes left right) (equal left right) ∧
      Builds admits (fun bindings => left.number bindings != right.number bindings)
        (Clashes left right) (notEqual left right)) ∧
    ∀ expr, TypedWord admits expr → Builds admits expr.truth False expr.isTrue ∧
      Builds admits (fun bindings => !expr.truth bindings) False expr.isFalse := by
  refine ⟨fun expr typed => ?_, fun left right leftWord rightWord => ?_, fun expr word => ?_⟩
  · obtain ⟨result, isResult, means⟩ := typed.logicalNot
    exact .of_ok isResult means id
  · exact ⟨logicalAnd_builds leftWord rightWord admitsBool,
      logicalOr_builds leftWord rightWord admitsBool,
      equal_builds leftWord rightWord admitsNumber admitsBool,
      notEqual_builds leftWord rightWord admitsNumber admitsBool⟩
  · exact ⟨isTrue_builds word admitsBool admitsNumber, isFalse_builds word admitsBool admitsNumber⟩

/-- The types of words. -/
def IsWordType (type : TypeSig) : Prop := type = .bool ∨ type = .int32

theorem typed_parameter {type : TypeSig} (isWordType : IsWordType type) (slot : Nat) (name : String) :
    Typed IsWordType type (mkParameter slot name type) := by
  refine @Typed.leaf _ (mkParameter slot name type) isWordType ?_ rfl
  rcases isWordType with rfl | rfl <;> rfl

/-- Whether one parameter is less than another. -/
def ascending : Expr :=
  mkBinary .lessThan (mkParameter 0 "first" .int32) (mkParameter 1 "second" .int32) .bool

theorem typed_ascending : Typed IsWordType .bool ascending :=
  .compared rfl (.inl rfl) rfl (typed_parameter (.inr rfl) 0 "first")
    (typed_parameter (.inr rfl) 1 "second")

/-- The comparison, counted as one or zero, can be compared with a number. -/
theorem ascending_equals_third :
    ∃ result, equal ascending (mkParameter 2 "third" .int32) = .ok result ∧
      Means IsWordType (fun bindings =>
        ascending.number bindings == (mkParameter 2 "third" .int32).number bindings) result := by
  obtain ⟨-, -, builds, -⟩ := (condition_builders_mean (.inl rfl) (.inr rfl)).2.1 ascending
    (mkParameter 2 "third" .int32) (.inl typed_ascending) (.inr (typed_parameter (.inr rfl) 2 "third"))
  obtain ⟨result, isResult⟩ := builds.succeeds_iff.2 nofun
  exact ⟨result, isResult, builds.means result isResult⟩

end CilLift.Expr
