import CilLift.Proofs.Conversion
import CilLift.Proofs.Valuation
import CilLift.Proofs.Wrapping

/-!
Conversion of a tree to another type of numbers. The conversion is pushed down to the operands, so the
result has the converted number only where every operator on the way carries over to the other type.
-/

namespace CilLift

open List

variable {op : BinaryOp} {type : TypeSig} {value : Constant} {header : Header}

namespace BinaryOp

/-- The operator carries over whatever its operands are. -/
def Commutes (source target : IntegerType) : BinaryOp → Prop
  | .and | .or | .exclusiveOr => True
  | .add | .subtract | .multiply => target.bits ≤ source.bits
  | _ => False

theorem Commutes.carriesOver {source target : IntegerType} (commutes : op.Commutes source target)
    (left right : Int) : op.CarriesOver source target left right := by
  cases op with
  | and | or | exclusiveOr => trivial
  | add | subtract | multiply => exact .inl commutes
  | _ => exact commutes.elim

theorem isArithmetic_of_isShift (isShift : op.isShift = true) : op.isArithmetic = true := by
  cases op <;> first | rfl | cases isShift

end BinaryOp

theorem Constant.IsOf.wrap_toInt (isOf : value.IsOf type) :
    type.wrap (value.toInt?.getD 0) = value.toInt?.getD 0 := by
  unfold IsOf at isOf
  split at isOf
  · rename_i holds
    cases holds <;> rfl
  · rename_i unit
    exact Int.emod_eq_of_lt (Int.natCast_nonneg _) (Int.ofNat_lt.2 unit.toNat_lt)
  · exact isOf.2
  · exact isOf.elim

namespace Expr

/-- The operators that a conversion is pushed through. -/
def spine : Expr → List BinaryOp
  | .binary _ op left right => op :: (left.spine ++ if op.isShift then [] else right.spine)
  | .conditional _ _ onTrue onFalse => onTrue.spine ++ onFalse.spine
  | _ => []

theorem Typed.constant_isOf {admits : TypeSig → Prop}
    (typed : Typed admits type (.constant header value)) :
    header.type = type ∧ value.IsOf type := by
  cases typed with
  | constant _ isOf => exact ⟨rfl, isOf⟩
  | leaf _ _ isLeaf => cases isLeaf

/-- Every operator that a conversion is pushed through carries over, on the sides that are taken. -/
def CarriesOver (bindings : Bindings) (source target : IntegerType) : Expr → Prop
  | .binary _ op left right =>
    left.CarriesOver bindings source target ∧
    (op.isShift = false → right.CarriesOver bindings source target) ∧
    op.CarriesOver source target (left.number bindings) (right.number bindings)
  | .conditional _ test onTrue onFalse =>
    if test.truth bindings then onTrue.CarriesOver bindings source target
    else onFalse.CarriesOver bindings source target
  | _ => True

variable {bindings : Bindings} {admits : TypeSig → Prop} {source target : IntegerType}
  {expr result : Expr}

theorem carriesOver_of_spine (commutes : ∀ op ∈ expr.spine, op.Commutes source target) :
    expr.CarriesOver bindings source target := by
  fun_induction spine expr with
  | case1 header op left right leftIh rightIh =>
    obtain ⟨opCommutes, leftCommutes, rightCommutes⟩ := by
      simpa only [forall_mem_cons, forall_mem_append] using commutes
    refine ⟨leftIh leftCommutes, fun notShift => rightIh ?_, opCommutes.carriesOver ..⟩
    rwa [if_neg (by simp [notShift])] at rightCommutes
  | case2 header test onTrue onFalse trueIh falseIh =>
    rw [forall_mem_append] at commutes
    rw [CarriesOver]
    split
    · exact trueIh commutes.1
    · exact falseIh commutes.2
  | case3 expr notBinary notConditional =>
    cases expr <;> first
      | trivial
      | exact (notBinary _ _ _ _ rfl).elim
      | exact (notConditional _ _ _ _ rfl).elim

theorem Typed.operands {left right : Expr}
    (typed : Typed admits type (.binary header op left right))
    (isArithmetic : op.isArithmetic = true) :
    ∃ source, type = .integer source ∧ header.type = type ∧ Typed admits type left ∧
      if op.isShift then Typed admits .int32 right else Typed admits type right := by
  cases typed with
  | leaf _ _ isLeaf => cases isLeaf
  | computed isType _ notShift typedLeft typedRight =>
    rw [notShift]
    exact ⟨_, rfl, isType, typedLeft, typedRight⟩
  | shifted isType isShift typedLeft typedAmount =>
    rw [isShift]
    exact ⟨_, rfl, isType, typedLeft, typedAmount⟩
  | compared _ _ isComparison => cases op <;> first | (cases isArithmetic; done) | cases isComparison
  | connected _ isLogical => cases op <;> first | (cases isArithmetic; done) | cases isLogical

/-- The number of a converted arithmetic node. -/
theorem number_converted {left right newLeft newRight : Expr}
    (isType : header.type = .integer source) (typedLeft : Typed admits (.integer source) left)
    (typedRight : op.isShift = false → Typed admits (.integer source) right)
    (carries : op.CarriesOver source target (left.number bindings) (right.number bindings))
    (isLeft : newLeft.number bindings = target.wrap (left.number bindings))
    (isRight : newRight.number bindings =
      if op.isShift then right.number bindings else target.wrap (right.number bindings)) :
    (mkBinary op newLeft newRight (.integer target)).number bindings =
      target.wrap ((binary header op left right).number bindings) := by
  obtain ⟨outcome, converted, isOutcome, isConverted, agree⟩ :=
    carries.outcome typedLeft.wrap_number fun notShift => (typedRight notShift).wrap_number
  have isNumber : (binary header op left right).number bindings = header.type.wrap outcome := by
    refine number_binary ?_
    rw [isType]
    exact isOutcome
  rw [isNumber, isType]
  refine (number_binary ?_).trans agree
  rw [isLeft, isRight]
  exact isConverted

/-- A literal becomes the literal that stands for it. -/
theorem coerceConstant_scalar {target : TypeSig} {source : Expr} (isOf : value.IsOf type)
    (isScalar : target.isScalar = true) (admitted : admits target)
    (converted : coerceConstant value source target = .ok result) :
    (Typed admits target result ∧ result.spine = [] ∧
      ∀ bindings, result.number bindings = target.wrap (value.toInt?.getD 0)) ∧
    (target = .bool → ∀ bindings, result.number bindings = value.toInt?.getD 0) := by
  have literal : ∀ {literal : Constant}, literal.IsOf target →
      literal.toInt?.getD 0 = target.wrap (value.toInt?.getD 0) →
      Typed admits target (mkConstant literal target) ∧ (mkConstant literal target).spine = [] ∧
        ∀ bindings, (mkConstant literal target).number bindings = target.wrap (value.toInt?.getD 0) :=
    fun isLiteral same => ⟨@Typed.constant _ { type := target } _ admitted isLiteral, rfl, fun _ =>
      (congrArg target.wrap same).trans (target.wrap_wrap _)⟩
  obtain ⟨isTruncated, notNull, isInt⟩ : value.truncated? = some (value.toInt?.getD 0) ∧
      value ≠ .null ∧ value.toInt? = some (value.toInt?.getD 0) := by
    cases value <;> first
      | exact ⟨rfl, by simp, rfl⟩
      | cases type <;> exact isOf.elim
  generalize value.toInt?.getD 0 = number at *
  cases target <;> try cases isScalar
  case bool =>
    unfold coerceConstant at converted
    dsimp only at converted
    split at converted
    · exact absurd rfl notNull
    rw [isInt] at converted
    split at converted
    · rename_i isZero
      cases isZero
      cases converted
      exact ⟨@literal (.bool false) trivial rfl, fun _ _ => rfl⟩
    · rename_i isOne
      cases isOne
      cases converted
      exact ⟨@literal (.bool true) trivial rfl, fun _ _ => rfl⟩
    · cases converted
  all_goals
    unfold coerceConstant at converted
    split at converted
    · exact absurd rfl notNull
    rw [isTruncated] at converted
    cases converted
  · refine ⟨@literal (.char _) trivial ?_, by simp⟩
    have isEmod : number.emod 65536 = number % 65536 := rfl
    simp only [Constant.toInt?, TypeSig.wrap, Option.getD_some, UInt16.toNat_ofNat']
    omega
  · exact ⟨@literal (.integer _ _) ⟨rfl, IntegerType.wrap_wrap _ number⟩ rfl, by simp⟩

/-- The conversion of a tree from one type to another carries its number over. -/
def Carries (bindings : Bindings) (expr : Expr) : TypeSig → TypeSig → Prop
  | .integer source, .integer target => target = source ∨ expr.CarriesOver bindings source target
  | .integer _, .char => expr.spine = []
  | _, _ => True

theorem Carries.side {target : TypeSig} {test onTrue onFalse : Expr}
    (carries : (conditional header test onTrue onFalse).Carries bindings type target) :
    (if test.truth bindings then onTrue else onFalse).Carries bindings type target := by
  cases type <;> try trivial
  cases target <;> try trivial
  · obtain ⟨trueSpine, falseSpine⟩ := append_eq_nil_iff.1 carries
    split <;> assumption
  · refine Or.imp_right (fun carries => ?_) carries
    rw [CarriesOver] at carries
    split <;> simp_all

/-- Conversion gives a tree of the target type, and one that has the converted number where the
conversion carries over. -/
theorem Coerces.scalar {target : TypeSig} (coerces : Coerces target expr result)
    (typed : Typed admits type expr) (isScalar : target.isScalar = true) (admitted : admits target)
    (unpushed : target = .char → type = .bool ∨ expr.spine = []) :
    Typed admits target result ∧
    (target ≠ .bool → type = .bool ∨ expr.spine = [] → result.spine = []) ∧
    ∀ bindings, expr.Carries bindings type target →
      result.number bindings = target.wrap (expr.number bindings) := by
  have differ {source integer : IntegerType} {expr : Expr} {bindings : Bindings}
      (misfit : ¬Fits (.integer integer) expr) (typed : Typed admits (.integer source) expr)
      (carries : expr.Carries bindings (.integer source) (.integer integer)) :
      expr.CarriesOver bindings source integer := by
    refine Or.resolve_left carries fun same => misfit (fits_iff.2 (.inr (.inl ?_)))
    rw [same, typed.type_eq]
  have integral {header : Header} {op : BinaryOp} {left right : Expr}
      (isArithmetic : op.isArithmetic = true)
      (typed : Typed admits type (.binary header op left right))
      (isTarget : isArithmeticTarget target = true)
      (unpushed : target = .char → type = .bool ∨ (binary header op left right).spine = []) :
      ∃ integer, target = .integer integer := by
    cases target <;> first | (cases isScalar; done) | (cases isTarget; done) | exact ⟨_, rfl⟩ | skip
    obtain ⟨_, rfl, -⟩ := typed.operands isArithmetic
    rcases unpushed rfl with ⟨⟨⟩⟩ | ⟨⟨⟩⟩
  induction coerces with
  | same expr fits =>
    have same : target = type := by
      rw [fits_iff, typed.type_eq] at fits
      rcases fits with rfl | same | ⟨rfl, -⟩
      · cases isScalar
      · exact same
      · cases isScalar
    subst same
    exact ⟨typed, fun notBool isWhole => isWhole.resolve_left notBool, fun _ _ =>
      typed.wrap_number.symm⟩
  | literal header value result _ converted =>
    obtain ⟨isType, isOf⟩ := typed.constant_isOf
    obtain ⟨⟨typedResult, isSpine, isNumber⟩, -⟩ :=
      coerceConstant_scalar isOf isScalar admitted converted
    refine ⟨typedResult, fun _ _ => isSpine, fun bindings _ => (isNumber bindings).trans ?_⟩
    rw [number, isType, isOf.wrap_toInt]
  | fromBool expr result _ isBool _ converted =>
    obtain ⟨one, isOne, converted⟩ := bind_eq_ok.1 converted
    obtain ⟨zero, isZero, ⟨⟩⟩ := bind_eq_ok.1 converted
    have isOf : ∀ value : Bool, Constant.IsOf .int32 (.integer .int32 value.toInt) := fun value =>
      ⟨rfl, @TypeSig.wrap_toInt .int32 rfl value⟩
    obtain ⟨⟨typedOne, oneSpine, oneNumber⟩, -⟩ :=
      coerceConstant_scalar (isOf true) isScalar admitted isOne
    obtain ⟨⟨typedZero, zeroSpine, zeroNumber⟩, -⟩ :=
      coerceConstant_scalar (isOf false) isScalar admitted isZero
    have isType : type = .bool := by
      rw [Expr.isBool, typed.type_eq] at isBool
      cases type <;> first | rfl | cases isBool
    subst isType
    refine ⟨.chosen typedOne.type_eq typed typedOne typedZero, fun _ _ => ?_, fun bindings _ => ?_⟩
    · rw [mkConditional, spine, oneSpine, zeroSpine]
      rfl
    · rw [mkConditional, number, oneNumber, zeroNumber, typed.number_eq]
      cases expr.truth bindings <;> rfl
  | toBool expr _ isBool isInteger =>
    have isTarget : target = .bool := by
      cases target <;> first | rfl | cases isBool
    subst isTarget
    have isZero : Typed admits type (zeroOf expr.type) ∧
        ∀ bindings, (zeroOf expr.type).number bindings = 0 := by
      have sourceScalar := typed.isScalar
      have sourceAdmitted := typed.admitted
      rw [typed.type_eq] at isInteger ⊢
      cases type <;> first | (cases sourceScalar; done) | cases isInteger
      rename_i integer
      refine ⟨@Typed.constant _ { type := .integer integer } _ sourceAdmitted ⟨rfl, ?_⟩, fun _ => ?_⟩ <;>
        cases integer <;> rfl
    refine ⟨.compared rfl admitted rfl typed isZero.1, fun notBool => absurd rfl notBool,
      fun bindings _ => ?_⟩
    exact (number_binary rfl).trans (by rw [isZero.2]; exact TypeSig.wrap_toInt rfl _)
  | operands header op left right newLeft newRight misfit isArithmetic isTarget notShift _ _ leftIh
      rightIh =>
    obtain ⟨integer, rfl⟩ := integral isArithmetic typed isTarget unpushed
    obtain ⟨source, rfl, isType, typedLeft, typedRight⟩ := typed.operands isArithmetic
    rw [if_neg (by simp [notShift])] at typedRight
    obtain ⟨newTyped, -, leftNumber⟩ := leftIh typedLeft (by simp)
    obtain ⟨rightTyped, -, rightNumber⟩ := rightIh typedRight (by simp)
    refine ⟨.computed rfl isArithmetic notShift newTyped rightTyped, fun _ isWhole => ?_,
      fun bindings carries => ?_⟩
    · rcases isWhole with ⟨⟨⟩⟩ | ⟨⟨⟩⟩
    · obtain ⟨carriesLeft, carriesRight, carries⟩ := differ misfit typed carries
      refine number_converted isType typedLeft (fun _ => typedRight) carries
        (leftNumber bindings (.inr carriesLeft)) ?_
      rw [if_neg (by simp [notShift])]
      exact rightNumber bindings (.inr (carriesRight notShift))
  | shifted header op left amount newLeft misfit isShift isTarget _ leftIh =>
    have isArithmetic := BinaryOp.isArithmetic_of_isShift isShift
    obtain ⟨integer, rfl⟩ := integral isArithmetic typed isTarget unpushed
    obtain ⟨source, rfl, isType, typedLeft, typedAmount⟩ := typed.operands isArithmetic
    rw [if_pos isShift] at typedAmount
    obtain ⟨newTyped, -, leftNumber⟩ := leftIh typedLeft (by simp)
    refine ⟨.shifted rfl isShift newTyped typedAmount, fun _ isWhole => ?_, fun bindings carries => ?_⟩
    · rcases isWhole with ⟨⟨⟩⟩ | ⟨⟨⟩⟩
    · obtain ⟨carriesLeft, -, carries⟩ := differ misfit typed carries
      refine number_converted isType typedLeft (fun notShift => ?_) carries
        (leftNumber bindings (.inr carriesLeft)) (if_pos isShift).symm
      rw [isShift] at notShift
      cases notShift
  | sides header test onTrue onFalse _ _ _ _ _ trueIh falseIh =>
    cases typed with
    | leaf _ _ isLeaf => cases isLeaf
    | chosen isType typedTest typedTrue typedFalse =>
      rw [spine, append_eq_nil_iff] at unpushed ⊢
      obtain ⟨trueTyped, trueSpine, trueNumber⟩ :=
        trueIh typedTrue fun isChar => (unpushed isChar).imp_right And.left
      obtain ⟨falseTyped, falseSpine, falseNumber⟩ :=
        falseIh typedFalse fun isChar => (unpushed isChar).imp_right And.right
      refine ⟨.chosen trueTyped.type_eq typedTest trueTyped falseTyped, fun notBool isWhole => ?_,
        fun bindings carries => ?_⟩
      · rw [mkConditional, spine, trueSpine notBool (isWhole.imp_right And.left),
          falseSpine notBool (isWhole.imp_right And.right)]
        rfl
      · have carries := carries.side
        rw [mkConditional, number, number]
        rw [truth] at carries
        split at carries <;> rename_i holds
        · rw [if_pos holds, if_pos holds, trueNumber bindings carries]
        · rw [if_neg holds, if_neg holds, falseNumber bindings carries]
  | wrapped expr => exact ⟨@Typed.converted _ { type := target } _ _ admitted isScalar typed,
      fun _ _ => rfl, fun _ _ => rfl⟩

theorem Typed.branch? (typed : Typed admits type expr) : expr.branch? = none := by
  cases expr <;> try rfl
  case branch => cases typed with | leaf _ _ isLeaf => cases isLeaf

/-- A well-typed tree can be converted to every type but that of truth values. -/
theorem Typed.exists_coerce {target : TypeSig} (typed : Typed admits type expr)
    (isScalar : target.isScalar = true) (notBool : target ≠ .bool) :
    ∃ result, expr.coerce target = .ok result := by
  have literal {type : TypeSig} {value : Constant} (source : Expr) (isOf : value.IsOf type) :
      ∃ result, coerceConstant value source target = .ok result := by
    cases value <;> (try cases type <;> exact isOf.elim) <;> cases target <;>
      first | (cases isScalar; done) | exact absurd rfl notBool | exact ⟨_, rfl⟩
  induction expr using coerce.induct target generalizing type with
  | case1 expr fits => exact ⟨expr, Fits.coerce fits⟩
  | case2 expr _ rule =>
    have isBranch := rule ▸ conversion_applies expr target
    rw [Conversion.Applies, typed.branch?] at isBranch
    cases isBranch
  | case3 value expr misfit rule =>
    obtain ⟨header, rfl⟩ := rule ▸ conversion_applies expr target
    rw [coerce.eq_def, if_neg misfit]
    exact literal _ typed.constant_isOf.2
  | case4 expr misfit rule =>
    obtain ⟨one, isOne⟩ := @literal .int32 (.integer .int32 1) (int 1) ⟨rfl, rfl⟩
    obtain ⟨zero, isZero⟩ := @literal .int32 (.integer .int32 0) (int 0) ⟨rfl, rfl⟩
    rw [coerce.eq_def, if_neg misfit, rule]
    dsimp only [oneOrZero]
    rw [isOne, isZero]
    exact ⟨_, rfl⟩
  | case5 expr misfit rule =>
    rw [coerce.eq_def, if_neg misfit, rule]
    exact ⟨_, rfl⟩
  | case6 header op left right misfit rule leftIh rightIh =>
    obtain ⟨_, _, _, _, ⟨⟩, isArithmetic, -⟩ :=
      rule ▸ conversion_applies (.binary header op left right) target
    obtain ⟨_, -, -, typedLeft, typedRight⟩ := typed.operands isArithmetic
    obtain ⟨newLeft, isLeft⟩ := leftIh typedLeft
    rw [coerce.eq_def, if_neg misfit, rule]
    dsimp only
    rw [isLeft]
    cases isShift : op.isShift with
    | true => exact ⟨_, rfl⟩
    | false =>
      rw [isShift] at typedRight
      obtain ⟨newRight, isRight⟩ := rightIh typedRight
      rw [isRight]
      exact ⟨_, rfl⟩
  | case7 header test onTrue onFalse misfit rule trueIh falseIh =>
    cases typed with
    | leaf _ _ isLeaf => cases isLeaf
    | chosen _ _ typedTrue typedFalse =>
      obtain ⟨newTrue, isTrue⟩ := trueIh typedTrue
      obtain ⟨newFalse, isFalse⟩ := falseIh typedFalse
      rw [coerce.eq_def, if_neg misfit, rule]
      dsimp only
      rw [isTrue, isFalse]
      exact ⟨_, rfl⟩
  | case8 expr misfit notBranch notLiteral notFromBool notToBool notOperands notSides =>
    rw [coerce.eq_def, if_neg misfit]
    split
    · exact absurd ‹_› notBranch
    · exact absurd ‹_› (notLiteral _)
    · exact absurd ‹_› notFromBool
    · exact absurd ‹_› notToBool
    · exact absurd rfl (notOperands _ _ _ _ ‹_›)
    · exact absurd rfl (notSides _ _ _ _ ‹_›)
    · exact ⟨_, rfl⟩

/-- Conversion between integral types succeeds on every well-typed tree. The result is well typed and
has the converted number for all values of the leaves at which every operator on the way carries over,
and so for all values if there are only bitwise operators, or also sums, differences and products and
the target type is not the wider one. -/
theorem coerce_between_integers (typed : Typed admits (.integer source) expr)
    (admitsTarget : admits (.integer target)) :
    ∃ result, expr.coerce (.integer target) = .ok result ∧ Typed admits (.integer target) result ∧
      (∀ bindings, target = source ∨ expr.CarriesOver bindings source target →
        result.number bindings = target.wrap (expr.number bindings)) ∧
      ((∀ op ∈ expr.spine, op.Commutes source target) → ∀ bindings,
        result.number bindings = target.wrap (expr.number bindings)) := by
  obtain ⟨result, isResult⟩ := @Typed.exists_coerce _ _ _ (.integer target) typed rfl (by simp)
  obtain ⟨typedResult, -, isNumber⟩ := (coerce_coerces isResult).scalar typed rfl admitsTarget (by simp)
  exact ⟨result, isResult, typedResult, isNumber, fun commutes bindings =>
    isNumber bindings (.inr (carriesOver_of_spine commutes))⟩

/-- An operator between two parameters. -/
def operation (op : BinaryOp) (type : IntegerType) : Expr :=
  mkBinary op (mkParameter 0 "left" (.integer type))
    (mkParameter 1 "right" (if op.isShift then .int32 else .integer type)) (.integer type)

/-- The values of the two parameters. -/
def passing (left right : Int) : Bindings where
  argument slot := if slot = 0 then left else right
  content _ := 0
  other _ := 0
  unanswered _ _ _ _ := 0

theorem typed_operation (isArithmetic : op.isArithmetic = true) (type : IntegerType) :
    Typed (fun _ => True) (.integer type) (operation op type) := by
  have typed : ∀ slot name type, Typed (fun _ => True) (.integer type)
      (mkParameter slot name (.integer type)) := fun slot name type =>
    @Typed.leaf _ (mkParameter slot name (.integer type)) trivial rfl rfl
  unfold operation
  split
  · rename_i isShift
    exact .shifted rfl isShift (typed ..) (typed ..)
  · rename_i notShift
    exact .computed rfl isArithmetic (by simpa using notShift) (typed ..) (typed ..)

/-- A quotient of 32-bit numbers that both are 8-bit numbers. -/
theorem coerce_quotient_to_uint8 :
    ∃ result, (operation .divide .int32).coerce (.integer .uint8) = .ok result ∧
      (operation .divide .int32).CarriesOver (passing 200 7) .int32 .uint8 ∧
      result.number (passing 200 7) = 28 := by
  obtain ⟨result, isResult, -, isNumber, -⟩ :=
    @coerce_between_integers _ _ .uint8 _ (@typed_operation .divide rfl .int32) trivial
  have carries : (operation .divide .int32).CarriesOver (passing 200 7) .int32 .uint8 :=
    ⟨trivial, fun _ => trivial, by decide, rfl, rfl, .inl (by decide)⟩
  exact ⟨result, isResult, carries, isNumber _ (.inr carries)⟩

/-- The converted operation does not have the converted number. -/
def LosesNumber (op : BinaryOp) (source target : IntegerType) (left right : Int) : Prop :=
  ∃ result, (operation op source).coerce (.integer target) = .ok result ∧
    result.number (passing left right) ≠ target.wrap ((operation op source).number (passing left right))

/-- A wider type shows what the narrower one loses, and a type that does not have the operands gives
other quotients, remainders and shifts to the right. -/
theorem conversions_lose_numbers :
    LosesNumber .add .int32 .int64 2147483647 1 ∧
    LosesNumber .subtract .uint32 .uint64 0 1 ∧
    LosesNumber .multiply .int32 .int64 65536 65536 ∧
    LosesNumber .leftShift .int32 .int64 1 31 ∧
    LosesNumber .divide .int32 .uint8 256 2 ∧
    LosesNumber .modulo .int32 .int16 65537 10 ∧
    LosesNumber .rightShift .int32 .uint32 (-2) 1 := by
  refine ⟨?_, ?_, ?_, ?_, ?_, ?_, ?_⟩ <;> exact ⟨_, rfl, by decide⟩

end Expr

end CilLift
