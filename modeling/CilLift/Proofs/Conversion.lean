import CilLift.Expr.Build
import CilLift.Proofs.Outcome

/-!
What conversion and negation can make of a tree, one constructor for each of their rules.
-/

namespace CilLift

/-- The error is about what a tree is built of. -/
def Error.IsFault : Error → Prop
  | .shape _ | .invalidCoercion .. => True
  | _ => False

namespace Expr

/-- The type can stand for the target as it is. -/
def Fits (target : TypeSig) (expr : Expr) : Prop :=
  (target.isVoid || target.accepts expr.type) = true

/-- The results that converting the literal of a node can have. -/
inductive Literal (source : Expr) : TypeSig → Expr → Prop where
  | constant (value : Constant) (target : TypeSig) : Literal source target (mkConstant value target)
  | wrapped (target : TypeSig) : Literal source target (mkConvert source target)
  | lifted (inner : TypeSig) (result : Expr) (converted : Literal source inner result) :
      Literal source (.nullable inner) (mkConvert result (.nullable inner))

theorem coerceConstant_faults (value : Constant) (source : Expr) (target : TypeSig) :
    Yields Error.IsFault (coerceConstant value source target) (Literal source target) := by
  induction target with
  | nullable inner ih =>
    unfold coerceConstant
    split
    · exact .constant .null _
    · refine ih.andThen fun middle literal => ?_
      split
      · exact .constant _ _
      · exact .lifted inner middle literal
  | _ =>
    unfold coerceConstant
    repeat' split
    all_goals first | trivial | exact .constant _ _ | exact .wrapped _

theorem coerceConstant_literal {value : Constant} {source result : Expr} {target : TypeSig}
    (converted : coerceConstant value source target = .ok result) : Literal source target result :=
  (coerceConstant_faults value source target).of_ok converted

/-- The results that converting a tree to a type can have. -/
inductive Coerces (target : TypeSig) : Expr → Expr → Prop where
  | same (expr : Expr) (fits : Fits target expr) : Coerces target expr expr
  | literal (header : Header) (value : Constant) (result : Expr)
      (misfit : ¬Fits target (.constant header value))
      (converted : coerceConstant value (.constant header value) target = .ok result) :
      Coerces target (.constant header value) result
  | fromBool (expr result : Expr) (misfit : ¬Fits target expr) (isBool : expr.isBool = true)
      (isNumber : isNumberTarget target = true) (converted : expr.oneOrZero target = .ok result) :
      Coerces target expr result
  | toBool (expr : Expr) (misfit : ¬Fits target expr) (isBool : target.isBool = true)
      (isInteger : expr.type.underlying.isInteger = true) : Coerces target expr expr.nonZero
  | operands (header : Header) (op : BinaryOp) (left right left' right' : Expr)
      (misfit : ¬Fits target (.binary header op left right))
      (isArithmetic : op.isArithmetic = true) (isTarget : isArithmeticTarget target = true)
      (notShift : op.isShift = false) (leftCoerces : Coerces target left left')
      (rightCoerces : Coerces target right right') :
      Coerces target (.binary header op left right) (mkBinary op left' right' target)
  | shifted (header : Header) (op : BinaryOp) (left amount left' : Expr)
      (misfit : ¬Fits target (.binary header op left amount))
      (isShift : op.isShift = true) (isTarget : isArithmeticTarget target = true)
      (leftCoerces : Coerces target left left') :
      Coerces target (.binary header op left amount) (mkBinary op left' amount target)
  | sides (header : Header) (test onTrue onFalse onTrue' onFalse' : Expr)
      (misfit : ¬Fits target (.conditional header test onTrue onFalse))
      (trueCoerces : Coerces target onTrue onTrue') (falseCoerces : Coerces target onFalse onFalse') :
      Coerces target (.conditional header test onTrue onFalse) (mkConditional test onTrue' onFalse')
  | wrapped (expr : Expr) (misfit : ¬Fits target expr) (isValue : expr.branch? = none)
      (notLiteral : expr.isConstant = false) : Coerces target expr (mkConvert expr target)

/-- What the choice of a rule says about the node and the target. -/
def Conversion.Applies (expr : Expr) (target : TypeSig) : Conversion → Prop
  | .branch => expr.branch?.isSome = true
  | .literal value => ∃ header, expr = .constant header value
  | .fromBool => expr.isBool = true ∧ isNumberTarget target = true
  | .toBool => target.isBool = true ∧ expr.type.underlying.isInteger = true
  | .operands => ∃ header op left right, expr = .binary header op left right ∧
      op.isArithmetic = true ∧ isArithmeticTarget target = true
  | .sides => ∃ header test onTrue onFalse, expr = .conditional header test onTrue onFalse
  | .wrapped => expr.branch? = none ∧ expr.isConstant = false

theorem conversion_applies (expr : Expr) (target : TypeSig) :
    (expr.conversion target).Applies expr target := by
  unfold conversion
  split
  · rfl
  · exact ⟨_, rfl⟩
  · rename_i notBranch notConstant
    have isValue : expr.branch? = none := by
      cases expr <;> first | rfl | exact absurd rfl (notBranch _ _)
    have notLiteral : expr.isConstant = false := by
      cases expr <;> first | rfl | exact absurd rfl (notConstant _ _)
    split
    · simp_all [Conversion.Applies]
    · split
      · simp_all [Conversion.Applies]
      · split
        · split
          · rename_i applies
            simp only [Bool.and_eq_true] at applies
            exact ⟨_, _, _, _, rfl, applies⟩
          · exact ⟨isValue, notLiteral⟩
        · exact ⟨_, _, _, _, rfl⟩
        · exact ⟨isValue, notLiteral⟩

theorem oneOrZero_faults (expr : Expr) (target : TypeSig) :
    Yields Error.IsFault (expr.oneOrZero target) fun _ => True := by
  refine (coerceConstant_faults _ _ _).andThen fun one _ => ?_
  exact (coerceConstant_faults _ _ _).andThen fun zero _ => trivial

/-- Conversion follows the rules, or fails for what stands in the tree. -/
theorem coerce_faults (expr : Expr) (target : TypeSig) :
    Yields Error.IsFault (expr.coerce target) (Coerces target expr) := by
  induction expr using coerce.induct target with
  | case1 expr fits =>
    rw [coerce.eq_def, if_pos fits]
    exact .same expr fits
  | case2 expr misfit rule =>
    rw [coerce.eq_def, if_neg misfit, rule]
    trivial
  | case3 value expr misfit rule =>
    obtain ⟨header, rfl⟩ := rule ▸ conversion_applies expr target
    rw [coerce.eq_def, if_neg misfit]
    exact (coerceConstant_faults _ _ _).withOutcome.mono
      (fun result ⟨converted, _⟩ => .literal header value result misfit converted) fun _ => id
  | case4 expr misfit rule =>
    obtain ⟨isBool, isNumber⟩ := rule ▸ conversion_applies expr target
    rw [coerce.eq_def, if_neg misfit, rule]
    exact (oneOrZero_faults _ _).withOutcome.mono
      (fun result ⟨converted, _⟩ => .fromBool expr result misfit isBool isNumber converted) fun _ => id
  | case5 expr misfit rule =>
    obtain ⟨isBool, isInteger⟩ := rule ▸ conversion_applies expr target
    rw [coerce.eq_def, if_neg misfit, rule]
    exact .toBool expr misfit isBool isInteger
  | case6 header op left right misfit rule leftIh rightIh =>
    obtain ⟨_, _, _, _, ⟨⟩, isArithmetic, isTarget⟩ :=
      rule ▸ conversion_applies (.binary header op left right) target
    rw [coerce.eq_def, if_neg misfit, rule]
    refine leftIh.andThen fun left' leftCoerces => ?_
    cases shift : op.isShift with
    | true => exact .shifted header op left right left' misfit shift isTarget leftCoerces
    | false =>
      refine rightIh.andThen fun right' rightCoerces => ?_
      exact .operands header op left right left' right' misfit isArithmetic isTarget shift
        leftCoerces rightCoerces
  | case7 header test onTrue onFalse misfit rule trueIh falseIh =>
    rw [coerce.eq_def, if_neg misfit, rule]
    refine trueIh.andThen fun onTrue' trueCoerces => ?_
    refine falseIh.andThen fun onFalse' falseCoerces => ?_
    exact .sides header test onTrue onFalse onTrue' onFalse' misfit trueCoerces falseCoerces
  | case8 expr misfit notBranch notLiteral notFromBool notToBool notOperands notSides =>
    have applies := conversion_applies expr target
    rw [coerce.eq_def, if_neg misfit]
    cases rule : expr.conversion target with
    | branch => exact absurd rule notBranch
    | literal value => exact absurd rule (notLiteral value)
    | fromBool => exact absurd rule notFromBool
    | toBool => exact absurd rule notToBool
    | operands =>
      rw [rule] at applies
      obtain ⟨header, op, left, right, rfl, -⟩ := applies
      exact absurd rfl (notOperands header op left right rule)
    | sides =>
      rw [rule] at applies
      obtain ⟨header, test, onTrue, onFalse, rfl⟩ := applies
      exact absurd rfl (notSides header test onTrue onFalse rule)
    | wrapped =>
      rw [rule] at applies
      exact .wrapped expr misfit applies.1 applies.2

theorem coerce_coerces {expr result : Expr} {target : TypeSig}
    (converted : expr.coerce target = .ok result) : Coerces target expr result :=
  (coerce_faults expr target).of_ok converted

variable {expr result : Expr} {target : TypeSig}

theorem fits_iff : Fits target expr ↔
    target = .void ∨ target = expr.type ∨ target = .object ∧ expr.type ≠ .void := by
  have isVoid : ∀ type : TypeSig, type.isVoid = true ↔ type = .void := by
    intro type
    cases type <;> simp [TypeSig.isVoid]
  simp [Fits, TypeSig.accepts, isVoid, ← Bool.not_eq_true]

theorem Fits.coerce (fits : Fits target expr) : expr.coerce target = .ok expr := by
  unfold Expr.coerce
  exact if_pos fits

theorem Literal.type_eq {source : Expr} (literal : Literal source target result) :
    result.type = target := by
  cases literal <;> rfl

theorem oneOrZero_eq_ok (converted : expr.oneOrZero target = .ok result) :
    ∃ one zero, Literal (int 1) target one ∧ Literal (int 0) target zero ∧
      result = mkConditional expr one zero := by
  obtain ⟨one, isOne, converted⟩ := bind_eq_ok.1 converted
  obtain ⟨zero, isZero, ⟨⟩⟩ := bind_eq_ok.1 converted
  exact ⟨one, zero, coerceConstant_literal isOne, coerceConstant_literal isZero, rfl⟩

theorem Coerces.fits (coerces : Coerces target expr result) : Fits target result := by
  have ofType : ∀ {result : Expr}, result.type = target → Fits target result := fun isType =>
    fits_iff.2 (.inr (.inl isType.symm))
  induction coerces with
  | same _ fits => exact fits
  | literal _ _ _ _ converted => exact ofType (coerceConstant_literal converted).type_eq
  | fromBool _ _ _ _ _ converted =>
    obtain ⟨one, zero, isOne, -, rfl⟩ := oneOrZero_eq_ok converted
    exact ofType isOne.type_eq
  | toBool _ _ isBool =>
    cases target <;> first | rfl | cases isBool
  | operands | shifted | wrapped => exact ofType rfl
  | sides _ _ _ _ _ _ _ _ _ trueFits => exact trueFits

end Expr

end CilLift
