import CilLift.Proofs.Reconstruction
import CilLift.Proofs.StraightLine
import CilLift.Proofs.Truth

/-!
Jumps on a comparison. A comparison whose outcome is tested brings its operands to their common type,
and a jump that compares by itself brings the right operand to the type of the left one. The two decide
alike where these types are the same, and elsewhere where the operands compare alike in both.
-/

namespace CilLift

open List CilLift.Expr Workspace Option TypeSig

/-- The type of a value in numeric form. -/
def TypeSig.asNumber : TypeSig → TypeSig
  | .bool | .char => .int32
  | type => type

theorem TypeSig.isScalar_asNumber {type : TypeSig} (isScalar : type.isScalar = true) :
    type.asNumber.isScalar = true := by
  cases type <;> first | (cases isScalar; done) | rfl

theorem TypeSig.isScalar_commonType {left right common : TypeSig} (leftScalar : left.isScalar = true)
    (rightScalar : right.isScalar = true) (isCommon : left.commonType right = some common) :
    common.isScalar = true := by
  have widened {wide narrow : TypeSig} (isScalar : wide.isScalar = true) :
      (wide.widened narrow).isScalar = true := by
    unfold widened
    repeat' split
    all_goals first | rfl | exact isScalar
  have isPromoted : common = left ∨ left.promote right = some common := by
    cases left <;> cases leftScalar <;> cases right <;> cases rightScalar <;>
      simp only [commonType] at isCommon <;> split_ifs at isCommon <;>
      first | exact .inr isCommon | exact .inl (some.inj isCommon).symm
  rcases isPromoted with rfl | isPromoted
  · exact leftScalar
  · obtain ⟨_, -, isPromoted⟩ := bind_eq_some_iff.1 isPromoted
    obtain ⟨_, -, isPromoted⟩ := bind_eq_some_iff.1 isPromoted
    split_ifs at isPromoted <;> cases isPromoted
    · exact leftScalar
    · exact widened leftScalar
    · exact widened rightScalar

/-- What is not taken apart has the same value whatever its identities are. -/
def Bindings.Uniform (bindings : Bindings) : Prop :=
  ∀ expr : Expr, bindings.other expr.shape = bindings.other expr

namespace Expr

/-- The tree is well typed. -/
abbrev IsTyped (type : TypeSig) (expr : Expr) : Prop := Typed (fun _ => True) type expr

variable {type target leftType rightType : TypeSig} {expr number result left right value : Expr}
  {bindings : Bindings}

/-! Identities. -/

theorem number_shape (uniform : bindings.Uniform) (expr : Expr) :
    expr.shape.number bindings = expr.number bindings := by
  induction expr using partsInduction with
  | step expr ih =>
    have leafNode : expr.shape.type.wrap (bindings.other expr.shape) =
        expr.type.wrap (bindings.other expr) := by
      rw [type_shape, uniform]
    cases expr <;> simp only [parts, children] at ih
    case constant | parameter | var => rfl
    case unary header op operand =>
      cases op <;> first | exact leafNode | simp [shape, number, ih]
    case binary | conditional => simp [shape, number, ih]
    all_goals exact leafNode

theorem truth_place (uniform : bindings.Uniform) (next : Nat) (expr : Expr) :
    (expr.place next).1.truth bindings = expr.truth bindings := by
  rw [truth, ← number_shape uniform, shape_place, number_shape uniform]
  rfl

/-- Handing out identities keeps a tree well typed. -/
theorem Typed.place (typed : IsTyped type expr) (next : Nat) : IsTyped type (expr.place next).1 := by
  induction typed generalizing next with
  | @constant header _ admitted isOf =>
    cases placed : header.id <;> simp only [Expr.place, placed]
    · exact @constant _ { header with id := some next } _ admitted isOf
    · exact .constant admitted isOf
  | @leaf expr admitted isScalar isLeaf =>
    have sameLeaf : (expr.place next).1.isLeaf = expr.isLeaf := by
      cases expr with
      | _ header => cases placed : header.id <;> simp [Expr.place, placed, Expr.isLeaf]
    rw [← type_place next expr] at isScalar ⊢
    exact .leaf admitted isScalar (sameLeaf.trans isLeaf)
  | @converted header _ _ admitted isScalar typed ih =>
    cases placed : header.id <;> simp only [Expr.place, placed]
    · exact @converted _ { header with id := some _ } _ _ admitted isScalar (ih next)
    · exact .converted admitted isScalar typed
  | computed isType isArithmetic notShift =>
    unfold Expr.place
    split <;> exact .computed isType isArithmetic notShift (by solve_by_elim) (by solve_by_elim)
  | compared isType admitted isComparison =>
    unfold Expr.place
    split <;> exact .compared isType admitted isComparison (by solve_by_elim) (by solve_by_elim)
  | _ =>
    unfold Expr.place
    split <;> solve_by_elim [inverted, shifted, connected, negated, chosen]

/-! Operands, brought to the type in which they are compared. -/

theorem Typed.spine_char (typed : IsTyped .char expr) : expr.spine = [] := by
  generalize isType : char = type at typed
  induction typed with
  | @leaf expr _ _ isLeaf => cases expr <;> first | rfl | cases isLeaf
  | chosen _ _ _ _ _ trueIh falseIh =>
    rw [spine, trueIh isType, falseIh isType]
    rfl
  | _ => first | rfl | cases isType

theorem carries_of_spine (isEmpty : expr.spine = []) (source target : TypeSig) :
    expr.Carries bindings source target := by
  cases source <;> try trivial
  cases target <;> try trivial
  exact .inr (carriesOver_of_spine (by simp [isEmpty]))

theorem type_coerce (isScalar : target.isScalar = true) (converted : expr.coerce target = .ok result) :
    result.type = target := by
  rcases fits_iff.1 (coerce_coerces converted).fits with rfl | same | ⟨rfl, -⟩
  · cases isScalar
  · exact same.symm
  · cases isScalar

theorem Typed.number_coerce (typed : IsTyped type expr) (isScalar : target.isScalar = true)
    (carries : expr.Carries bindings type target) (converted : expr.coerce target = .ok result) :
    result.number bindings = target.wrap (expr.number bindings) := by
  refine ((coerce_coerces converted).scalar typed isScalar trivial ?_).2.2 bindings carries
  rintro rfl
  cases type with
  | bool => exact .inl rfl
  | char => exact .inr typed.spine_char
  | integer => exact .inr carries
  | _ => cases typed.isScalar

theorem Typed.ensureNumeric_eq (typed : IsTyped type expr) :
    expr.ensureNumeric = expr.coerce type.asNumber := by
  unfold ensureNumeric
  rw [typed.type_eq]
  cases type with
  | bool | char => rfl
  | integer => exact (coerce_of_type typed.type_eq).symm
  | _ => cases typed.isScalar

theorem Typed.asNumber_integer (typed : IsTyped type expr) :
    ∃ integer, type.asNumber = .integer integer := by
  have isScalar := typed.isScalar
  cases type <;> first | (cases isScalar; done) | exact ⟨_, rfl⟩

/-- A further conversion of the numeric form. -/
theorem Typed.number_again (typed : IsTyped type expr) (isNumber : expr.coerce type.asNumber = .ok number)
    (isScalar : target.isScalar = true) (carries : expr.Carries bindings type target)
    (converted : number.coerce target = .ok result) :
    result.number bindings = target.wrap (expr.number bindings) := by
  have through (isWhole : type = .bool ∨ expr.spine = []) (isNumber : expr.coerce .int32 = .ok number)
      (carries : expr.Carries bindings type .int32)
      (fits : int32.wrap (expr.number bindings) = expr.number bindings) :
      result.number bindings = target.wrap (expr.number bindings) := by
    obtain ⟨typedNumber, isEmpty, same⟩ := (coerce_coerces isNumber).scalar typed rfl trivial (by simp)
    rw [typedNumber.number_coerce isScalar (carries_of_spine (isEmpty (by simp) isWhole) ..) converted,
      same bindings carries, fits]
  cases type with
  | bool =>
    refine through (.inl rfl) isNumber trivial ?_
    rw [typed.number_eq, wrap_toInt rfl]
  | char =>
    refine through (.inr typed.spine_char) isNumber trivial ?_
    have isUnit : expr.number bindings % 65536 = expr.number bindings := typed.wrap_number
    refine IntegerType.holds_iff_div.2 (.inl (Int.ediv_eq_zero_of_lt (by omega) ?_))
    exact lt_of_lt_of_le (by omega : expr.number bindings < 65536) (by decide)
  | integer =>
    cases (coerce_of_type typed.type_eq).symm.trans isNumber
    exact typed.number_coerce isScalar carries converted
  | _ => cases typed.isScalar

/-! Equality. -/

/-- The tree is zero or one, in every type. -/
def IsBit (type : TypeSig) (expr : Expr) : Prop :=
  (∀ bindings target, expr.Carries bindings type target) ∧
    ∀ bindings, ∃ bit : Bool, expr.number bindings = bit.toInt

theorem Typed.isBit (typed : IsTyped .bool expr) : expr.IsBit .bool :=
  ⟨fun _ _ => trivial, fun bindings => ⟨_, typed.number_eq bindings⟩⟩

theorem IsBit.wrap (isBit : expr.IsBit type) (isScalar : target.isScalar = true) :
    target.wrap (expr.number bindings) = expr.number bindings := by
  obtain ⟨bit, isNumber⟩ := isBit.2 bindings
  rw [isNumber, wrap_toInt isScalar]

/-- A literal is folded away only if it is zero or one. -/
theorem foldable?_eq_some {fold : Bool} {other : Expr} (typedLeft : IsTyped leftType left)
    (typedRight : IsTyped rightType right) (found : foldable? left right = .ok (some (fold, other))) :
    IsTyped .bool other ∧ left.IsBit leftType ∧ right.IsBit rightType ∧ ∀ bindings,
      (left.number bindings == right.number bindings) = (other.truth bindings == fold) := by
  unfold foldable? at found
  split at found
  · cases found
  rename_i literal other isPair
  obtain ⟨coerced, converted, isFold⟩ := bind_eq_ok.1 found
  obtain ⟨_, isLiteral, ⟨⟩⟩ := map_eq_some_iff.1 (Except.ok.inj isFold)
  obtain ⟨isSide, isConstant, isBool⟩ := of_constantAndBool? isPair
  have number_literal {type : TypeSig} (typed : IsTyped type literal) (bindings : Bindings) :
      literal.number bindings = fold.toInt := by
    obtain ⟨header, value, rfl⟩ := exists_constant isConstant
    obtain ⟨isType, isOf⟩ := typed.constant_isOf
    have typedCoerced := ((coerce_coerces converted).scalar typed rfl trivial (by simp)).1
    rw [← number_of_boolLiteral? typedCoerced isLiteral]
    unfold coerce at converted
    split at converted
    · cases converted
      rfl
    · rw [(@coerceConstant_scalar _ _ (fun _ => True) _ _ _ isOf rfl trivial converted).2 rfl,
        number, isType, isOf.wrap_toInt]
  have bit_literal {type : TypeSig} (typed : IsTyped type literal) : literal.IsBit type := by
    refine ⟨fun _ => carries_of_spine ?_ type, fun bindings => ⟨fold, number_literal typed bindings⟩⟩
    obtain ⟨header, value, rfl⟩ := exists_constant isConstant
    rfl
  have isOther {type : TypeSig} (typed : IsTyped type other) : type = .bool := by
    rw [Expr.isBool, typed.type_eq] at isBool
    cases type <;> first | rfl | cases isBool
  have bits (typed : IsTyped .bool other) (bindings : Bindings) :
      (fold.toInt == other.number bindings) = (other.truth bindings == fold) := by
    rw [typed.number_eq]
    cases fold <;> cases other.truth bindings <;> rfl
  rcases isSide with ⟨rfl, rfl⟩ | ⟨rfl, rfl⟩
  · cases isOther typedRight
    refine ⟨typedRight, bit_literal typedLeft, typedRight.isBit, fun bindings => ?_⟩
    rw [number_literal typedLeft, bits typedRight]
  · cases isOther typedLeft
    refine ⟨typedLeft, typedLeft.isBit, bit_literal typedRight, fun bindings => ?_⟩
    rw [number_literal typedRight, BEq.comm, bits typedLeft]

/-- The outcome of a comparison for equality, with a literal folded away or in the common type. -/
theorem equal_eq_ok (typedLeft : IsTyped leftType left) (typedRight : IsTyped rightType right)
    (built : equal left right = .ok value) :
    (IsTyped .bool value ∧ left.IsBit leftType ∧ right.IsBit rightType ∧ ∀ bindings,
      value.truth bindings = (left.number bindings == right.number bindings)) ∨
    ∃ newLeft newRight, left.coerce (operandType left right) = .ok newLeft ∧
      right.coerce (operandType left right) = .ok newRight ∧
      value = mkBinary .equal newLeft newRight .bool := by
  obtain ⟨folded, found, built⟩ := bind_eq_ok.1 built
  rcases folded with _ | ⟨fold, other⟩
  · obtain ⟨newLeft, isLeft, built⟩ := bind_eq_ok.1 built
    obtain ⟨newRight, isRight, ⟨⟩⟩ := bind_eq_ok.1 built
    rw [comparisonType, typedLeft.isNull, typedRight.isNull] at isLeft isRight
    exact .inr ⟨newLeft, newRight, isLeft, isRight, rfl⟩
  · obtain ⟨typed, leftBit, rightBit, same⟩ := foldable?_eq_some typedLeft typedRight found
    obtain ⟨_, isNegated, means⟩ := typed.logicalNot
    refine .inl ?_
    cases fold with
    | false =>
      cases isNegated.symm.trans built
      refine ⟨means.typed, leftBit, rightBit, fun bindings => ?_⟩
      rw [same, means.truth, beq_false]
    | true =>
      cases built
      refine ⟨typed, leftBit, rightBit, fun bindings => ?_⟩
      rw [same, beq_true]

end Expr

namespace Comparison

open CilLift.Expr

variable {comparison : Comparison} {taken : Bool} {type target leftType rightType : TypeSig}
  {expr number result left right value : Expr} {bindings : Bindings}

def op : Comparison → BinaryOp
  | .equal => .equal
  | .less => .lessThan
  | .greater => .greaterThan

/-- Whether the comparison holds between two numbers. -/
def relates : Comparison → Int → Int → Bool
  | .equal, left, right => left == right
  | .less, left, right => left < right
  | .greater, left, right => right < left

def instruction : Comparison → Opcode
  | .equal => .ceq
  | .less => .clt
  | .greater => .cgt

/-- The jump that compares by itself, taken where the comparison holds or where it fails. -/
def jump : Comparison → Bool → Opcode
  | .equal, true => .beq
  | .equal, false => .bneUn
  | .less, true => .blt
  | .less, false => .bge
  | .greater, true => .bgt
  | .greater, false => .ble

/-- The jump on an outcome. -/
def jumpOn (taken : Bool) : Opcode := if taken then .brtrue else .brfalse

/-- The operator of the test of not jumping. -/
def opposed (comparison : Comparison) (taken : Bool) : BinaryOp :=
  if taken then comparison.op.complement?.getD comparison.op else comparison.op

def build : Comparison → Expr → Expr → Except Error Expr
  | .equal => Expr.equal
  | .less => numericComparison .lessThan
  | .greater => numericComparison .greaterThan

/-- The type that an operand is given before it meets the other one; an order needs numbers. -/
def formOf : Comparison → TypeSig → TypeSig
  | .equal, type => type
  | _, type => type.asNumber

/-- The type in which a jump compares by itself. -/
def jumpType : Comparison → Bool → TypeSig → TypeSig
  | .equal, false, leftType => leftType
  | _, _, leftType => leftType.asNumber

/-- The type in which the operands of a comparison meet. -/
def commonType : Comparison → Expr → Expr → TypeSig
  | .equal, left, right => operandType left right
  | _, left, right =>
    (left.type.asNumber.commonType right.type.asNumber).getD left.type.asNumber

theorem truth_opposed (comparison : Comparison) (taken : Bool) (left right : Expr) :
    (mkBinary (comparison.opposed taken) left right .bool).truth bindings =
      (comparison.relates (left.number bindings) (right.number bindings) != taken) := by
  refine truth_binary rfl ?_
  cases comparison <;> cases taken <;>
    simp [opposed, op, relates, BinaryOp.complement?, BinaryOp.outcome?, bne, ← decide_not]

theorem compared_eq (typed : IsTyped leftType left) :
    Machine.compared (comparison.opposed taken) left = left.coerce (comparison.jumpType taken leftType) := by
  cases comparison <;> cases taken <;>
    first | exact (coerce_of_type typed.type_eq).symm | exact typed.ensureNumeric_eq

theorem carries_jumpType (typed : IsTyped leftType left) :
    left.Carries bindings leftType (comparison.jumpType taken leftType) := by
  cases leftType <;> try trivial
  unfold jumpType
  split <;> exact .inl rfl

theorem isScalar_jumpType (isScalar : leftType.isScalar = true) :
    (comparison.jumpType taken leftType).isScalar = true := by
  unfold jumpType
  split
  · exact isScalar
  · exact isScalar_asNumber isScalar

theorem isScalar_commonType (typedLeft : IsTyped leftType left) (typedRight : IsTyped rightType right) :
    (comparison.commonType left right).isScalar = true := by
  have leftScalar : left.type.isScalar = true := typedLeft.type_eq ▸ typedLeft.isScalar
  have rightScalar : right.type.isScalar = true := typedRight.type_eq ▸ typedRight.isScalar
  unfold commonType operandType
  repeat' split
  all_goals first
    | assumption
    | exact isScalar_commonType leftScalar rightScalar ‹_›
    | skip
  cases isCommon : left.type.asNumber.commonType right.type.asNumber with
  | none => exact isScalar_asNumber leftScalar
  | some common =>
    exact TypeSig.isScalar_commonType (isScalar_asNumber leftScalar)
      (isScalar_asNumber rightScalar) isCommon

theorem number_brought (typed : IsTyped type expr)
    (isNumber : expr.coerce (comparison.formOf type) = .ok number) (isScalar : target.isScalar = true)
    (carries : expr.Carries bindings type target) (converted : number.coerce target = .ok result) :
    result.number bindings = target.wrap (expr.number bindings) := by
  unfold formOf at isNumber
  split at isNumber
  · cases (coerce_of_type typed.type_eq).symm.trans isNumber
    exact typed.number_coerce isScalar carries converted
  · exact typed.number_again isNumber isScalar carries converted

/-- The outcome of a comparison, with a literal folded away or in the common type. -/
theorem build_eq_ok (typedLeft : IsTyped leftType left) (typedRight : IsTyped rightType right)
    (built : comparison.build left right = .ok value) :
    (IsTyped .bool value ∧ left.IsBit leftType ∧ right.IsBit rightType ∧ ∀ bindings,
      value.truth bindings = comparison.relates (left.number bindings) (right.number bindings)) ∨
    ∃ first second newLeft newRight, left.coerce (comparison.formOf leftType) = .ok first ∧
      right.coerce (comparison.formOf rightType) = .ok second ∧
      first.coerce (comparison.commonType left right) = .ok newLeft ∧
      second.coerce (comparison.commonType left right) = .ok newRight ∧
      value = mkBinary comparison.op newLeft newRight .bool := by
  have order {op : BinaryOp} (built : numericComparison op left right = .ok value) :
      let common := (left.type.asNumber.commonType right.type.asNumber).getD left.type.asNumber
      ∃ first second newLeft newRight, left.coerce leftType.asNumber = .ok first ∧
        right.coerce rightType.asNumber = .ok second ∧ first.coerce common = .ok newLeft ∧
        second.coerce common = .ok newRight ∧ value = mkBinary op newLeft newRight .bool := by
    obtain ⟨first, isFirst, built⟩ := bind_eq_ok.1 built
    obtain ⟨second, isSecond, built⟩ := bind_eq_ok.1 built
    obtain ⟨newLeft, isLeft, built⟩ := bind_eq_ok.1 built
    obtain ⟨newRight, isRight, ⟨⟩⟩ := bind_eq_ok.1 built
    rw [typedLeft.ensureNumeric_eq] at isFirst
    rw [typedRight.ensureNumeric_eq] at isSecond
    refine ⟨first, second, newLeft, newRight, isFirst, isSecond, ?_⟩
    have meets : operandType first second =
        (leftType.asNumber.commonType rightType.asNumber).getD leftType.asNumber := by
      rw [operandType, type_coerce (isScalar_asNumber typedLeft.isScalar) isFirst,
        type_coerce (isScalar_asNumber typedRight.isScalar) isSecond]
      obtain ⟨firstInteger, isInteger⟩ := typedLeft.asNumber_integer
      obtain ⟨secondInteger, isSecondInteger⟩ := typedRight.asNumber_integer
      rw [isInteger, isSecondInteger]
      cases firstInteger <;> cases secondInteger <;> rfl
    rw [typedLeft.type_eq, typedRight.type_eq, ← meets]
    exact ⟨isLeft, isRight, rfl⟩
  cases comparison with
  | equal =>
    refine (equal_eq_ok typedLeft typedRight built).imp_right ?_
    rintro ⟨newLeft, newRight, isLeft, isRight, rfl⟩
    exact ⟨left, right, newLeft, newRight, coerce_of_type typedLeft.type_eq,
      coerce_of_type typedRight.type_eq, isLeft, isRight, rfl⟩
  | less => exact .inr (order built)
  | greater => exact .inr (order built)

end Comparison

namespace Machine

variable {machine next : Machine} {path : StackId} {label : Label} {test value left right : Expr}
  {below : List Expr} {bindings : Bindings} {comparison : Comparison} {taken : Bool} {task : Task}
  {leftType rightType : TypeSig}

/-- Whether a path goes on behind a jump: the test decides where the jump forks the path. -/
def passes (machine next : Machine) (bindings : Bindings) : Bool :=
  (next.workspace.forks.drop machine.workspace.forks.length).head?.elim next.current.isSome
    fun fork => fork.test.truth bindings

theorem passes_of_same (sameForks : next.workspace.forks = machine.workspace.forks) :
    machine.passes next bindings = next.current.isSome := by
  rw [passes, sameForks, drop_length]
  rfl

theorem passes_of_fork {fork : Fork}
    (isForked : next.workspace.forks = machine.workspace.forks ++ [fork]) :
    machine.passes next bindings = fork.test.truth bindings := by
  rw [passes, isForked, drop_left]
  rfl

theorem passes_forkAt (uniform : bindings.Uniform) {forking : Machine}
    (sameForks : forking.workspace.forks = machine.workspace.forks)
    (forks : forkAt label path test forking = .ok () next) :
    machine.passes next bindings = test.truth bindings := by
  cases forks
  exact (passes_of_fork (congrArg (· ++ [_]) sameForks)).trans (truth_place uniform _ test)

/-- A jump that compares by itself forks the path. -/
theorem passes_jump (uniform : bindings.Uniform) (isCurrent : machine.current = some path)
    (isItems : (machine.workspace.stack path).items = right :: left :: below)
    (typedLeft : IsTyped leftType left)
    (jumps : step task (.jump (comparison.jump taken) label) machine = .ok () next) :
    ∃ first second, left.coerce (comparison.jumpType taken leftType) = .ok first ∧
      right.coerce (comparison.jumpType taken leftType) = .ok second ∧ machine.passes next bindings =
        (comparison.relates (first.number bindings) (second.number bindings) != taken) := by
  have isJump : step task (.jump (comparison.jump taken) label) machine =
      jumpOnComparison label path (comparison.opposed taken) machine := by
    refine (onCurrent_eq _ isCurrent).trans ?_
    cases comparison <;> cases taken <;> rfl
  rw [isJump] at jumps
  have inside := inside_of_items isItems
  obtain ⟨_, _, popped, jumps⟩ := andThen_eq_ok.1 jumps
  obtain ⟨_, found, -, rfl⟩ := pop_eq_ok.1 popped
  cases isItems.symm.trans found
  obtain ⟨_, _, popped, jumps⟩ := andThen_eq_ok.1 jumps
  obtain ⟨_, ⟨⟩, -, rfl⟩ := pop_again inside popped
  obtain ⟨first, _, lifted, jumps⟩ := andThen_eq_ok.1 jumps
  obtain ⟨isFirst, rfl⟩ := liftM_eq_ok.1 lifted
  obtain ⟨second, _, lifted, forks⟩ := andThen_eq_ok.1 jumps
  obtain ⟨isSecond, rfl⟩ := liftM_eq_ok.1 lifted
  rw [Comparison.compared_eq typedLeft] at isFirst
  rw [type_coerce (Comparison.isScalar_jumpType typedLeft.isScalar) isFirst] at isSecond
  exact ⟨first, second, isFirst, isSecond, (passes_forkAt uniform rfl forks).trans
    (comparison.truth_opposed taken first second)⟩

/-- What a comparison leaves: a comparison, or a truth value. -/
def IsOutcome (value : Expr) : Prop :=
  (∃ header op complement left right, value = .binary header op left right ∧ header.type = .bool ∧
    op.complement? = some complement) ∨ Expr.IsTyped .bool value

namespace IsOutcome

theorem place (isOutcome : IsOutcome value) (identity : Nat) : IsOutcome (value.place identity).1 := by
  rcases isOutcome with ⟨header, op, complement, left, right, rfl, isType, isComplement⟩ | typed
  · unfold place
    split <;> exact .inl ⟨_, _, _, _, _, rfl, isType, isComplement⟩
  · exact .inr (typed.place identity)

theorem isBool (isOutcome : IsOutcome value) : value.isBool = true := by
  rcases isOutcome with ⟨_, _, _, _, _, rfl, isType, -⟩ | typed
  · exact isBool_of_type isType
  · exact isBool_of_type typed.type_eq

theorem isFalse (isOutcome : IsOutcome value) :
    ∃ negated, value.isFalse = .ok negated ∧ ∀ bindings, negated.truth bindings = !value.truth bindings := by
  have isBool := isOutcome.isBool
  unfold Expr.isFalse
  rw [if_pos isBool]
  rcases isOutcome with ⟨header, op, complement, left, right, rfl, isType, isComplement⟩ | typed
  · refine ⟨.mkBinary complement left right .bool, ?_, fun bindings => ?_⟩
    · unfold logicalNot
      rw [if_pos isBool]
      cases op <;> cases isComplement <;> rfl
    · obtain ⟨holds, isOutcome, isOpposed⟩ := outcome?_complement isComplement
        (left.number bindings) (right.number bindings)
      rw [truth_binary isType isOutcome]
      exact truth_binary rfl isOpposed
  · obtain ⟨negated, isNegated, means⟩ := typed.logicalNot
    exact ⟨negated, isNegated, means.truth⟩

theorem literal (isOutcome : IsOutcome value) {holds : Bool} (isLiteral : value.jumpLiteral? = some holds) :
    value.truth bindings = holds := by
  rcases isOutcome with ⟨_, _, _, _, _, rfl, -⟩ | typed
  · cases isLiteral
  · have isBool : value.boolLiteral? = some holds := by
      rw [boolLiteral?, typed.isNull]
      exact isLiteral
    rw [truth, number_of_boolLiteral? typed isBool, toInt_bne_zero]

/-- A jump looks at every outcome that runs no code. -/
theorem untested (isOutcome : IsOutcome value) (noCalls : value.hasCalls (fun _ => false) = false)
    (task : Task) : foldedReferenceTest? task value = none := by
  have isType : value.type = .bool := by
    rcases isOutcome with ⟨_, _, _, _, _, rfl, isType, -⟩ | typed
    · exact isType
    · exact typed.type_eq
  unfold foldedReferenceTest?
  rw [isType]
  cases value with
  | call => simp [hasCalls, Expr.any] at noCalls
  | _ => cases task.options.foldReferenceTests <;> rfl

end IsOutcome

/-- A jump on an outcome is decided by it. -/
theorem passes_jumpOn (uniform : bindings.Uniform) (isCurrent : machine.current = some path)
    (isOutcome : IsOutcome value) (isItems : (machine.workspace.stack path).items = value :: below)
    (untested : foldedReferenceTest? task value = none)
    (jumps : step task (.jump (Comparison.jumpOn taken) label) machine = .ok () next) :
    machine.passes next bindings = (value.truth bindings != taken) := by
  have jumps := (onCurrent_eq _ isCurrent).symm.trans jumps
  have sameForks : (machine.withItems path below).workspace.forks = machine.workspace.forks := rfl
  have goesOn (stays : (pure () : Run Unit) (machine.withItems path below) = .ok () next) :
      machine.passes next bindings = true := by
    cases stays
    exact (passes_of_same sameForks).trans (isSome_of_eq_some isCurrent)
  have leaves (jumps : jumpTo label path (machine.withItems path below) = .ok () next) :
      machine.passes next bindings = false := by
    cases jumps
    exact passes_of_same sameForks
  cases taken with
  | false =>
    obtain ⟨_, _, pops, jumps⟩ := andThen_eq_ok.1 jumps
    obtain ⟨_, found, -, rfl⟩ := pop_eq_ok.1 pops
    cases isItems.symm.trans found
    rw [Bool.bne_false]
    cases isLiteral : value.jumpLiteral? with
    | none =>
      rw [isLiteral] at jumps
      obtain ⟨test, _, lifted, forks⟩ := andThen_eq_ok.1 jumps
      obtain ⟨isTest, rfl⟩ := liftM_eq_ok.1 lifted
      rw [Expr.isTrue, if_pos isOutcome.isBool] at isTest
      cases isTest
      exact passes_forkAt uniform sameForks forks
    | some holds =>
      rw [isLiteral] at jumps
      rw [isOutcome.literal isLiteral]
      cases holds
      · exact leaves jumps
      · exact goesOn jumps
  | true =>
    obtain ⟨_, _, pops, jumps⟩ := andThen_eq_ok.1 jumps
    obtain ⟨_, found, -, rfl⟩ := pop_eq_ok.1 pops
    cases isItems.symm.trans found
    rw [Bool.bne_true]
    cases isLiteral : value.jumpLiteral? with
    | none =>
      rw [isLiteral, untested] at jumps
      obtain ⟨test, _, lifted, forks⟩ := andThen_eq_ok.1 jumps
      obtain ⟨isTest, rfl⟩ := liftM_eq_ok.1 lifted
      obtain ⟨_, isNegated, negates⟩ := isOutcome.isFalse
      cases isNegated.symm.trans isTest
      exact (passes_forkAt uniform sameForks forks).trans (negates bindings)
    | some holds =>
      rw [isLiteral] at jumps
      rw [isOutcome.literal isLiteral]
      cases holds
      · exact goesOn jumps
      · exact leaves jumps

theorem foldedReferenceTest?_place (task : Task) (identity : Nat) (value : Expr) :
    foldedReferenceTest? task (value.place identity).1 = foldedReferenceTest? task value := by
  unfold foldedReferenceTest?
  rw [type_place]
  cases value with
  | _ header => cases placed : header.id <;> simp [place, placed]

/-- A comparison and a jump on its outcome. -/
theorem passes_separate (uniform : bindings.Uniform) (isCurrent : machine.current = some path)
    (isItems : (machine.workspace.stack path).items = right :: left :: below)
    (typedLeft : IsTyped leftType left) (typedRight : IsTyped rightType right)
    (untested : ∀ value, comparison.build left right = .ok value → foldedReferenceTest? task value = none)
    (runs : [.plain comparison.instruction, .jump (Comparison.jumpOn taken) label].forM (step task)
      machine = .ok () next) :
    ∃ value, comparison.build left right = .ok value ∧
      machine.passes next bindings = (value.truth bindings != taken) := by
  obtain ⟨_, _, compares, runs⟩ := andThen_eq_ok.1 runs
  obtain ⟨_, _, jumps, ⟨⟩⟩ := andThen_eq_ok.1 runs
  obtain ⟨consumer, isComparison⟩ : ∃ consumer, step task (.plain comparison.instruction) machine =
      binary path consumer comparison.build machine := by
    cases comparison <;> exact ⟨_, (step_plain isCurrent (by rfl)).trans rfl⟩
  rw [isComparison] at compares
  obtain ⟨_, _, rest, value, found, -, -, built, rfl⟩ := binary_eq_ok.1 compares
  cases isItems.symm.trans found
  have isOutcome : IsOutcome value := by
    rcases Comparison.build_eq_ok typedLeft typedRight built with
      ⟨typed, -⟩ | ⟨_, _, newLeft, newRight, -, -, -, -, rfl⟩
    · exact .inr typed
    · cases comparison <;> exact .inl ⟨_, _, _, _, _, rfl, rfl, rfl⟩
  have inside := inside_of_items isItems
  have isHere : (machine.withTop path value below).current = some path := isCurrent
  have passes := passes_jumpOn uniform isHere
    (isOutcome.place machine.workspace.emission.nextNode) (items_withItems_self inside)
    ((foldedReferenceTest?_place ..).trans (untested value built)) jumps
  rw [truth_place uniform] at passes
  exact ⟨value, built, passes⟩

/-- What the two encodings of a jump on a comparison decide. A jump that compares by itself compares in
the type of its left operand, a comparison in the common type. Where both are one type the path goes on
alike, at all values of the leaves; elsewhere it goes on alike where the operands compare alike in both
types, as long as no conversion is pushed into arithmetic that it does not carry over. -/
theorem comparison_jumps_agree {fused separate : Machine} (uniform : bindings.Uniform)
    (isCurrent : machine.current = some path)
    (isItems : (machine.workspace.stack path).items = right :: left :: below)
    (typedLeft : IsTyped leftType left) (typedRight : IsTyped rightType right)
    (untested : ∀ value, comparison.build left right = .ok value → foldedReferenceTest? task value = none)
    (jumps : step task (.jump (comparison.jump taken) label) machine = .ok () fused)
    (compares : [.plain comparison.instruction, .jump (Comparison.jumpOn taken) label].forM (step task)
      machine = .ok () separate) :
    let jumpType := comparison.jumpType taken leftType
    let commonType := comparison.commonType left right
    (jumpType = commonType → machine.passes fused bindings = machine.passes separate bindings) ∧
    (right.Carries bindings rightType jumpType → left.Carries bindings leftType commonType →
      right.Carries bindings rightType commonType →
      machine.passes fused bindings = (comparison.relates (jumpType.wrap (left.number bindings))
        (jumpType.wrap (right.number bindings)) != taken) ∧
      machine.passes separate bindings = (comparison.relates (commonType.wrap (left.number bindings))
        (commonType.wrap (right.number bindings)) != taken)) := by
  intro jumpType commonType
  have commonScalar : commonType.isScalar = true := Comparison.isScalar_commonType typedLeft typedRight
  have jumpScalar : jumpType.isScalar = true := Comparison.isScalar_jumpType typedLeft.isScalar
  obtain ⟨first, second, isFirst, isSecond, fusedPasses⟩ :=
    passes_jump uniform isCurrent isItems typedLeft jumps
  obtain ⟨value, built, separatePasses⟩ :=
    passes_separate uniform isCurrent isItems typedLeft typedRight untested compares
  have leftCarries : left.Carries bindings leftType jumpType := Comparison.carries_jumpType typedLeft
  rw [typedLeft.number_coerce jumpScalar leftCarries isFirst] at fusedPasses
  have fusedCompares (carries : right.Carries bindings rightType jumpType) :
      machine.passes fused bindings = (comparison.relates (jumpType.wrap (left.number bindings))
        (jumpType.wrap (right.number bindings)) != taken) := by
    rw [fusedPasses, typedRight.number_coerce jumpScalar carries isSecond]
  rcases Comparison.build_eq_ok typedLeft typedRight built with
    ⟨-, leftBit, rightBit, isTruth⟩ | ⟨_, _, newLeft, newRight, isLeft, isRight, toLeft, toRight, rfl⟩
  · rw [isTruth] at separatePasses
    refine ⟨fun _ => ?_, fun carries _ _ => ⟨fusedCompares carries, ?_⟩⟩
    · rw [fusedCompares (rightBit.1 _ _), leftBit.wrap jumpScalar, rightBit.wrap jumpScalar, separatePasses]
    · rw [separatePasses, leftBit.wrap commonScalar, rightBit.wrap commonScalar]
  · have isTruth : (mkBinary comparison.op newLeft newRight .bool).truth bindings =
        comparison.relates (newLeft.number bindings) (newRight.number bindings) := by
      refine truth_binary rfl ?_
      cases comparison <;> rfl
    rw [isTruth] at separatePasses
    constructor
    · intro sameType
      -- the left operand is not converted in arithmetic, and the right one is converted alike
      have carries : left.Carries bindings leftType commonType := sameType ▸ leftCarries
      have sameRight : newRight.number bindings = second.number bindings := by
        rw [show comparison.jumpType taken leftType = commonType from sameType] at isSecond
        cases rightType with
        | integer source =>
          have isForm : comparison.formOf (.integer source) = .integer source := by
            cases comparison <;> rfl
          rw [isForm, coerce_of_type typedRight.type_eq] at isRight
          cases isRight
          cases isSecond.symm.trans toRight
          rfl
        | bool | char =>
          rw [Comparison.number_brought typedRight isRight commonScalar trivial toRight,
            typedRight.number_coerce commonScalar trivial isSecond]
        | _ => cases typedRight.isScalar
      rw [fusedPasses, separatePasses, sameRight, sameType,
        Comparison.number_brought typedLeft isLeft commonScalar carries toLeft]
    · intro carries leftCarries rightCarries
      refine ⟨fusedCompares carries, ?_⟩
      rw [separatePasses, Comparison.number_brought typedLeft isLeft commonScalar leftCarries toLeft,
        Comparison.number_brought typedRight isRight commonScalar rightCarries toRight]

/-- A method without arguments. -/
def bareTask : Task where
  resolver := ({} : MetadataTables).resolver
  options := {}
  method := { token := ⟨0x06000001⟩, name := "T", returnType := .void }
  returnType := .void
  parameters := []
  target := none
  arguments := []
  liftNested _ _ _ _ := .error .nestingLimit

/-- A byte and a 32-bit number on the stack. -/
def byteBelowNumber : Machine where
  workspace := { paths := [{ items := [.mkParameter 1 "right" .int32,
    .mkParameter 0 "left" (.integer .uint8)] }] }
  current := some 0

theorem typed_parameter {slot : Nat} {name : String} (integer : IntegerType) :
    IsTyped (.integer integer) (.mkParameter slot name (.integer integer)) :=
  @Typed.leaf _ (.mkParameter slot name (.integer integer)) trivial rfl rfl

theorem byteBelowNumber_items : (byteBelowNumber.workspace.stack 0).items =
    [.mkParameter 1 "right" .int32, .mkParameter 0 "left" (.integer .uint8)] := rfl

theorem byteBelowNumber_untested {value : Expr} (built : Comparison.build .less
    (.mkParameter 0 "left" (.integer .uint8)) (.mkParameter 1 "right" .int32) = .ok value) :
    foldedReferenceTest? bareTask value = none := by
  cases built
  exact IsOutcome.untested (.inl ⟨_, _, _, _, _, rfl, rfl, rfl⟩) rfl bareTask

theorem byteBelowNumber_runs :
    ∃ fused separate,
      step bareTask (.jump (Comparison.jump .less true) .finish) byteBelowNumber = .ok () fused ∧
      [.plain (Comparison.instruction .less), .jump (Comparison.jumpOn true) .finish].forM
        (step bareTask) byteBelowNumber = .ok () separate := by
  let outcome : Expr := .mkBinary .lessThan (.mkConvert (.mkParameter 0 "left" (.integer .uint8)) .int32)
    (.mkParameter 1 "right" .int32) .bool
  have compares : step bareTask (.plain .clt) byteBelowNumber =
      .ok () (byteBelowNumber.withTop 0 outcome []) := rfl
  obtain ⟨separate, jumps⟩ : ∃ separate, step bareTask (.jump .brtrue .finish)
      (byteBelowNumber.withTop 0 outcome []) = .ok () separate := ⟨_, rfl⟩
  exact ⟨_, separate, rfl, (andThen_of_ok compares).trans ((andThen_of_ok jumps).trans rfl)⟩

/-- Fifty is less than two hundred in both encodings. -/
theorem comparison_jumps_agree_at_200 :
    ∃ fused separate, step bareTask (.jump .blt .finish) byteBelowNumber = .ok () fused ∧
      [.plain .clt, .jump .brtrue .finish].forM (step bareTask) byteBelowNumber = .ok () separate ∧
      byteBelowNumber.passes fused (passing 50 200) = false ∧
      byteBelowNumber.passes separate (passing 50 200) = false := by
  obtain ⟨fused, separate, jumps, compares⟩ := byteBelowNumber_runs
  have uniform : (passing 50 200).Uniform := fun _ => rfl
  have agrees := comparison_jumps_agree uniform rfl byteBelowNumber_items (typed_parameter .uint8)
    (typed_parameter .int32) (fun _ => byteBelowNumber_untested) jumps compares
  exact ⟨fused, separate, jumps, compares, agrees.2 (.inr trivial) (.inr trivial) (.inl rfl)⟩

/-- Fifty is less than three hundred, but not in the type of a byte. -/
theorem comparison_jumps_differ_at_300 :
    ∃ fused separate, step bareTask (.jump .blt .finish) byteBelowNumber = .ok () fused ∧
      [.plain .clt, .jump .brtrue .finish].forM (step bareTask) byteBelowNumber = .ok () separate ∧
      byteBelowNumber.passes fused (passing 50 300) = true ∧
      byteBelowNumber.passes separate (passing 50 300) = false := by
  obtain ⟨fused, separate, jumps, compares⟩ := byteBelowNumber_runs
  have uniform : (passing 50 300).Uniform := fun _ => rfl
  obtain ⟨_, _, ⟨⟩, ⟨⟩, fusedPasses⟩ :=
    passes_jump uniform rfl byteBelowNumber_items (typed_parameter .uint8) jumps
  obtain ⟨_, ⟨⟩, separatePasses⟩ := passes_separate uniform rfl byteBelowNumber_items
    (typed_parameter .uint8) (typed_parameter .int32) (fun _ => byteBelowNumber_untested) compares
  exact ⟨fused, separate, jumps, compares, fusedPasses, separatePasses⟩

end Machine

end CilLift
