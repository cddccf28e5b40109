import CilLift.Proofs.Conversion
import CilLift.Proofs.Nodes

/-!
The contract of conversion. What fits stays the same node, everything else gets the target type, and
the nested calls that a conversion makes, also those for the tree itself, end.
-/

namespace CilLift.Expr

open List Nat

variable {convert : Converter}

/-- The node has the type that its constructor gives it. -/
def HasMadeType : Expr → Prop
  | .conditional header _ onTrue _ => header.type = onTrue.type
  | .call header _ method _ => header.type = method.returnType
  | .new header constructor _ => header.type = constructor.declaringType
  | .field header _ mem => header.type = mem.type
  | .index header items _ => header.type = items.type.elementOrObject
  | .array header _ => ∃ element, header.type = .array element
  | .assign header target _ => header.type = target.type
  | .typeIs header _ _ => header.type = .bool
  | .branch header _ => header.type = .void
  | _ => True

/-- The tree is made by the constructors that choose the type of a node. -/
def IsMade (expr : Expr) : Prop := ∀ node ∈ expr.nodes, node.HasMadeType

variable {expr result : Expr} {target : TypeSig}

theorem isMade_iff : expr.IsMade ↔ expr.HasMadeType ∧ ∀ part ∈ expr.parts, part.IsMade := by
  unfold IsMade
  rw [nodes_eq]
  simp only [forall_mem_cons, mem_flatMap]
  exact and_congr_right fun _ =>
    ⟨fun made part isPart node mem => made node ⟨part, isPart, mem⟩,
      fun made node ⟨part, isPart, mem⟩ => made part isPart node mem⟩

theorem isMade_mkConstant (value : Constant) (type : TypeSig) : (mkConstant value type).IsMade :=
  isMade_iff.2 ⟨trivial, nofun⟩

theorem isMade_mkConvert (made : expr.IsMade) (type : TypeSig) : (mkConvert expr type).IsMade := by
  refine isMade_iff.2 ⟨trivial, fun part isPart => ?_⟩
  cases mem_singleton.1 isPart
  exact made

theorem isMade_mkBinary {left right : Expr} (op : BinaryOp) (madeLeft : left.IsMade)
    (madeRight : right.IsMade) (type : TypeSig) : (mkBinary op left right type).IsMade := by
  refine isMade_iff.2 ⟨trivial, ?_⟩
  simp only [parts, children, mkBinary, forall_mem_cons]
  exact ⟨madeLeft, madeRight, forall_mem_nil _⟩

theorem isMade_mkConditional {test onTrue onFalse : Expr} (madeTest : test.IsMade)
    (madeTrue : onTrue.IsMade) (madeFalse : onFalse.IsMade) :
    (mkConditional test onTrue onFalse).IsMade := by
  refine isMade_iff.2 ⟨rfl, ?_⟩
  simp only [parts, children, mkConditional, forall_mem_cons]
  exact ⟨madeTest, madeTrue, madeFalse, forall_mem_nil _⟩

theorem Literal.isMade {source : Expr} (literal : Literal source target result)
    (made : source.IsMade) : result.IsMade := by
  induction literal with
  | constant => exact isMade_mkConstant _ _
  | wrapped => exact isMade_mkConvert made _
  | lifted _ _ _ ih => exact isMade_mkConvert ih _

/-- What does not fit gets the target type; a conditional gets it from its true side. -/
theorem Coerces.type_eq (coerces : Coerces target expr result) (made : expr.IsMade)
    (misfit : ¬Fits target expr) : result.type = target := by
  induction coerces with
  | same expr fits => exact absurd fits misfit
  | literal _ _ _ _ converted => exact (coerceConstant_literal converted).type_eq
  | fromBool _ _ _ _ _ converted =>
    obtain ⟨one, zero, isOne, -, rfl⟩ := oneOrZero_eq_ok converted
    exact isOne.type_eq
  | toBool expr _ isBool =>
    cases target <;> first | rfl | cases isBool
  | operands | shifted | wrapped => rfl
  | sides header test onTrue onFalse _ _ _ _ _ trueIh _ =>
    obtain ⟨isType, madeParts⟩ := isMade_iff.1 made
    refine trueIh (madeParts onTrue (by simp [parts, children])) fun fits => misfit ?_
    rw [Fits] at fits ⊢
    rwa [type, Expr.header, show header.type = onTrue.type from isType]

/-- The result of a conversion is made by the same constructors. -/
theorem Coerces.isMade (coerces : Coerces target expr result) (made : expr.IsMade) : result.IsMade := by
  induction coerces with
  | same => exact made
  | literal _ _ _ _ converted => exact (coerceConstant_literal converted).isMade made
  | fromBool _ _ _ _ _ converted =>
    obtain ⟨one, zero, isOne, isZero, rfl⟩ := oneOrZero_eq_ok converted
    exact isMade_mkConditional made (isOne.isMade (isMade_mkConstant _ _))
      (isZero.isMade (isMade_mkConstant _ _))
  | toBool => exact isMade_mkBinary _ made (isMade_mkConstant _ _) _
  | operands _ op left right _ _ _ _ _ _ _ _ leftIh rightIh =>
    have madeParts := (isMade_iff.1 made).2
    exact isMade_mkBinary op (leftIh (madeParts left (by simp [parts, children])))
      (rightIh (madeParts right (by simp [parts, children]))) _
  | shifted _ op left amount _ _ _ _ _ leftIh =>
    have madeParts := (isMade_iff.1 made).2
    exact isMade_mkBinary op (leftIh (madeParts left (by simp [parts, children])))
      (madeParts amount (by simp [parts, children])) _
  | sides _ test onTrue onFalse _ _ _ _ _ trueIh falseIh =>
    have madeParts := (isMade_iff.1 made).2
    exact isMade_mkConditional (madeParts test (by simp [parts, children]))
      (trueIh (madeParts onTrue (by simp [parts, children])))
      (falseIh (madeParts onFalse (by simp [parts, children])))
  | wrapped => exact isMade_mkConvert made _

/-! Nested calls. -/

/-- A way to convert trees. -/
abbrev Converter := Expr → TypeSig → Except Error Expr

/-- A value that is no condition compared with its zero or with `null`, both brought to the type of
the comparison by the given converter. -/
def testBy (convert : Converter) (expr : Expr) : Except Error Expr := do
  let type := comparisonType expr expr.falsehood
  let operand ← convert expr type
  let zero ← convert expr.falsehood type
  return mkBinary .notEqual operand zero .bool

/-- Conversion with the given converter for all that has to be converted on the way: the operands, the
sides, and for a number as a condition the whole tree once more. -/
def convertOnce (convert : Converter) (expr : Expr) (target : TypeSig) : Except Error Expr :=
  if target.isVoid || target.accepts expr.type then .ok expr
  else
    match expr.conversion target, expr with
    | .branch, _ => .error (.shape (.branchAsValue target))
    | .literal value, expr => coerceConstant value expr target
    | .fromBool, expr => oneOrZero expr target
    | .toBool, expr => testBy convert expr
    | .operands, .binary _ op left right => do
      let left ← convert left target
      let right ← if op.isShift then .ok right else convert right target
      return mkBinary op left right target
    | .sides, .conditional _ test onTrue onFalse => do
      let onTrue ← convert onTrue target
      let onFalse ← convert onFalse target
      return mkConditional test onTrue onFalse
    | _, expr => .ok (mkConvert expr target)

/-- Conversion by calls that are nested up to the given depth, with another converter below it. -/
def convertNested (below : Converter) : Nat → Converter
  | 0 => below
  | depth + 1 => convertOnce (convertNested below depth)

theorem type_falsehood (expr : Expr) : expr.falsehood.type = expr.type := by
  unfold falsehood
  split <;> rfl

theorem isTrue_eq_testBy (notBool : expr.isBool = false) : expr.isTrue = testBy coerce expr := by
  have isNone : constantAndBool? expr expr.falsehood = none := by
    have falseNotBool : expr.falsehood.isBool = false := by
      rwa [isBool, type_falsehood]
    simp [constantAndBool?, notBool, falseNotBool]
  rw [isTrue, if_neg (by simp [notBool]), notEqual, foldable?, isNone]
  rfl

theorem comparisonType_falsehood (expr : Expr) : comparisonType expr expr.falsehood = expr.type := by
  unfold comparisonType operandType
  rw [type_falsehood, if_pos rfl]
  split_ifs <;> rfl

theorem testBy_number (isInteger : expr.type.underlying.isInteger = true)
    (keeps : ∀ other : Expr, convert other other.type = .ok other) :
    testBy convert expr = .ok expr.nonZero := by
  have isNumber : isNumberTarget expr.type = true := by
    cases isType : expr.type <;> rw [isType] at isInteger <;> first | rfl | cases isInteger
  have isZero : expr.falsehood = zeroOf expr.type := if_pos isNumber
  have keepsZero := keeps expr.falsehood
  rw [type_falsehood] at keepsZero
  unfold testBy
  dsimp only
  rw [comparisonType_falsehood, keeps expr, keepsZero, isZero]
  rfl

theorem convertOnce_of_fits (fits : Fits target expr) : convertOnce convert expr target = .ok expr := by
  exact if_pos fits

/-- A converter that converts the parts of a tree and keeps what has its type is good enough. -/
theorem convertOnce_eq (ofPart : ∀ part ∈ expr.parts, convert part target = part.coerce target)
    (keeps : ∀ other : Expr, convert other other.type = .ok other) :
    convertOnce convert expr target = expr.coerce target := by
  by_cases fits : Fits target expr
  · exact (convertOnce_of_fits fits).trans fits.coerce.symm
  have misfit : ¬(target.isVoid || target.accepts expr.type) = true := fits
  have applies := conversion_applies expr target
  unfold convertOnce
  rw [coerce.eq_def, if_neg misfit, if_neg misfit]
  cases rule : expr.conversion target with
  | branch | literal | fromBool | wrapped => rfl
  | toBool =>
    rw [rule] at applies
    exact testBy_number applies.2 keeps
  | operands =>
    rw [rule] at applies
    obtain ⟨header, op, left, right, rfl, -⟩ := applies
    dsimp only
    rw [ofPart left (by simp [parts, children]), ofPart right (by simp [parts, children])]
  | sides =>
    rw [rule] at applies
    obtain ⟨header, test, onTrue, onFalse, rfl⟩ := applies
    dsimp only
    rw [ofPart onTrue (by simp [parts, children]), ofPart onFalse (by simp [parts, children])]

theorem length_nodes_lt {part : Expr} (isPart : part ∈ expr.parts) :
    part.nodes.length < expr.nodes.length := by
  rw [nodes_eq expr, length_cons, Nat.lt_succ_iff]
  exact (sublist_flatten_of_mem (mem_map_of_mem isPart)).length_le

theorem convertNested_eq (below : Converter) {depth : Nat} (deep : expr.nodes.length < depth) :
    convertNested below depth expr target = expr.coerce target := by
  induction depth generalizing expr target with
  | zero => cases deep
  | succ depth ih =>
    have within : expr.nodes.length ≤ depth := Nat.lt_succ_iff.1 deep
    refine convertOnce_eq (fun part isPart => ?_) fun other => ?_
    · exact ih (lt_of_lt_of_le (length_nodes_lt isPart) within)
    · -- there is room for one more call, because the tree itself is a node
      rw [nodes_eq, length_cons] at within
      obtain ⟨depth, rfl⟩ := Nat.exists_eq_add_of_le within
      rw [Nat.add_right_comm]
      exact convertOnce_of_fits (fits_iff.2 (.inr (.inl rfl)))

/-- Conversion of a tree that is made by the constructors that choose the types. The nested calls end,
also those of the test for truth, which compares the tree itself. What fits the target stays the same
node, and all else that can be converted gets the target type. The result is made by the same
constructors and stays the same node if it is converted again. -/
theorem coerce_meets_contract (made : expr.IsMade) (target : TypeSig) :
    (∀ below depth, expr.nodes.length < depth →
      convertNested below depth expr target = expr.coerce target) ∧
    (expr.isBool = false → expr.isTrue = testBy coerce expr) ∧
    (target = .void ∨ target = expr.type ∨ target = .object ∧ expr.type ≠ .void →
      expr.coerce target = .ok expr) ∧
    ∀ result, expr.coerce target = .ok result →
      (¬(target = .void ∨ target = expr.type ∨ target = .object ∧ expr.type ≠ .void) →
        result.type = target) ∧
      result.IsMade ∧ result.coerce target = .ok result := by
  refine ⟨fun below _ deep => convertNested_eq below deep, isTrue_eq_testBy,
    fun fits => (fits_iff.2 fits).coerce, fun result converted => ?_⟩
  have coerces := coerce_coerces converted
  exact ⟨fun misfit => coerces.type_eq made (mt fits_iff.1 misfit), coerces.isMade made,
    coerces.fits.coerce⟩

/-- A choice between a count and a condition. -/
def mixedChoice : Expr :=
  mkConditional (mkParameter 0 "test" .bool) (mkParameter 1 "count" .int32) (mkParameter 2 "flag" .bool)

theorem isMade_mixedChoice : mixedChoice.IsMade := by
  have parameter : ∀ slot name type, (mkParameter slot name type).IsMade := fun _ _ _ =>
    isMade_iff.2 ⟨trivial, nofun⟩
  exact isMade_mkConditional (parameter _ _ _) (parameter _ _ _) (parameter _ _ _)

theorem mixedChoice_meets_contract :
    (∀ below, convertNested below 5 mixedChoice .bool = mixedChoice.coerce .bool) ∧
    ∃ result, mixedChoice.coerce (.integer .int64) = .ok result ∧ result.type = .integer .int64 ∧
      result.coerce (.integer .int64) = .ok result := by
  have ⟨nested, _⟩ := coerce_meets_contract isMade_mixedChoice .bool
  have ⟨_, _, _, converted⟩ := coerce_meets_contract isMade_mixedChoice (.integer .int64)
  obtain ⟨isType, -, again⟩ := converted _ rfl
  exact ⟨fun below => nested below 5 (by decide), _, rfl, isType (by decide), again⟩

end CilLift.Expr
