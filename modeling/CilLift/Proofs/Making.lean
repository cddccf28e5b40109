import CilLift.Proofs.Conversion
import Mathlib.Algebra.Order.BigOperators.Group.List
import Mathlib.Data.ENat.Basic

/-!
What the trees that the builders return are made of. Every operand is used at most once, and what
else stands in the result are new nodes, so a property or a count that new nodes do not disturb is
carried through everything that builds trees.
-/

namespace CilLift

open List

variable {target : TypeSig} {value : Except Error Expr}

/-- The error is an answer of the lifting, rather than the sign of a climb without end. -/
def Error.IsAnswer (error : Error) : Prop := error ≠ .cyclicForks

theorem Error.IsFault.isAnswer {error : Error} (isFault : error.IsFault) : error.IsAnswer := by
  rintro rfl
  exact isFault

namespace Expr

/-- The nodes that are built from operands alone. -/
def isPlain : Expr → Bool
  | .parameter .. | .var .. | .assign .. | .block .. | .lambda .. | .branch .. => false
  | _ => true

/-- The nodes built from operands that run no code of their own. -/
def isOperator : Expr → Bool
  | .call .. | .new .. | .invoke .. => false
  | expr => expr.isPlain

theorem isPlain_of_isOperator {expr : Expr} (isOperator : expr.isOperator = true) :
    expr.isPlain = true := by
  cases expr <;> first | rfl | cases isOperator

/-- A measure by which a new operator weighs no more than its operands, and they no more than the
operator. -/
structure Weighed (weight : Expr → ℕ∞) : Prop where
  build : ∀ expr : Expr, expr.id? = none → expr.isOperator = true →
    weight expr ≤ (expr.children.map weight).sum
  part : ∀ expr : Expr, expr.isOperator = true → (expr.children.map weight).sum ≤ weight expr

/-- The tree uses each of the given ones at most once and new operators besides. -/
def MadeOf (parts : List Expr) (expr : Expr) : Prop :=
  ∀ weight, Weighed weight → weight expr ≤ (parts.map weight).sum

namespace MadeOf

variable {parts : List Expr} {expr result : Expr}

theorem itself (expr : Expr) : MadeOf [expr] expr := by
  intro weight _
  simp

theorem node (isNew : expr.id? = none) (isOperator : expr.isOperator = true) :
    MadeOf expr.children expr :=
  fun _ weighed => weighed.build expr isNew isOperator

theorem openedAfter (front : List Expr) (isOperator : expr.isOperator = true)
    (made : MadeOf (front ++ expr.children) result) : MadeOf (front ++ [expr]) result := by
  intro weight weighed
  refine (made weight weighed).trans ?_
  simp only [map_append, sum_append, map_cons, map_nil, sum_singleton]
  exact add_le_add_right (weighed.part expr isOperator) _

theorem opened (isOperator : expr.isOperator = true) (made : MadeOf expr.children result) :
    MadeOf [expr] result :=
  made.openedAfter [] isOperator

theorem trans {sources : List (List Expr)} (made : MadeOf parts result)
    (each : Forall₂ MadeOf sources parts) : MadeOf sources.flatten result := by
  intro weight weighed
  refine (made weight weighed).trans ?_
  clear made
  induction each with
  | nil => exact le_rfl
  | cons madeHead _ ih =>
    simp only [flatten_cons, map_append, sum_append]
    exact add_le_add (madeHead weight weighed) ih

theorem ofOne {part : Expr} (made : MadeOf [part] result) (source : MadeOf parts part) :
    MadeOf parts result := by
  simpa using made.trans (.cons source .nil)

theorem ofTwo {left right left' right' : Expr} (made : MadeOf [left', right'] result)
    (madeLeft : MadeOf [left] left') (madeRight : MadeOf [right] right') :
    MadeOf [left, right] result :=
  made.trans (.cons madeLeft (.cons madeRight .nil))

theorem ofThree {first second third first' second' third' : Expr}
    (made : MadeOf [first', second', third'] result) (madeFirst : MadeOf [first] first')
    (madeSecond : MadeOf [second] second') (madeThird : MadeOf [third] third') :
    MadeOf [first, second, third] result :=
  made.trans (.cons madeFirst (.cons madeSecond (.cons madeThird .nil)))

theorem weaken {more : List Expr} (made : MadeOf parts result) (sublist : parts.Sublist more) :
    MadeOf more result :=
  fun weight weighed => (made weight weighed).trans ((sublist.map weight).sum_le_sum (by simp))

theorem perm {others : List Expr} (made : MadeOf parts result) (perm : parts.Perm others) :
    MadeOf others result :=
  fun weight weighed => (made weight weighed).trans_eq (perm.map weight).sum_eq

/-! New nodes. -/

theorem constant (value : Constant) (type : TypeSig) (parts : List Expr) :
    MadeOf parts (mkConstant value type) := by
  have made : MadeOf [] (mkConstant value type) := node rfl rfl
  exact made.weaken (nil_sublist parts)

theorem unary (op : UnaryOp) (operand : Expr) (type : TypeSig) :
    MadeOf [operand] (mkUnary op operand type) := node rfl rfl

theorem binary (op : BinaryOp) (left right : Expr) (type : TypeSig) :
    MadeOf [left, right] (mkBinary op left right type) := node rfl rfl

theorem conditional (test onTrue onFalse : Expr) :
    MadeOf [test, onTrue, onFalse] (mkConditional test onTrue onFalse) := node rfl rfl

theorem index (items position : Expr) : MadeOf [items, position] (mkIndex items position) :=
  node rfl rfl

theorem array (element : TypeSig) (elements : List Expr) :
    MadeOf elements (mkArray element elements) := node rfl rfl

theorem set (element : TypeSig) (header : Header) (elements : List Expr) (index : Nat)
    (value : Expr) : MadeOf [value, .array header elements]
      (mkArray element (elements.set index value)) := by
  refine openedAfter [value] rfl fun weight weighed => ?_
  refine (array element (elements.set index value) weight weighed).trans ?_
  change _ ≤ ((value :: elements).map weight).sum
  induction elements generalizing index with
  | nil => simp
  | cons head rest ih =>
    cases index with
    | zero =>
      exact add_le_add_right le_add_self _
    | succ index =>
      simp only [map_cons, sum_cons]
      rw [add_left_comm]
      exact add_le_add_right (ih index) _

theorem field (receiver : Option Expr) (mem : Field) :
    MadeOf receiver.toList (mkField receiver mem) := node rfl rfl

theorem typeIs (operand : Expr) (tested : TypeSig) : MadeOf [operand] (mkTypeIs operand tested) :=
  node rfl rfl

/-! Conversion. -/

theorem coerceConstant_ok {value : Constant} {source result : Expr}
    (converted : coerceConstant value source target = .ok result) : MadeOf [source] result := by
  have literal := coerceConstant_literal converted
  clear converted
  induction literal with
  | constant value target => exact constant value target _
  | wrapped target => exact unary .convert source target
  | lifted inner result _ ih =>
    exact (unary .convert result (.nullable inner)).ofOne ih

theorem oneOrZero_ok {expr result : Expr} (converted : expr.oneOrZero target = .ok result) :
    MadeOf [expr] result := by
  obtain ⟨one, oneConverted, converted⟩ := bind_eq_ok.1 converted
  obtain ⟨zero, zeroConverted, ⟨⟩⟩ := bind_eq_ok.1 converted
  have oneMade : MadeOf [] one := (coerceConstant_ok oneConverted).ofOne (constant _ _ [])
  have zeroMade : MadeOf [] zero := (coerceConstant_ok zeroConverted).ofOne (constant _ _ [])
  exact (conditional expr one zero).trans (.cons (itself expr) (.cons oneMade (.cons zeroMade .nil)))

theorem coerce_ok {expr result : Expr} (converted : expr.coerce target = .ok result) :
    MadeOf [expr] result := by
  have coerces := coerce_coerces converted
  clear converted
  induction coerces with
  | same expr => exact itself expr
  | literal _ _ _ _ converted => exact coerceConstant_ok converted
  | fromBool _ _ _ _ _ converted => exact oneOrZero_ok converted
  | toBool expr =>
    exact (binary .notEqual expr _ .bool).trans (.cons (itself expr) (.cons (constant _ _ []) .nil))
  | operands header op left right left' right' _ _ _ _ _ _ leftMade rightMade =>
    exact opened rfl ((binary op left' right' target).ofTwo leftMade rightMade)
  | shifted header op left amount left' _ _ _ _ leftMade =>
    exact opened rfl ((binary op left' amount target).ofTwo leftMade (itself amount))
  | sides header test onTrue onFalse onTrue' onFalse' _ _ _ trueMade falseMade =>
    exact opened rfl ((conditional test onTrue' onFalse').ofThree (itself test) trueMade falseMade)
  | wrapped expr => exact unary .convert expr target

end MadeOf

/-- The computation returns a tree made of the given ones, or fails for what stands in them. -/
def Forms (parts : List Expr) (value : Except Error Expr) : Prop :=
  Yields Error.IsFault value (MadeOf parts)

theorem coerce_forms (expr : Expr) (target : TypeSig) : Forms [expr] (expr.coerce target) :=
  (coerce_faults expr target).withOutcome.mono (fun _ ⟨converted, _⟩ => .coerce_ok converted) fun _ => id

variable (left right : Expr) (op : BinaryOp)

theorem coerceBoth_forms (type : TypeSig) {build : Expr → Expr → Expr}
    (built : ∀ left right, MadeOf [left, right] (build left right)) :
    Forms [left, right] (do
      let left ← left.coerce type
      let right ← right.coerce type
      return build left right) :=
  (coerce_forms left type).andThen fun left' leftMade =>
    (coerce_forms right type).andThen fun right' rightMade =>
      (built left' right').ofTwo leftMade rightMade

/-! Arithmetic. -/

theorem numeric_forms (left right : Expr) : Forms [left, right] (numeric op left right) :=
  coerceBoth_forms left right _ fun left right => .binary op left right _

variable (operand : Expr)

theorem ensureNumeric_forms : Forms [operand] operand.ensureNumeric := by
  unfold ensureNumeric
  split
  · exact coerce_forms operand _
  · exact coerce_forms operand _
  · exact coerce_forms operand _
  · exact .itself operand

theorem shift_forms (value amount : Expr) : Forms [value, amount] (shift op value amount) :=
  (ensureNumeric_forms value).andThen fun value' made =>
    (MadeOf.binary op value' amount _).ofTwo made (.itself amount)

theorem negate_forms : Forms [operand] operand.negate :=
  (ensureNumeric_forms operand).andThen fun operand' made =>
    (MadeOf.unary .negate operand' _).ofOne made

theorem convert_forms (type : TypeSig) : Forms [operand] (operand.convert type) := by
  unfold convert
  split
  · exact .itself operand
  · split
    · exact coerce_forms operand type
    · exact .unary .convert operand type

theorem numericComparison_forms (left right : Expr) :
    Forms [left, right] (numericComparison op left right) := by
  refine (ensureNumeric_forms left).andThen fun left' leftMade => ?_
  refine (ensureNumeric_forms right).andThen fun right' rightMade => ?_
  exact (coerceBoth_forms left' right' _ fun left right => .binary op left right .bool).mono
    (fun _ made => made.ofTwo leftMade rightMade) fun _ => id

/-! Conditions. -/

theorem foldable?_forms :
    Yields Error.IsFault (foldable? left right) fun folded =>
      ∀ value other, folded = some (value, other) → MadeOf [left, right] other := by
  unfold foldable?
  split
  · simp
  · rename_i literal other found
    have isOperand : MadeOf [left, right] other := by
      have isOne : other = left ∨ other = right := by
        unfold constantAndBool? at found
        split at found
        · split at found <;> simp_all
        · split at found
          · split at found <;> simp_all
          · cases found
      rcases isOne with rfl | rfl
      · exact (MadeOf.itself other).weaken (by simp)
      · exact (MadeOf.itself other).weaken (by simp)
    refine (coerce_forms literal .bool).andThen fun literal _ => ?_
    simp only [yields_pure, Option.map_eq_some_iff]
    rintro _ _ ⟨_, -, -, rfl⟩
    exact isOperand

theorem connective_forms (left right : Expr) : Forms [left, right] (connective op left right) :=
  coerceBoth_forms left right .bool fun left right => .binary op left right .bool

theorem logicalAnd_forms : Forms [left, right] (logicalAnd left right) := by
  refine (foldable?_forms left right).andThen fun folded made => ?_
  split
  · exact made _ _ rfl
  · exact .constant _ _ _
  · exact connective_forms .andAlso left right

theorem logicalOr_forms : Forms [left, right] (logicalOr left right) := by
  refine (foldable?_forms left right).andThen fun folded made => ?_
  split
  · exact .constant _ _ _
  · exact made _ _ rfl
  · exact connective_forms .orElse left right

theorem Forms.ofTwo {left right left' right' : Expr} (forms : Forms [left', right'] value)
    (leftMade : MadeOf [left] left') (rightMade : MadeOf [right] right') :
    Forms [left, right] value :=
  Yields.mono forms (fun _ made => made.ofTwo leftMade rightMade) fun _ => id

theorem Forms.weaken {parts more : List Expr} (forms : Forms parts value)
    (sublist : parts.Sublist more) : Forms more value :=
  Yields.mono forms (fun _ made => made.weaken sublist) fun _ => id

theorem Forms.perm {parts others : List Expr} (forms : Forms parts value)
    (perm : parts.Perm others) : Forms others value :=
  Yields.mono forms (fun _ made => made.perm perm) fun _ => id

theorem Forms.ofOne {part : Expr} {parts : List Expr} (forms : Forms [part] value)
    (made : MadeOf parts part) : Forms parts value :=
  Yields.mono forms (fun _ made' => made'.ofOne made) fun _ => id

theorem Forms.opened {expr : Expr} (isOperator : expr.isOperator = true)
    (forms : Forms expr.children value) : Forms [expr] value :=
  Yields.mono forms (fun _ made => .opened isOperator made) fun _ => id

/-- A negation is built of its operand. -/
theorem logicalNot_forms : Forms [operand] operand.logicalNot := by
  fun_induction logicalNot operand with
  | case1 _ test onTrue onFalse _ trueIh falseIh =>
    refine Forms.opened rfl (trueIh.andThen fun onTrue' trueMade => ?_)
    exact falseIh.andThen fun onFalse' falseMade =>
      (MadeOf.conditional test onTrue' onFalse').ofThree (.itself test) trueMade falseMade
  | case2 => exact .constant _ _ _
  | case3 _ inner => exact .opened rfl (.itself inner)
  | case4 _ left right _ leftIh rightIh =>
    refine Forms.opened rfl (leftIh.andThen fun left' leftMade => ?_)
    exact rightIh.andThen fun right' rightMade =>
      (logicalOr_forms left' right').ofTwo leftMade rightMade
  | case5 _ left right _ leftIh rightIh =>
    refine Forms.opened rfl (leftIh.andThen fun left' leftMade => ?_)
    exact rightIh.andThen fun right' rightMade =>
      (logicalAnd_forms left' right').ofTwo leftMade rightMade
  | case6 _ op left right complement complemented =>
    rw [complemented]
    exact MadeOf.opened rfl (.binary complement left right .bool)
  | case7 _ op left right uncomplemented =>
    rw [uncomplemented]
    exact MadeOf.unary .logicalNot _ .bool
  | case8 other => exact MadeOf.unary .logicalNot other .bool
  | case9 => trivial

theorem compareEqual_forms (left right : Expr) : Forms [left, right] (compareEqual op left right) :=
  coerceBoth_forms left right _ fun left right => .binary op left right .bool

theorem equal_forms : Forms [left, right] (equal left right) := by
  refine (foldable?_forms left right).andThen fun folded made => ?_
  split
  · exact made _ _ rfl
  · exact (logicalNot_forms _).ofOne (made _ _ rfl)
  · exact compareEqual_forms .equal left right

theorem notEqual_forms : Forms [left, right] (notEqual left right) := by
  refine (foldable?_forms left right).andThen fun folded made => ?_
  split
  · exact (logicalNot_forms _).ofOne (made _ _ rfl)
  · exact made _ _ rfl
  · exact compareEqual_forms .notEqual left right

theorem bitwise_forms (left right : Expr) : Forms [left, right] (bitwise op left right) := by
  unfold bitwise
  split
  · split
    · exact logicalAnd_forms left right
    · exact logicalOr_forms left right
    · exact .binary op left right .bool
  · exact numeric_forms op left right

theorem bitwiseNot_forms : Forms [operand] operand.bitwiseNot := by
  unfold bitwiseNot
  split
  · exact logicalNot_forms operand
  · exact .unary .not operand _

theorem falsehood_made : MadeOf [] operand.falsehood := by
  unfold falsehood
  split
  · exact .constant _ _ _
  · exact .constant _ _ _

theorem isTrue_forms : Forms [operand] operand.isTrue := by
  unfold isTrue
  split
  · exact .itself operand
  · exact Yields.mono (notEqual_forms operand operand.falsehood) (fun _ made =>
      made.trans (.cons (.itself operand) (.cons (falsehood_made operand) .nil))) fun _ => id

theorem isFalse_forms : Forms [operand] operand.isFalse := by
  unfold isFalse
  split
  · exact logicalNot_forms operand
  · exact Yields.mono (equal_forms operand operand.falsehood) (fun _ made =>
      made.trans (.cons (.itself operand) (.cons (falsehood_made operand) .nil))) fun _ => id

theorem chooseBetween_forms (test onTrue onFalse : Expr) :
    Forms [test, onTrue, onFalse] (chooseBetween test onTrue onFalse) := by
  unfold chooseBetween
  split
  · exact .conditional test onTrue onFalse
  · refine (coerce_forms onTrue _).andThen fun onTrue' trueMade => ?_
    exact (coerce_forms onFalse _).andThen fun onFalse' falseMade =>
      (MadeOf.conditional test onTrue' onFalse').ofThree (.itself test) trueMade falseMade

theorem condition_forms (test onTrue onFalse : Expr) :
    Forms [test, onTrue, onFalse] (condition test onTrue onFalse) := by
  have chosen := chooseBetween_forms test onTrue onFalse
  have negated := logicalNot_forms test
  unfold condition
  split
  · split
    · exact .constant _ _ _
    · exact (MadeOf.itself test).weaken (by simp)
    · exact negated.weaken (by simp)
    · exact .constant _ _ _
    · split
      · exact (logicalOr_forms test onFalse).weaken (by simp)
      · exact chosen
    · split
      · exact negated.andThen fun test' made =>
          ((logicalAnd_forms test' onFalse).ofTwo made (.itself onFalse)).weaken (by simp)
      · exact chosen
    · split
      · exact negated.andThen fun test' made =>
          ((logicalOr_forms test' onTrue).ofTwo made (.itself onTrue)).weaken (by simp)
      · exact chosen
    · split
      · exact (logicalAnd_forms test onTrue).weaken (by simp)
      · exact chosen
    · exact chosen
  · trivial

end Expr

end CilLift
