import CilLift.Proofs.Conversion
import CilLift.Proofs.Placement

/-!
What the evaluation of a tree performs: its calls, constructions, invocations, field reads and field
stores, in order. Which sides of a conditional are evaluated depends on its test; what is performed
whatever the tests yield is sure.
-/

namespace CilLift

open List

/-- The right operand of a logical operator is skipped where the left one decides. -/
def BinaryOp.skips : BinaryOp → Bool → Bool
  | .andAlso, left => !left
  | .orElse, left => left
  | _, _ => false

namespace Expr

/-- Nodes whose evaluation can be observed. The assignment of a variable cannot. -/
def isEffect : Expr → Bool
  | .call .. | .new .. | .invoke .. | .field .. => true
  | .assign _ (.field ..) _ => true
  | _ => false

mutual

/-- What evaluation performs where tests have the given truth, operands from left to right. The body
of a function is not evaluated with it. -/
def effects (truth : Expr → Bool) : Expr → List Expr
  | .constant .. | .parameter .. | .var .. | .branch .. | .lambda .. => []
  | .unary _ _ operand | .typeIs _ operand _ => operand.effects truth
  | .binary _ op left right =>
    left.effects truth ++ if op.skips (truth left) then [] else right.effects truth
  | .conditional _ test onTrue onFalse =>
    test.effects truth ++ if truth test then onTrue.effects truth else onFalse.effects truth
  | .call header receiver method arguments =>
    receiverEffects truth receiver ++ allEffects truth arguments ++
      [.call header receiver method arguments]
  | .new header constructor arguments =>
    allEffects truth arguments ++ [.new header constructor arguments]
  | .field header receiver mem =>
    receiverEffects truth receiver ++ [.field header receiver mem]
  | .index _ items position => items.effects truth ++ position.effects truth
  | .array _ elements => allEffects truth elements
  | .assign header target value =>
    targetEffects truth target ++ value.effects truth ++
      if (Expr.assign header target value).isEffect then [.assign header target value] else []
  | .block _ _ statements => allEffects truth statements
  | .invoke header target arguments =>
    target.effects truth ++ allEffects truth arguments ++ [.invoke header target arguments]

def receiverEffects (truth : Expr → Bool) : Option Expr → List Expr
  | none => []
  | some receiver => receiver.effects truth

/-- What is performed to find the place that a value is stored into. -/
def targetEffects (truth : Expr → Bool) : Expr → List Expr
  | .field _ receiver _ => receiverEffects truth receiver
  | _ => []

def allEffects (truth : Expr → Bool) : List Expr → List Expr
  | [] => []
  | expr :: rest => expr.effects truth ++ allEffects truth rest

end

/-- The receiver of the field that a value is stored into. -/
def storeReceiver : Expr → List Expr
  | .field _ receiver _ => receiver.toList
  | _ => []

/-- The operands that are evaluated with a node whatever its tests yield. -/
def certain : Expr → List Expr
  | .conditional _ test _ _ => [test]
  | .binary _ op left right => if op.isLogical then [left] else [left, right]
  | .assign _ target value => target.storeReceiver ++ [value]
  | .lambda .. => []
  | other => other.children

/-- Evaluation of the tree performs the effect whatever its tests yield. -/
inductive Sure (effect : Expr) : Expr → Prop where
  | root (isEffect : effect.isEffect = true) : Sure effect effect
  | within {expr operand : Expr} (isCertain : operand ∈ expr.certain) (sure : Sure effect operand) :
      Sure effect expr

variable {effect expr operand : Expr} (truth : Expr → Bool)

theorem allEffects_eq (exprs : List Expr) : allEffects truth exprs = exprs.flatMap (effects truth) := by
  induction exprs with
  | nil => rfl
  | cons expr rest ih => rw [allEffects, ih, flatMap_cons]

theorem receiverEffects_eq (receiver : Option Expr) :
    receiverEffects truth receiver = receiver.toList.flatMap (effects truth) := by
  cases receiver with
  | none => rfl
  | some receiver => simp [receiverEffects]

theorem targetEffects_eq (target : Expr) :
    targetEffects truth target = target.storeReceiver.flatMap (effects truth) := by
  cases target with
  | field header receiver mem => exact receiverEffects_eq truth receiver
  | _ => rfl

/-- What a certain operand performs is performed with the node. -/
theorem effects_of_certain (isCertain : operand ∈ expr.certain) (truth : Expr → Bool) :
    operand.effects truth ⊆ expr.effects truth := by
  have among : ∀ {operands : List Expr}, operand ∈ operands →
      operand.effects truth ⊆ operands.flatMap (effects truth) :=
    fun mem _ performed => mem_flatMap.2 ⟨operand, mem, performed⟩
  intro effect performed
  cases expr with
  | constant | parameter | var | branch | lambda => cases isCertain
  | unary | typeIs =>
    obtain rfl := mem_singleton.1 isCertain
    rwa [effects]
  | binary header op left right =>
    cases op with
    | andAlso | orElse =>
      obtain rfl := mem_singleton.1 isCertain
      exact mem_append_left _ performed
    | _ =>
      rcases mem_cons.1 isCertain with rfl | isRight
      · exact mem_append_left _ performed
      · obtain rfl := mem_singleton.1 isRight
        exact mem_append_right _ performed
  | conditional =>
    obtain rfl := mem_singleton.1 isCertain
    exact mem_append_left _ performed
  | call header receiver method arguments =>
    rw [effects, receiverEffects_eq, allEffects_eq, ← flatMap_append]
    exact mem_append_left _ (among isCertain performed)
  | new | invoke =>
    rw [effects, allEffects_eq]
    exact mem_append_left _ (among isCertain performed)
  | field =>
    rw [effects, receiverEffects_eq]
    exact mem_append_left _ (among isCertain performed)
  | index header items position =>
    rcases mem_cons.1 isCertain with rfl | isPosition
    · exact mem_append_left _ performed
    · obtain rfl := mem_singleton.1 isPosition
      exact mem_append_right _ performed
  | array | block =>
    rw [effects, allEffects_eq]
    exact among isCertain performed
  | assign header target value =>
    rw [effects, targetEffects_eq]
    rcases mem_append.1 isCertain with isReceiver | isValue
    · exact mem_append_left _ (mem_append_left _ (among isReceiver performed))
    · obtain rfl := mem_singleton.1 isValue
      exact mem_append_left _ (mem_append_right _ performed)

theorem mem_effects_self (isEffect : expr.isEffect = true) (truth : Expr → Bool) :
    expr ∈ expr.effects truth := by
  cases expr with
  | call | new | invoke | field => simp [effects]
  | assign => simp [effects, isEffect]
  | _ => cases isEffect

namespace Sure

theorem performed (sure : Sure effect expr) (truth : Expr → Bool) : effect ∈ expr.effects truth := by
  induction sure with
  | root isEffect => exact mem_effects_self isEffect truth
  | within isCertain _ ih => exact effects_of_certain isCertain truth ih

theorem exists_certain (sure : Sure effect expr) (isPlain : expr.isEffect = false) :
    ∃ operand ∈ expr.certain, Sure effect operand := by
  cases sure with
  | root isEffect => cases isPlain.symm.trans isEffect
  | within isCertain sure => exact ⟨_, isCertain, sure⟩

end Sure

theorem exists_placeAll {exprs : List Expr} (mem : operand ∈ exprs) (next : Nat) :
    ∃ start, (operand.place start).1 ∈ (placeAll next exprs).1 := by
  induction exprs generalizing next with
  | nil => cases mem
  | cons expr rest ih =>
    rcases mem_cons.1 mem with rfl | mem
    · exact ⟨next, mem_cons_self⟩
    · obtain ⟨start, isPlaced⟩ := ih mem (expr.place next).2
      exact ⟨start, mem_cons_of_mem _ isPlaced⟩

theorem storeReceiver_place (target : Expr) (next : Nat) (isReceiver : operand ∈ target.storeReceiver) :
    operand ∈ (target.place next).1.storeReceiver ∨
      ∃ start, (operand.place start).1 ∈ (target.place next).1.storeReceiver := by
  cases target with
  | field header receiver mem =>
    obtain ⟨type, _ | identity⟩ := header
    · have placed : (place next (.field ⟨type, none⟩ receiver mem)).1.storeReceiver =
          (placeAll next receiver.toList).1 := (placeReceiver_toList next receiver).1
      rw [placed]
      exact .inr (exists_placeAll isReceiver next)
    · exact .inl isReceiver
  | _ => cases isReceiver

/-- The certain operands of a node are placed with it, unless they are below a placed one. -/
theorem certain_place (unplaced : expr.id? = none) (next : Nat) (isCertain : operand ∈ expr.certain) :
    operand ∈ (expr.place next).1.certain ∨
      ∃ start, (operand.place start).1 ∈ (expr.place next).1.certain := by
  have among : ∀ part ∈ expr.parts, ∃ start, (part.place start).1 ∈ (expr.place next).1.parts := by
    rw [(place_parts unplaced next).1]
    exact fun part isPart => exists_placeAll isPart next
  cases expr with
  | assign header target value =>
    obtain ⟨type, _⟩ := header
    cases unplaced
    rcases mem_append.1 isCertain with isReceiver | isValue
    · refine (storeReceiver_place target next isReceiver).imp (mem_append_left _) ?_
      exact fun ⟨start, isPlaced⟩ => ⟨start, mem_append_left _ isPlaced⟩
    · obtain rfl := mem_singleton.1 isValue
      exact .inr ⟨(target.place next).2, mem_append_right _ mem_cons_self⟩
  | conditional header test onTrue onFalse =>
    obtain ⟨type, _⟩ := header
    cases unplaced
    obtain rfl := mem_singleton.1 isCertain
    exact .inr ⟨next, mem_cons_self⟩
  | binary header op left right =>
    obtain ⟨type, _⟩ := header
    cases unplaced
    cases op with
    | andAlso | orElse =>
      obtain rfl := mem_singleton.1 isCertain
      exact .inr ⟨next, mem_cons_self⟩
    | _ => exact .inr (exists_placeAll isCertain next)
  | block header declarations statements =>
    obtain ⟨type, _⟩ := header
    cases unplaced
    exact .inr (exists_placeAll isCertain (placeAll next declarations).2)
  | constant | parameter | var | branch | lambda => cases isCertain
  | unary header | typeIs header | call header | new header | field header | index header
  | array header | invoke header =>
    obtain ⟨type, _⟩ := header
    cases unplaced
    exact .inr (among operand isCertain)

theorem Sure.place (isPlaced : effect.id?.isSome = true) (sure : Sure effect expr) (next : Nat) :
    Sure effect (expr.place next).1 := by
  induction sure generalizing next with
  | root isEffect =>
    obtain ⟨identity, isPlaced⟩ := Option.isSome_iff_exists.1 isPlaced
    rw [place_of_id isPlaced]
    exact .root isEffect
  | @within expr operand isCertain sure ih =>
    cases placed : expr.id? with
    | some identity =>
      rw [place_of_id placed]
      exact .within isCertain sure
    | none =>
      rcases certain_place placed next isCertain with isCertain | ⟨start, isCertain⟩
      · exact .within isCertain sure
      · exact .within isCertain (ih start)

/-- What is sure stays sure in a converted tree. -/
theorem Sure.coerce {target : TypeSig} {result : Expr} (sure : Sure effect expr)
    (converted : expr.coerce target = .ok result) : Sure effect result := by
  have coerces := coerce_coerces converted
  clear converted
  induction coerces with
  | same => exact sure
  | literal => 
    obtain ⟨operand, isCertain, -⟩ := sure.exists_certain rfl
    cases isCertain
  | fromBool expr result _ _ _ converted =>
    obtain ⟨one, -, converted⟩ := bind_eq_ok.1 converted
    obtain ⟨zero, -, ⟨⟩⟩ := bind_eq_ok.1 converted
    exact .within mem_cons_self sure
  | toBool => exact .within mem_cons_self sure
  | operands header op left right left' right' _ isArithmetic _ _ _ _ leftIh rightIh =>
    obtain ⟨operand, isCertain, isSure⟩ := sure.exists_certain rfl
    have isStrict : op.isLogical = false := by
      cases op <;> first | rfl | cases isArithmetic
    rw [certain, isStrict] at isCertain
    rcases mem_cons.1 isCertain with rfl | isRight
    · refine .within ?_ (leftIh isSure)
      simp [mkBinary, certain, isStrict]
    · obtain rfl := mem_singleton.1 isRight
      refine .within ?_ (rightIh isSure)
      simp [mkBinary, certain, isStrict]
  | shifted header op left amount left' _ isShift _ _ leftIh =>
    obtain ⟨operand, isCertain, isSure⟩ := sure.exists_certain rfl
    have isStrict : op.isLogical = false := by
      cases op <;> first | rfl | cases isShift
    rw [certain, isStrict] at isCertain
    rcases mem_cons.1 isCertain with rfl | isRight
    · refine .within ?_ (leftIh isSure)
      simp [mkBinary, certain, isStrict]
    · obtain rfl := mem_singleton.1 isRight
      refine .within ?_ isSure
      simp [mkBinary, certain, isStrict]
  | sides header test onTrue onFalse =>
    obtain ⟨operand, isCertain, sure⟩ := sure.exists_certain rfl
    exact .within isCertain sure
  | wrapped => exact .within mem_cons_self sure

end Expr

end CilLift
