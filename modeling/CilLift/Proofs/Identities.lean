import CilLift.Paths
import CilLift.Proofs.Finishing
import CilLift.Proofs.Placement

/-!
What is emitted is only added to: identities are handed out in one direction, and statements stay.
-/

namespace CilLift

open List Nat

namespace Emission

/-- More has been emitted. -/
structure Grows (before after : Emission) : Prop where
  nextNode : before.nextNode ≤ after.nextNode
  statements : before.statements <+: after.statements

theorem Grows.refl (emission : Emission) : emission.Grows emission :=
  ⟨le_refl _, prefix_refl _⟩

theorem Grows.trans {first second third : Emission} (before : first.Grows second)
    (after : second.Grows third) : first.Grows third :=
  ⟨le_trans before.nextNode after.nextNode, before.statements.trans after.statements⟩

variable (emission : Emission) (expr : Expr) (name : String)

theorem nextNode_place : emission.nextNode ≤ (emission.place expr).2.nextNode :=
  expr.place_le emission.nextNode

theorem newVariable_eq (type : TypeSig) :
    ∃ given names nextTemporary, emission.newVariable name type =
      (.var { type, id := some emission.nextNode } emission.nextVariable given, { emission with
          names
          nextTemporary
          nextVariable := emission.nextVariable + 1
          nextNode := emission.nextNode + 1 }) := by
  unfold newVariable
  split
  rename_i given next chosen
  split at chosen
  · cases chosen
    exact ⟨_, _, _, rfl⟩
  · cases chosen
    exact ⟨_, _, _, rfl⟩

theorem nextNode_newVariable (type : TypeSig) :
    (emission.newVariable name type).2.nextNode = emission.nextNode + 1 := by
  obtain ⟨_, _, _, isNew⟩ := emission.newVariable_eq name type
  rw [isNew]

theorem place_mkAssign {target value : Expr} (targetPlaced : target.id?.isSome = true)
    (valuePlaced : value.id?.isSome = true) :
    emission.place (.mkAssign target value) =
      (.assign { type := target.type, id := some emission.nextNode } target value,
        { emission with nextNode := emission.nextNode + 1 }) := by
  obtain ⟨_, targetPlaced⟩ := Option.isSome_iff_exists.1 targetPlaced
  obtain ⟨_, valuePlaced⟩ := Option.isSome_iff_exists.1 valuePlaced
  simp [place, Expr.mkAssign, Expr.place, Expr.place_of_id targetPlaced, Expr.place_of_id valuePlaced]

theorem trackAfter_eq {expr after : Expr} {identity index : Nat}
    (isPlaced : expr.id? = some identity) (recorded : emission.lastIndexOf? after = some index) :
    emission.trackAfter expr after = { emission with
      ledger := emission.ledger.take (index + 1) ++
        identity :: emission.ledger.drop (index + 1) } := by
  simp [trackAfter, recorded, isPlaced]

/-- A value becomes the assignment of a new variable, recorded right after the value. -/
theorem materialize_eq {expr : Expr} {index : Nat} (isPlaced : expr.id?.isSome = true)
    (recorded : emission.lastIndexOf? expr = some index) (name : String) :
    ∃ (given : String) (node assignment : Expr) (bound : Emission),
      node = .var { type := expr.type, id := some emission.nextNode } emission.nextVariable given ∧
      assignment = .assign { type := expr.type, id := some (emission.nextNode + 1) } node expr ∧
      bound.ledger = emission.ledger.take (index + 1) ++
        (emission.nextNode + 1) :: emission.ledger.drop (index + 1) ∧
      bound.statements = emission.statements ++ [assignment] ∧
      bound.declarations = emission.declarations ++ [node] ∧
      bound.nextVariable = emission.nextVariable + 1 ∧
      bound.nextNode = emission.nextNode + 2 ∧
      emission.materialize expr name = (node, bound.track node) := by
  obtain ⟨given, names, nextTemporary, isNew⟩ := emission.newVariable_eq name expr.type
  unfold materialize
  rw [isNew]
  dsimp only
  rw [place_mkAssign _ rfl isPlaced]
  refine ⟨given, _, _, _, rfl, rfl, ?_, ?_, ?_, ?_, ?_, rfl⟩
  · rw [trackAfter_eq _ rfl]
    · rfl
    · exact recorded
  all_goals rfl

theorem materialize_isVar : (emission.materialize expr name).1.isVar = true := by
  rfl

theorem grows_place : emission.Grows (emission.place expr).2 :=
  ⟨emission.nextNode_place expr, prefix_refl _⟩

theorem grows_freshName : emission.Grows emission.freshName.2 :=
  ⟨le_refl _, prefix_refl _⟩

theorem grows_addStatement (statement : Expr) : emission.Grows (emission.addStatement statement) :=
  ⟨le_refl _, prefix_append ..⟩

theorem grows_newVariable (type : TypeSig) : emission.Grows (emission.newVariable name type).2 := by
  obtain ⟨_, _, _, isNew⟩ := emission.newVariable_eq name type
  rw [isNew]
  exact ⟨le_succ _, prefix_refl _⟩

theorem grows_declare (variableNode assignment : Expr) :
    emission.Grows (emission.declare variableNode assignment) := by
  unfold declare
  split
  · exact .refl emission
  · exact ⟨le_refl _, prefix_append ..⟩

theorem grows_materialize : emission.Grows (emission.materialize expr name).2 := by
  have created := emission.grows_newVariable name expr.type
  have placed := grows_place (emission.newVariable name expr.type).2
    (.mkAssign (emission.newVariable name expr.type).1 expr)
  exact created.trans (placed.trans ⟨le_refl _, prefix_append ..⟩)

theorem nextNode_replaceWithVariable (statement value : Expr) :
    emission.nextNode ≤ (emission.replaceWithVariable statement value).nextNode := by
  have created := nextNode_newVariable emission.freshName.2 emission.freshName.1 value.type
  have placed := ((emission.freshName.2.newVariable emission.freshName.1 value.type).2.addVariable
    (emission.freshName.2.newVariable emission.freshName.1 value.type).1).nextNode_place
    (.mkAssign (emission.freshName.2.newVariable emission.freshName.1 value.type).1 value)
  have same : emission.freshName.2.nextNode = emission.nextNode := rfl
  simp only [replaceWithVariable, addVariable] at *
  omega

theorem nextNode_restoreOrder (last : Expr) :
    emission.nextNode ≤ (emission.restoreOrder last).2.nextNode :=
  @restoreOrder_keeps emission (fun next => emission.nextNode ≤ next.nextNode) last (le_refl _)
    (fun _ => le_refl _) fun _ => nextNode_replaceWithVariable emission.sortStatements last last

/-- The statements can be completed, or it is said what stands in the way. -/
theorem complete_faults (remaining : List Expr) (returnType : TypeSig) (inlinesTrailing : Bool) :
    Yields Error.IsFault (emission.complete remaining returnType inlinesTrailing) fun next =>
      emission.nextNode ≤ next.nextNode := by
  refine complete_yields (fun _ => id) (fun _ _ => le_refl _) ?_ fun _ whole grown => ?_
  · rintro last - restored rfl
    have ordered := nextNode_restoreOrder
      { emission with statements := emission.statements ++ remaining } last
    refine ⟨fun _ => ordered, returnValue_yields _ _ (fun _ => id) ?_⟩
    intro index value coerced _ _ _
    have placed := le_trans ordered (nextNode_place _ coerced)
    exact ⟨le_trans placed (nextNode_replaceWithVariable _ _ _), fun _ => placed⟩
  · rcases whole.inlineTrailing_cases with same | ⟨_, _, _, _, _, _, _, _, _, _, same⟩ <;> rwa [same]

end Emission

theorem LocalSlot.grows_store (slot : LocalSlot) (value : Expr) (emission : Emission) :
    emission.Grows (slot.store value emission).2 := by
  unfold store
  dsimp only
  have placed := emission.grows_place value
  split
  · exact placed
  · have created := (emission.place value).2.grows_newVariable slot.name slot.type
    have assigned := ((emission.place value).2.newVariable slot.name slot.type).2.grows_place
      (.mkAssign ((emission.place value).2.newVariable slot.name slot.type).1 (emission.place value).1)
    exact placed.trans (created.trans (assigned.trans ⟨le_refl _, prefix_refl _⟩))

theorem LocalSlot.grows_read (slot : LocalSlot) (emission : Emission) :
    emission.Grows (slot.read emission).2 := by
  unfold read
  split
  · exact .refl emission
  · exact .refl emission
  · exact emission.grows_declare _ _

end CilLift
