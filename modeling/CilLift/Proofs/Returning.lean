import CilLift.Proofs.Execution
import CilLift.Proofs.Steps

/-!
Static methods that return the only value they have produced: what they are lifted with, and that the
tree is that value, converted to the return type.
-/

namespace CilLift

open List

/-- A static method is lifted on its placed parameters. -/
theorem Lifter.rootTask_static {lifter : Lifter} {method : Method} {task : Task} {nextNode : Nat}
    (prepared : lifter.rootTask method = .ok (task, nextNode)) (isStatic : method.isStatic = true) :
    task.target = none ∧ task.arguments = [] ∧
      task.returnType = method.returnType.instantiate lifter.context ∧
      ∀ index, ∃ start, task.parameters[index]? = method.parameters[index]?.map fun parameter =>
        ((lifter.parameterNode 0 index parameter).place start).1 := by
  obtain ⟨nodes, areNodes, prepared⟩ := bind_eq_ok.1 prepared
  simp only [parameterNodes, isStatic, if_true] at areNodes
  simp only [receiverNode, isStatic] at prepared
  split at areNodes
  · cases areNodes
  · cases areNodes
    cases prepared
    refine ⟨rfl, rfl, rfl, fun index => ?_⟩
    obtain ⟨start, found⟩ :=
      Expr.getElem?_placeAll 0 (method.parameters.mapIdx (lifter.parameterNode 0)) index
    refine ⟨start, found.trans ?_⟩
    rw [getElem?_mapIdx, Option.map_map]
    rfl

namespace Emission

variable {emission : Emission} {item : Expr}

theorem restoreOrder_singleton (isPlaced : item.id?.isSome = true) :
    { emission with statements := [item] }.restoreOrder item =
      (0, { emission with statements := [item] }) := by
  have isFirst : hasAt { emission with statements := [item] } 0 item = true := by
    simp [hasAt, Expr.isSame, isPlaced]
  exact if_pos isFirst

theorem returnValue_singleton (returnType : TypeSig) (isValue : item.isVoid = false) :
    { emission with statements := [item] }.returnValue returnType 0 =
      (item.coerce returnType).map fun coerced =>
        { (emission.place coerced).2 with statements := [(emission.place coerced).1] } := by
  have isFound : lastIndexWhere? (fun statement => !statement.isVoid) [item] = some 0 := by
    simp [lastIndexWhere?, isValue]
  unfold returnValue
  dsimp only [take_succ_cons, take_zero]
  rw [isFound]
  dsimp only [getElem?_cons_zero]
  cases item.coerce returnType <;> rfl

theorem inlineTrailing_singleton (isSingle : emission.statements = [item]) :
    emission.inlineTrailing = emission := by
  unfold inlineTrailing
  rw [isSingle]
  split
  · rename_i isLonger
    cases isLonger
  · rfl

theorem complete_singleton {returnType : TypeSig} (inlines : Bool)
    (noStatements : emission.statements = []) (isPlaced : item.id?.isSome = true)
    (isValue : item.isVoid = false) (returns : returnType.isVoid = false) :
    emission.complete [item] returnType inlines = (item.coerce returnType).map fun coerced =>
        { (emission.place coerced).2 with statements := [(emission.place coerced).1] } := by
  unfold complete
  rw [noStatements]
  dsimp only [nil_append, getLast?_singleton]
  rw [restoreOrder_singleton isPlaced]
  rw [withResult, returns, returnValue_singleton returnType isValue]
  cases item.coerce returnType with
  | error error => rfl
  | ok coerced =>
    cases inlines with
    | false => rfl
    | true => exact congrArg Except.ok (inlineTrailing_singleton rfl)

end Emission

theorem Machine.finish_single {machine : Machine} {task : Task} {path : StackId}
    {emission : Emission} (isWaiting : machine.waiters = [(.finish, path)])
    (isAlone : machine.current = none) (isActive : (machine.workspace.stack path).isReduced = false)
    (completes : machine.workspace.emission.complete (machine.workspace.stack path).items.reverse
      task.returnType task.options.inlineTrailing = .ok emission) :
    finish task machine = .ok () { machine with
      workspace := { machine.workspace with emission }, waiters := [], current := some path } := by
  refine (andThen_of_ok (arriveAt_single isWaiting isAlone isActive)).trans ?_
  exact (andThen_of_ok rfl).trans (andThen_of_ok (liftM_eq_ok.2 ⟨completes, rfl⟩))

end CilLift
