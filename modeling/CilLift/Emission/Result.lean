import CilLift.Emission
import CilLift.Expr.Coerce

/-!
The end of a lifting: the values left on the stack become statements, the statements return to the
order in which they were produced, and the result moves to the end as a value of the return type.
-/

namespace CilLift

/-- The position of the last item that satisfies a predicate. -/
def lastIndexWhere? {α : Type} (holds : α → Bool) (items : List α) : Option Nat :=
  (items.reverse.findIdx? holds).map fun fromEnd => items.length - 1 - fromEnd

namespace Emission

/-- Replaces a statement by the assignment of `value` to a new variable, which is then appended. -/
def replaceWithVariable (statement value : Expr) (emission : Emission) : Emission :=
  let (name, emission) := emission.freshName
  let (variableNode, emission) := emission.newVariable name value.type
  let emission := emission.addVariable variableNode
  let (assignment, emission) := emission.place (.mkAssign variableNode value)
  let statements :=
    match lastIndexWhere? (Expr.isSame statement) emission.statements with
    | some index => emission.statements.set index assignment
    | none => emission.statements
  { emission with statements := statements ++ [variableNode] }

/-- Moves a statement to the end. -/
def moveToEnd (statement : Expr) (emission : Emission) : Emission :=
  let statements :=
    match lastIndexWhere? (Expr.isSame statement) emission.statements with
    | some index => emission.statements.eraseIdx index
    | none => emission.statements
  { emission with statements := statements ++ [statement] }

/-- Whether a statement stands at a position. -/
def hasAt (emission : Emission) (index : Nat) (statement : Expr) : Bool :=
  emission.statements[index]?.any fun found => found.isSame statement

/-- Sorts the statements and brings the last one back to the end if sorting moved it. Returns the
position at which the search for the result begins. -/
def restoreOrder (last : Expr) (emission : Emission) : Nat × Emission :=
  let lastIndex := emission.statements.length - 1
  let emission := emission.sortStatements
  if emission.hasAt lastIndex last then (lastIndex, emission)
  else if last.isSymbol then (lastIndex, emission.moveToEnd last)
  else if last.isVoid then (lastIndex, emission)
  else (lastIndex + 1, emission.replaceWithVariable last last)

/-- Converts the last value up to `lastIndex` to the return type and makes it the last statement. -/
def returnValue (returnType : TypeSig) (lastIndex : Nat) (emission : Emission) : Except Error Emission :=
  let candidates := emission.statements.take (lastIndex + 1)
  match lastIndexWhere? (fun statement => !statement.isVoid) candidates with
  | none => .error (.shape (.noValueProduced returnType))
  | some index =>
    match emission.statements[index]? with
    | none => .error (.shape (.noValueProduced returnType))
    | some value => do
      let (coerced, emission) := emission.place (← value.coerce returnType)
      if index < lastIndex then return emission.replaceWithVariable value coerced
      else return { emission with statements := emission.statements.set index coerced }

/-- The statements with their result, if there is to be one. -/
def withResult (returnType : TypeSig) (lastIndex : Nat) (emission : Emission) : Except Error Emission :=
  if returnType.isVoid then .ok emission else emission.returnValue returnType lastIndex

/-- Turns a trailing `v = e; v` into `e`, if `v` is used nowhere else. -/
def inlineTrailing (emission : Emission) : Emission :=
  match emission.statements.reverse with
  | .var _ last _ :: .assign _ (.var _ number _) value :: earlier =>
    if last == number &&
        !(value :: earlier).any fun statement => statement.any (Expr.isVarNumbered number) then
      { emission with
        statements := earlier.reverse ++ [value]
        declarations :=
          emission.declarations.filter fun variableNode => !variableNode.isVarNumbered number }
    else emission
  | _ => emission

/-- Completes the statements with the values left on the stack, bottom first. -/
def complete (remaining : List Expr) (returnType : TypeSig) (inlinesTrailing : Bool)
    (emission : Emission) : Except Error Emission :=
  let emission := { emission with statements := emission.statements ++ remaining }
  match emission.statements.getLast? with
  | none =>
    if returnType.isVoid then .ok emission else .error (.shape (.noValueLeft returnType))
  | some last => do
    let (lastIndex, emission) := emission.restoreOrder last
    let emission ← emission.withResult returnType lastIndex
    return if inlinesTrailing then emission.inlineTrailing else emission

end Emission

end CilLift
