import CilLift.Expr.Text

/-! A lifted method: its parameters, the variables it declares and its statements in order. -/

namespace CilLift

structure MethodTree where
  /-- The declared parameters, without the receiver. -/
  parameters : List Expr
  returnType : TypeSig
  declarations : List Expr
  /-- The last statement is the result, unless the method returns nothing. -/
  statements : List Expr
  /-- The tree depends on what a delegate held when it was lifted. -/
  notCacheable : Bool

namespace MethodTree

/-- The body as one expression. -/
def body (tree : MethodTree) : Expr :=
  match tree.statements, tree.declarations with
  | [statement], [] => statement
  | statements, declarations => .mkBlock declarations statements tree.returnType

def result? (tree : MethodTree) : Option Expr :=
  tree.statements.getLast?.filter fun last => !last.isVoid

/-- The method as a function of a delegate type. -/
def toLambda (tree : MethodTree) (type : TypeSig) : Expr :=
  .mkLambda tree.parameters tree.body type

def text (tree : MethodTree) : String :=
  s!"({Expr.listText tree.parameters}) => {tree.body.text}"

end MethodTree

end CilLift
