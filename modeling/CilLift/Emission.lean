import CilLift.Expr.Placement

/-!
What a lifting has produced so far: statements, variables, and a ledger of the order in which values
and assignments came about, from which the order of the statements is restored in the end.
-/

namespace CilLift

/-- Inserts an item before the first one with a key at least as large. -/
def insertByKey {α : Type} (key : α → Nat) (item : α) : List α → List α
  | [] => [item]
  | head :: tail =>
    if key item ≤ key head then item :: head :: tail else head :: insertByKey key item tail

/-- The items in the order of their keys; items with equal keys keep their order. -/
def sortByKey {α : Type} (key : α → Nat) (items : List α) : List α :=
  items.foldr (insertByKey key) []

structure Emission where
  /-- The identities of the produced nodes, in the order of production. -/
  ledger : List Nat := []
  statements : List Expr := []
  declarations : List Expr := []
  nextVariable : Nat := 0
  /-- The names given to variables. -/
  names : List String := []
  /-- What the names of temporaries begin with. -/
  stem : String := "V_"
  /-- The number of the next temporary, a machine word: the one after the last is zero. -/
  nextTemporary : UInt64 := 0
  /-- The identity of the next placed node. -/
  nextNode : Nat := 0

namespace Emission

/-- Gives identities to the nodes of a tree that have none. -/
def place (expr : Expr) (emission : Emission) : Expr × Emission :=
  let (expr, nextNode) := expr.place emission.nextNode
  (expr, { emission with nextNode })

/-- The number that the counter of temporaries has after some steps. Past a whole round, where as many
names are taken as there are words, it would come back to the same ones and goes on above them. -/
def numberAfter (emission : Emission) (steps : Nat) : Nat :=
  if steps < UInt64.size then (emission.nextTemporary.toNat + steps) % UInt64.size
  else emission.nextTemporary.toNat + steps

def temporaryName (emission : Emission) (steps : Nat) : String :=
  emission.stem ++ toString (emission.numberAfter steps)

/-- The steps from `steps` on, at most `limit` more, to a temporary name that is free. -/
def stepsToFree (emission : Emission) (steps : Nat) : Nat → Nat
  | 0 => steps
  | limit + 1 =>
    if emission.names.contains (emission.temporaryName steps) then
      emission.stepsToFree (steps + 1) limit
    else steps

/-- The next temporary name that no variable carries. As many steps as there are names find one. -/
def freshName (emission : Emission) : String × Emission :=
  let steps := emission.stepsToFree 0 emission.names.length
  (emission.temporaryName steps,
    { emission with nextTemporary := emission.nextTemporary + .ofNat (steps + 1) })

/-- Records a node as produced now. -/
def track (expr : Expr) (emission : Emission) : Emission :=
  { emission with ledger := emission.ledger ++ expr.id?.toList }

/-- The position of the last production of a node. -/
def lastIndexOf? (emission : Emission) (expr : Expr) : Option Nat := do
  let id ← expr.id?
  let fromEnd ← emission.ledger.reverse.idxOf? id
  return emission.ledger.length - 1 - fromEnd

/-- Records a node as produced right after the last production of another. -/
def trackAfter (expr after : Expr) (emission : Emission) : Emission :=
  let position :=
    match emission.lastIndexOf? after with
    | some index => index + 1
    | none => 0
  { emission with
    ledger := emission.ledger.take position ++ expr.id?.toList ++ emission.ledger.drop position }

/-- A variable of its own number; a name already given is replaced by a temporary one. -/
def newVariable (name : String) (type : TypeSig) (emission : Emission) : Expr × Emission :=
  let (name, emission) :=
    if emission.names.contains name then emission.freshName else (name, emission)
  place (.mkVar emission.nextVariable name type)
    { emission with
      names := name :: emission.names
      nextVariable := emission.nextVariable + 1 }

def isDeclared (emission : Emission) (variableNode : Expr) : Bool :=
  emission.declarations.any (Expr.isSame variableNode)

def addVariable (variableNode : Expr) (emission : Emission) : Emission :=
  { emission with declarations := emission.declarations ++ [variableNode] }

def addStatement (statement : Expr) (emission : Emission) : Emission :=
  { emission with statements := emission.statements ++ [statement] }

/-- Declares a variable by its first assignment, once. -/
def declare (variableNode assignment : Expr) (emission : Emission) : Emission :=
  if emission.isDeclared variableNode then emission
  else (emission.addVariable variableNode).addStatement assignment

/-- Binds a value to a variable, so that it is evaluated once and at its place. -/
def materialize (expr : Expr) (name : String) (emission : Emission) : Expr × Emission :=
  let (variableNode, emission) := emission.newVariable name expr.type
  let (assignment, emission) := emission.place (.mkAssign variableNode expr)
  let emission := (emission.addVariable variableNode).addStatement assignment
  (variableNode, (emission.trackAfter assignment expr).track variableNode)

/-- The rank of a statement: after its last production, before everything if it has none. -/
def rank (emission : Emission) (statement : Expr) : Nat :=
  match emission.lastIndexOf? statement with
  | some index => index + 1
  | none => 0

/-- Puts the statements in the order of their last production. -/
def sortStatements (emission : Emission) : Emission :=
  { emission with statements := sortByKey emission.rank emission.statements }

end Emission

end CilLift
