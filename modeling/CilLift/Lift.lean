import CilLift.Machine.Run

/-! Lifting of method bodies to trees. -/

namespace CilLift

/-- Everything that lifting depends on besides the method. -/
structure Lifter where
  resolver : Resolver
  options : Options := {}
  context : Instantiation := {}
  /-- How deeply the bodies of delegates may be nested. -/
  nesting : Nat := 1000

namespace Lifter

/-- The node of a declared parameter. Unnamed parameters are named by their position. -/
def parameterNode (lifter : Lifter) (firstSlot : Nat) (position : Nat) (parameter : Parameter) : Expr :=
  let name := if parameter.name.isEmpty then s!"arg{position}" else parameter.name
  .mkParameter (position + firstSlot) name (parameter.type.instantiate lifter.context)

def parameterNodes (lifter : Lifter) (method : Method) : Except Error (List Expr) :=
  let firstSlot := if method.isStatic then 0 else 1
  if 65536 < method.parameters.length + firstSlot then .error (.shape (.tooManyParameters method))
  else .ok (method.parameters.mapIdx (lifter.parameterNode firstSlot))

/-- The receiver of an instance method: the given one, or a parameter of its own. -/
def receiverNode (lifter : Lifter) (method : Method) (target : Option Expr) : Option Expr :=
  if method.isStatic then none
  else some (target.getD (.mkParameter 0 "this" (method.declaringType.instantiate lifter.context)))

/-- The task of lifting a method with nodes numbered from `nextNode` on, and the next free number.
Arguments that refer to a parameter are not used. -/
def prepare (lifter : Lifter) (nextNode : Nat) (method : Method) (target : Option Expr)
    (arguments : List Expr) (liftNested : NestedLift) : Except Error (Task × Nat) := do
  let (parameters, nextNode) := Expr.placeAll nextNode (← lifter.parameterNodes method)
  let (receiver, nextNode) := Expr.placeReceiver nextNode (lifter.receiverNode method target)
  return ({
    resolver := lifter.resolver
    options := lifter.options
    method
    returnType := method.returnType.instantiate lifter.context
    parameters
    target := receiver
    arguments := arguments.map fun argument =>
      if argument.hasParameters then none else some argument
    liftNested }, nextNode)

/-- The tree of a completed run. -/
def treeOf (task : Task) (machine : Machine) : MethodTree where
  parameters := task.parameters
  returnType := task.returnType
  declarations := machine.workspace.emission.declarations
  statements := machine.workspace.emission.statements
  notCacheable := machine.notCacheable

/-- What a body is announced as. -/
abbrev trace (lifter : Lifter) (body : MethodBody) : Trace :=
  Trace.ofBody lifter.resolver lifter.context body

/-- Runs a body with identities from `nextNode` on. -/
def runBody (lifter : Lifter) (task : Task) (nextNode : Nat) (body : MethodBody) :
    EStateM.Result Error Machine Unit :=
  Machine.runTrace task (lifter.trace body) (.initial nextNode)

/-- Lifts a body with identities from `nextNode` on, following delegates `depth` levels deep. -/
def liftFrom (lifter : Lifter) (depth nextNode : Nat) (method : Method) (body : MethodBody)
    (target : Option Expr) (arguments : List Expr) : Except Error (MethodTree × Nat) := do
  match depth with
  | 0 => throw .nestingLimit
  | depth + 1 =>
    let (task, nextNode) ← lifter.prepare nextNode method target arguments
      fun nextNode method body target => lifter.liftFrom depth nextNode method body target []
    match lifter.runBody task nextNode body with
    | .error error _ => throw error
    | .ok _ machine => return (treeOf task machine, machine.workspace.emission.nextNode)

/-- A receiver and arguments with identities, and the next free one. Nodes that have an identity keep
it, so that one node given twice stays one. -/
def placeGiven (target : Option Expr) (arguments : List Expr) : Option Expr × List Expr × Nat :=
  let first := Expr.freeIdentity (target.toList ++ arguments)
  let (target, nextNode) := Expr.placeReceiver first target
  let (arguments, nextNode) := Expr.placeAll nextNode arguments
  (target, arguments, nextNode)

/-- Lifts a method whose receiver and first arguments may be known. -/
def liftBound (lifter : Lifter) (method : Method) (body : MethodBody) (target : Option Expr)
    (arguments : List Expr) : Except Error MethodTree := do
  let (target, arguments, nextNode) := placeGiven target arguments
  let (tree, _) ← lifter.liftFrom lifter.nesting nextNode method body target arguments
  return tree

def lift (lifter : Lifter) (method : Method) (body : MethodBody) : Except Error MethodTree :=
  lifter.liftBound method body none []

def description (lifter : Lifter) : String :=
  Text.record "Decompiler" [
    s!"options: {lifter.options.description}", s!"context: {lifter.context.description}", ".."]

end Lifter

end CilLift
