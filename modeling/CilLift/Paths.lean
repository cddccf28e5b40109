import CilLift.Emission
import CilLift.Expr.Coerce

/-!
Control-flow paths. Every path has an evaluation stack of expressions and its own view of the local
variables. A fork splits a path in two; the stack it leaves holds a placeholder until both sides
have met again.
-/

namespace CilLift

abbrev StackId := Nat

abbrev BranchId := Nat

/-- What a local variable holds on one path. -/
inductive SlotContent where
  | unassigned
  /-- A constant or a parameter, used as it is. -/
  | direct (value : Expr)
  /-- A value bound to a variable, which is declared when it is first read. -/
  | bound (value variableNode assignment : Expr)

structure LocalSlot where
  type : TypeSig
  name : String
  content : SlotContent := .unassigned

namespace LocalSlot

def value? (slot : LocalSlot) : Option Expr :=
  match slot.content with
  | .unassigned => none
  | .direct value | .bound value _ _ => some value

def isAssigned (slot : LocalSlot) : Bool := slot.value?.isSome

def clear (slot : LocalSlot) : LocalSlot := { slot with content := .unassigned }

/-- Stores a value of the slot's type. -/
def store (value : Expr) (slot : LocalSlot) (emission : Emission) : LocalSlot × Emission :=
  let (value, emission) := emission.place value
  if value.isConstant || value.isParameter then
    ({ slot with content := .direct value }, emission)
  else
    let (variableNode, emission) := emission.newVariable slot.name slot.type
    let (assignment, emission) := emission.place (.mkAssign variableNode value)
    ({ slot with content := .bound value variableNode assignment }, emission.track assignment)

/-- Stores a value, converted to the type of the slot. -/
def assign (value : Expr) (slot : LocalSlot) (emission : Emission) :
    Except Error (LocalSlot × Emission) := do
  return slot.store (← value.coerce slot.type) emission

/-- Reads the slot and declares its variable, if it has one. -/
def read (slot : LocalSlot) (emission : Emission) : Option Expr × Emission :=
  match slot.content with
  | .unassigned => (none, emission)
  | .direct value => (some value, emission)
  | .bound _ variableNode assignment =>
    (some variableNode, emission.declare variableNode assignment)

/-- Whether two slots hold the very same value. -/
def holdsSame (first second : LocalSlot) : Bool :=
  match first.value?, second.value? with
  | some firstValue, some secondValue => firstValue.isSame secondValue
  | _, _ => false

end LocalSlot

/-- The evaluation stack and the locals of one path. -/
structure EvalStack where
  /-- The values, top first. -/
  items : List Expr := []
  /-- The fork this path is a side of. -/
  parent : Option BranchId := none
  locals : List LocalSlot := []
  /-- The path has been absorbed by a join. -/
  isReduced : Bool := false

def EvalStack.isEmpty (stack : EvalStack) : Bool := stack.items.isEmpty

/-- A two-way fork of a path. -/
structure Fork where
  test : Expr
  onTrue : StackId
  onFalse : StackId
  /-- The path that forked. -/
  parent : StackId

def Fork.side (fork : Fork) (onTrue : Bool) : StackId :=
  if onTrue then fork.onTrue else fork.onFalse

/-- All paths and forks of a lifting, with what they have produced. -/
structure Workspace where
  paths : List EvalStack := []
  forks : List Fork := []
  emission : Emission := {}

/-- Steps on a workspace; what was done before a failure stays done. -/
abbrev Work := EStateM Error Workspace

instance liftExceptToState {σ : Type} : MonadLift (Except Error) (EStateM Error σ) where
  monadLift
    | .ok value => pure value
    | .error error => throw error

namespace Workspace

def stack (workspace : Workspace) (id : StackId) : EvalStack :=
  workspace.paths.getD id {}

def fork (workspace : Workspace) (id : BranchId) : Fork :=
  workspace.forks.getD id ⟨.boolean true, 0, 0, 0⟩

def modifyStack (workspace : Workspace) (id : StackId) (change : EvalStack → EvalStack) : Workspace :=
  { workspace with paths := workspace.paths.modify id change }

def slot? (workspace : Workspace) (id : StackId) (index : Nat) : Option LocalSlot :=
  (workspace.stack id).locals[index]?

/-- The slot of a path, an empty one where there is none. -/
def slot (workspace : Workspace) (id : StackId) (index : Nat) : LocalSlot :=
  (workspace.slot? id index).getD { type := .object, name := "" }

def setSlot (workspace : Workspace) (id : StackId) (index : Nat) (slot : LocalSlot) : Workspace :=
  workspace.modifyStack id fun stack => { stack with locals := stack.locals.set index slot }

def parent (workspace : Workspace) (id : StackId) : Option BranchId :=
  (workspace.stack id).parent

/-- The number of forks between a path and its root, if the climb passes at most `limit` paths. -/
def depthWithin? (workspace : Workspace) : Nat → StackId → Option Nat
  | 0, _ => none
  | limit + 1, id =>
    match workspace.parent id with
    | none => some 0
    | some branch => (workspace.depthWithin? limit (workspace.fork branch).parent).map (· + 1)

/-- The number of forks between a path and its root; there is none where the forks lead back to the
path. -/
def depth? (workspace : Workspace) (id : StackId) : Option Nat :=
  workspace.depthWithin? (workspace.paths.length + 1) id

end Workspace

namespace Work

/-- A step of the emission. -/
def emit {α : Type} (step : Emission → α × Emission) : Work α :=
  modifyGet fun workspace =>
    let (result, emission) := step workspace.emission
    (result, { workspace with emission })

def place (expr : Expr) : Work Expr := emit (Emission.place expr)

def track (expr : Expr) : Work Unit := emit fun emission => ((), emission.track expr)

/-- A path without fork above it. -/
def newRoot (locals : List LocalSlot) : Work StackId :=
  modifyGet fun workspace =>
    (workspace.paths.length, { workspace with paths := workspace.paths ++ [{ locals }] })

/-- Forks a path. Both sides start with the locals of the path, and no placeholder is pushed. -/
def newFork (parent : StackId) (test : Expr) : Work BranchId := do
  let test ← place test
  modifyGet fun workspace =>
    let branch := workspace.forks.length
    let side : EvalStack :=
      { parent := some branch, locals := (workspace.stack parent).locals }
    let onTrue := workspace.paths.length
    (branch, { workspace with
      paths := workspace.paths ++ [side, side]
      forks := workspace.forks ++ [⟨test, onTrue, onTrue + 1, parent⟩] })

/-- Makes two existing paths the sides of a new fork. -/
def refork (parent : StackId) (test : Expr) (onTrue onFalse : StackId) : Work BranchId := do
  let test ← place test
  modifyGet fun workspace =>
    let branch := workspace.forks.length
    let attach (stack : EvalStack) : EvalStack := { stack with parent := some branch }
    let workspace : Workspace :=
      { workspace with forks := workspace.forks ++ [⟨test, onTrue, onFalse, parent⟩] }
    (branch, (workspace.modifyStack onTrue attach).modifyStack onFalse attach)

/-- Pushes a value without recording its production. -/
def pushUntracked (id : StackId) (value : Expr) : Work Unit := do
  let value ← place value
  modify fun workspace =>
    workspace.modifyStack id fun stack => { stack with items := value :: stack.items }

def push (id : StackId) (value : Expr) : Work Unit := do
  let value ← place value
  track value
  pushUntracked id value

def pop? (id : StackId) : Work (Option Expr) :=
  modifyGet fun workspace =>
    match (workspace.stack id).items with
    | [] => (none, workspace)
    | top :: rest => (some top, workspace.modifyStack id fun stack => { stack with items := rest })

def markReduced (id : StackId) : Work Unit :=
  modify fun workspace => workspace.modifyStack id fun stack => { stack with isReduced := true }

def slotOf (id : StackId) (index : Nat) : Work LocalSlot := do
  return (← get).slot id index

def readLocal (id : StackId) (index : Nat) : Work (Option Expr) := do
  let slot ← slotOf id index
  emit slot.read

def assignLocal (id : StackId) (index : Nat) (value : Expr) : Work Unit := do
  let slot ← slotOf id index
  let (slot, emission) ← slot.assign value (← get).emission
  modify fun workspace => { workspace.setSlot id index slot with emission }

def clearLocal (id : StackId) (index : Nat) : Work Unit := do
  let slot ← slotOf id index
  modify fun workspace => workspace.setSlot id index slot.clear

end Work

end CilLift
