import CilLift.Expr.Build
import CilLift.Expr.Text
import CilLift.Paths

/-!
Paths that meet at a label become one. The two sides of a fork become a conditional; empty paths
further apart are first brought under one fork whose test says which of them was taken.
-/

namespace CilLift.Work

/-- Takes the placeholder of a fork off a stack. -/
def popPlaceholder (label : Label) (id : StackId) (branch : BranchId) : Work Unit := do
  let found ← pop? id
  if found.bind Expr.branch? = some branch then return ()
  else throw (.shape (.placeholderExpected branch label (found.map Expr.text)))

def replacePlaceholder (label : Label) (id : StackId) (old new : BranchId) : Work Unit := do
  popPlaceholder label id old
  pushUntracked id (.mkBranch new)

/-- Merges one slot: shared values stay, diverging ones become a conditional, and what only one
path has assigned is lost. -/
def joinSlot (test : Expr) (onTrue onFalse target : StackId) (index : Nat) : Work Unit := do
  let trueSlot ← slotOf onTrue index
  let falseSlot ← slotOf onFalse index
  if trueSlot.holdsSame falseSlot then
    modify fun workspace => workspace.setSlot target index trueSlot
  else
    let trueValue ← readLocal onTrue index
    let falseValue ← readLocal onFalse index
    match trueValue, falseValue with
    | some trueValue, some falseValue =>
      assignLocal target index (← Expr.condition test trueValue falseValue)
    | _, _ => clearLocal target index

/-- Gives `target` the locals of a path that went through `onTrue` where the test holds and through
`onFalse` elsewhere. -/
def joinLocals (test : Expr) (onTrue onFalse target : StackId) : Work Unit := do
  let count := ((← get).stack target).locals.length
  (List.range count).forM (joinSlot test onTrue onFalse target)

/-- The values that the sides of a fork have left become one value of the path that forked. -/
def joinValues (label : Label) (branch : BranchId) (fork : Fork) : Work Unit := do
  let trueValue ← pop? fork.onTrue
  let falseValue ← pop? fork.onFalse
  match trueValue, falseValue with
  | some trueValue, some falseValue =>
    push fork.parent (← Expr.condition fork.test trueValue falseValue)
  | none, none => return ()
  | _, _ => throw (.shape (.oneSidedValue branch label))

/-- Both sides of a fork have arrived: its placeholder gives way to the merged value. -/
def joinSides (label : Label) (branch : BranchId) : Work StackId := do
  let fork := (← get).fork branch
  popPlaceholder label fork.parent branch
  joinValues label branch fork
  joinLocals fork.test fork.onTrue fork.onFalse fork.parent
  markReduced fork.onTrue
  markReduced fork.onFalse
  return fork.parent

/-- Puts a new fork over two existing paths in the place of an old one. -/
def regraft (label : Label) (old : BranchId) (parent : StackId) (test : Expr)
    (onTrue onFalse : StackId) : Work Unit := do
  let new ← refork parent test onTrue onFalse
  replacePlaceholder label parent old new

/-- The test of a fork, or its negation. -/
def testOrNegation (fork : Fork) (isKept : Bool) : Except Error Expr :=
  if isKept then .ok fork.test else fork.test.logicalNot

/-- Two empty paths below different sides of one fork: they become one side of a fork in its place,
and the paths beside them the other. -/
def joinDiamond (label : Label) (first second : StackId) (firstBranch secondBranch : BranchId) :
    Work (Option StackId) := do
  let workspace ← get
  let firstFork := workspace.fork firstBranch
  let secondFork := workspace.fork secondBranch
  match workspace.parent firstFork.parent, workspace.parent secondFork.parent with
  | some root, some otherRoot =>
    if root = otherRoot then
      let rootFork := workspace.fork root
      let firstOnTrue := firstFork.onTrue == first
      let secondOnTrue := secondFork.onTrue == second
      let firstTest ← testOrNegation firstFork firstOnTrue
      let firstSibling := firstFork.side !firstOnTrue
      let secondSibling := secondFork.side !secondOnTrue
      markReduced secondSibling
      let secondTest ← testOrNegation secondFork secondOnTrue
      let rootTest ← testOrNegation rootFork (rootFork.onTrue == firstFork.parent)
      let rootTest ← place rootTest
      joinLocals rootTest first second first
      joinLocals rootTest firstSibling secondSibling firstSibling
      let test ← Expr.condition rootTest firstTest secondTest
      regraft label root rootFork.parent test first firstSibling
      return some first
    else return none
  | _, _ => return none

/-- The test of the fork that a nested merge leaves, where the older path is on the true or the false
side of its fork, and the younger path on the same side of its own or on the other. -/
def nestedTest (olderFork youngerFork : Fork) (onTrue isAligned : Bool) : Except Error Expr := do
  let youngerTest ← testOrNegation youngerFork isAligned
  let both ← Expr.logicalAnd olderFork.test youngerTest
  if onTrue then return both else both.logicalNot

/-- Two empty paths of which one lies deeper: the shallower takes the deeper one in, beside the
path that the deeper fork leaves over. -/
def joinNested (label : Label) (older younger : StackId) (olderBranch youngerBranch : BranchId) :
    Work StackId := do
  let workspace ← get
  let olderFork := workspace.fork olderBranch
  let youngerFork := workspace.fork youngerBranch
  let onTrue := olderFork.onTrue == older
  let isAligned := youngerFork.side onTrue == younger
  let other := youngerFork.side (if isAligned then !onTrue else onTrue)
  let test ← nestedTest olderFork youngerFork onTrue isAligned
  joinLocals olderFork.test (if onTrue then older else younger) (if onTrue then younger else older) older
  regraft label olderBranch olderFork.parent test older other
  return older

/-- The depth of a path. -/
def depthOf (id : StackId) : Work Nat := do
  match (← get).depth? id with
  | some depth => return depth
  | none => throw .cyclicForks

/-- Merges two paths, if they stand in one of the three relations that allow it. -/
def joinPair (label : Label) (first second : StackId) : Work (Option StackId) := do
  let firstDepth ← depthOf first
  let secondDepth ← depthOf second
  let workspace ← get
  let bothEmpty := (workspace.stack first).isEmpty && (workspace.stack second).isEmpty
  match workspace.parent first, workspace.parent second with
  | some firstBranch, some secondBranch =>
    if firstDepth = secondDepth then
      if firstBranch = secondBranch then return some (← joinSides label firstBranch)
      else if bothEmpty then joinDiamond label first second firstBranch secondBranch
      else return none
    else if bothEmpty then
      if secondDepth < firstDepth then
        return some (← joinNested label second first secondBranch firstBranch)
      else return some (← joinNested label first second firstBranch secondBranch)
    else return none
  | _, _ => return none

/-- Merges the latest path with the ones parked before it, latest first. Where the latest two do
not fit, the earlier ones are merged first. -/
def joinAll (label : Label) (latest : StackId) : List StackId → Work StackId
  | [] => return latest
  | first :: rest => do
    match ← joinPair label first latest with
    | some merged => joinAll label merged rest
    | none =>
      let first ← joinAll label first rest
      match ← joinPair label first latest with
      | some merged => return merged
      | none => throw (.unmergedPaths label)

/-- Merges the paths waiting at a label, given in the order in which they were parked. -/
def join (label : Label) (waiting : List StackId) : Work StackId :=
  match waiting.reverse with
  | [] => throw (.shape (.noWaiter label))
  | latest :: earlier => joinAll label latest earlier

end CilLift.Work
