import CilLift.Machine

/-! Jumps. A path goes on where a jump is not taken, so every test is that of not jumping. -/

namespace CilLift

namespace Machine

/-- The left operand of a comparison; an order needs a number. -/
def compared (op : BinaryOp) (left : Expr) : Except Error Expr :=
  if op = .equal then .ok left else left.ensureNumeric

def jumpOnComparison (label : Label) (stack : StackId) (op : BinaryOp) : Run Unit := do
  let right ← pop stack "branch"
  let left ← pop stack "branch"
  let left ← compared op left
  let right ← right.coerce left.type
  forkAt label stack (.mkBinary op left right .bool)

/-- How a jump on a true reference is decided without looking at it, if it is. -/
def foldedReferenceTest? (task : Task) (value : Expr) : Option Bool :=
  if task.options.foldReferenceTests then
    if value.type.isDelegate then some false
    else if !value.type.isPrimitive && !value.type.isEnum then some true
    else
      match value with
      | .call _ _ method _ => if method.flags.isNullableHasValue then some true else none
      | _ => none
  else none

def jumpIfTrue (task : Task) (label : Label) (stack : StackId) : Run Unit := do
  let value ← pop stack "brtrue"
  match value.jumpLiteral? <|> foldedReferenceTest? task value with
  | some true => jumpTo label stack
  | some false => return ()
  | none => forkAt label stack (← value.isFalse)

def jumpIfFalse (label : Label) (stack : StackId) : Run Unit := do
  let value ← pop stack "brfalse"
  match value.jumpLiteral? with
  | some true => return ()
  | some false => jumpTo label stack
  | none => forkAt label stack (← value.isTrue)

def runJump (task : Task) (stack : StackId) (opcode : Opcode) (label : Label) : Run Unit :=
  match opcode with
  | .br => jumpTo label stack
  | .brfalse => jumpIfFalse label stack
  | .brtrue => jumpIfTrue task label stack
  | .beq => jumpOnComparison label stack .notEqual
  | .bge | .bgeUn => jumpOnComparison label stack .lessThan
  | .bgt | .bgtUn => jumpOnComparison label stack .lessThanOrEqual
  | .ble | .bleUn => jumpOnComparison label stack .greaterThan
  | .blt | .bltUn => jumpOnComparison label stack .greaterThanOrEqual
  | .bneUn => jumpOnComparison label stack .equal
  | other => unsupported other

end Machine

end CilLift
