import CilLift.Machine

/-! Arithmetic, comparison, conversion, array elements and the bare stack operations. -/

namespace CilLift

namespace Machine

/-- Masking a shift amount changes nothing. -/
def maskOrAnd (stack : StackId) : Run Unit := do
  let right ← pop stack "and"
  let left ← pop stack "and"
  if right.isShiftMask then push stack left else push stack (← Expr.bitwise .and left right)

/-- An unsigned comparison with `null` is how a reference is tested for presence. -/
def greaterUnsigned (stack : StackId) : Run Unit := do
  let right ← pop stack "cgt.un"
  let left ← pop stack "cgt.un"
  if right.isNull then
    if left.isBool then push stack left else push stack (← Expr.notEqual left right)
  else push stack (← Expr.numericComparison .greaterThan left right)

/-- Repeats the top of the stack; what must not run twice is bound to a variable first. -/
def duplicate (task : Task) (stack : StackId) : Run Unit := do
  match ((← get).workspace.stack stack).items with
  | [] => malformed .duplicateOfNothing
  | top :: _ =>
    let isShared :=
      match top with
      | .array .. => true
      | _ => !top.hasCalls task.options.isPureCall
    if isShared then push stack top
    else
      let value ← pop stack "dup"
      let variableNode ← materialize value
      push stack variableNode
      push stack variableNode

/-- Drops the top of the stack. A value with an effect becomes a statement, and pending values that
it must not overtake are bound to variables. -/
def discard (stack : StackId) : Run Unit := do
  let value ← pop stack "pop"
  if value.isInteresting then
    let items := ((← get).workspace.stack stack).items
    let bound ← items.reverse.mapM fun item =>
      if item.isInteresting then materialize item else pure item
    modify fun machine => { machine with
      workspace := machine.workspace.modifyStack stack fun stack =>
        { stack with items := bound.reverse } }
    work (Work.emit fun emission => ((), emission.addStatement value))

/-- Stores an element into the array that was just created, by a new array in its place. -/
def storeElement (stack : StackId) : Run Unit := do
  let value ← pop stack "stelem"
  let position ← pop stack "stelem"
  let items ← pop stack "stelem"
  match int32Literal? position with
  | none => malformed fun offset => .storeIndexNotConstant offset position.text
  | some index =>
    match items with
    | .array _ elements =>
      let duplicated ← pop stack "stelem"
      if duplicated.isSame items then
        if 0 ≤ index ∧ index < elements.length then
          let element := items.type.elementOrObject
          let value ← value.coerce element
          push stack (.mkArray element (elements.set index.toNat value))
        else malformed (.storeIndexOutOfRange index)
      else malformed .storeWithoutDuplicate
    | _ => malformed .storeWithoutArray

/-- What the instructions without operand do. -/
inductive StackOperation where
  | arithmetic (consumer : String) (op : BinaryOp)
  | bitwise (consumer : String) (op : BinaryOp)
  | maskOrAnd
  | shift (consumer : String) (op : BinaryOp)
  | negate
  | complement
  | equal
  | compare (consumer : String) (op : BinaryOp)
  | greaterUnsigned
  | convert (type : TypeSig)
  | duplicate
  | discard
  | leave
  | arrayLength
  | loadElement
  | storeElement

def stackOperation? : Opcode → Option StackOperation
  | .add | .addOvf | .addOvfUn => some (.arithmetic "add" .add)
  | .sub | .subOvf | .subOvfUn => some (.arithmetic "sub" .subtract)
  | .mul | .mulOvf | .mulOvfUn => some (.arithmetic "mul" .multiply)
  | .div | .divUn => some (.arithmetic "div" .divide)
  | .rem | .remUn => some (.arithmetic "rem" .modulo)
  | .and => some .maskOrAnd
  | .or => some (.bitwise "or" .or)
  | .xor => some (.bitwise "xor" .exclusiveOr)
  | .shl => some (.shift "shl" .leftShift)
  | .shr | .shrUn => some (.shift "shr" .rightShift)
  | .neg => some .negate
  | .not => some .complement
  | .ceq => some .equal
  | .cgt => some (.compare "cgt" .greaterThan)
  | .cgtUn => some .greaterUnsigned
  | .clt | .cltUn => some (.compare "clt" .lessThan)
  | .convI1 | .convOvfI1 | .convOvfI1Un => some (.convert (.integer .int8))
  | .convI2 | .convOvfI2 | .convOvfI2Un => some (.convert (.integer .int16))
  | .convI4 | .convOvfI4 | .convOvfI4Un => some (.convert (.integer .int32))
  | .convI8 | .convOvfI8 | .convOvfI8Un => some (.convert (.integer .int64))
  | .convU1 | .convOvfU1 | .convOvfU1Un => some (.convert (.integer .uint8))
  | .convU2 | .convOvfU2 | .convOvfU2Un => some (.convert (.integer .uint16))
  | .convU4 | .convOvfU4 | .convOvfU4Un => some (.convert (.integer .uint32))
  | .convU8 | .convOvfU8 | .convOvfU8Un => some (.convert (.integer .uint64))
  | .convR4 => some (.convert .float32)
  | .convR8 | .convRUn => some (.convert .float64)
  | .dup => some .duplicate
  | .pop => some .discard
  | .ret => some .leave
  | .ldlen => some .arrayLength
  | .ldelem | .ldelemI1 | .ldelemU1 | .ldelemI2 | .ldelemU2 | .ldelemI4 | .ldelemU4 | .ldelemI8
  | .ldelemR4 | .ldelemR8 | .ldelemRef => some .loadElement
  | .stelem | .stelemI1 | .stelemI2 | .stelemI4 | .stelemI8 | .stelemR4 | .stelemR8
  | .stelemRef => some .storeElement
  | _ => none

def operate (task : Task) (stack : StackId) : StackOperation → Run Unit
  | .arithmetic consumer op => binary stack consumer (Expr.numeric op)
  | .bitwise consumer op => binary stack consumer (Expr.bitwise op)
  | .maskOrAnd => maskOrAnd stack
  | .shift consumer op => binary stack consumer (Expr.shift op)
  | .negate => unary stack "neg" Expr.negate
  | .complement => unary stack "not" Expr.bitwiseNot
  | .equal => binary stack "ceq" Expr.equal
  | .compare consumer op => binary stack consumer (Expr.numericComparison op)
  | .greaterUnsigned => greaterUnsigned stack
  | .convert type => unary stack "conv" fun operand => operand.convert type
  | .duplicate => duplicate task stack
  | .discard => discard stack
  | .leave => jumpTo .finish stack
  | .arrayLength => unary stack "ldlen" fun items => .ok (.mkUnary .arrayLength items .int32)
  | .loadElement => binary stack "ldelem" fun items position => .ok (.mkIndex items position)
  | .storeElement => storeElement stack

def runPlain (task : Task) (stack : StackId) (opcode : Opcode) : Run Unit :=
  match stackOperation? opcode with
  | some operation => operate task stack operation
  | none => unsupported opcode

end Machine

end CilLift
