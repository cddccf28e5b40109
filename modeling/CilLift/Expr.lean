import CilLift.Constant

/-! Expression trees. Every node carries its static type and, once placed, an identity. -/

namespace CilLift

inductive UnaryOp where
  | negate
  | not
  | logicalNot
  | convert
  | arrayLength
  deriving DecidableEq, Repr

inductive BinaryOp where
  | add
  | subtract
  | multiply
  | divide
  | modulo
  | and
  | or
  | exclusiveOr
  | leftShift
  | rightShift
  | equal
  | notEqual
  | lessThan
  | lessThanOrEqual
  | greaterThan
  | greaterThanOrEqual
  | andAlso
  | orElse
  deriving DecidableEq, Repr

namespace BinaryOp

def isComparison : BinaryOp → Bool
  | .equal | .notEqual | .lessThan | .lessThanOrEqual | .greaterThan | .greaterThanOrEqual => true
  | _ => false

def isLogical : BinaryOp → Bool
  | .andAlso | .orElse => true
  | _ => false

/-- The arithmetic and bitwise operators. -/
def isArithmetic (op : BinaryOp) : Bool :=
  !op.isComparison && !op.isLogical

def isShift : BinaryOp → Bool
  | .leftShift | .rightShift => true
  | _ => false

/-- The comparison that holds exactly when the given one does not. -/
def complement? : BinaryOp → Option BinaryOp
  | .equal => some .notEqual
  | .notEqual => some .equal
  | .lessThan => some .greaterThanOrEqual
  | .lessThanOrEqual => some .greaterThan
  | .greaterThan => some .lessThanOrEqual
  | .greaterThanOrEqual => some .lessThan
  | _ => none

def symbol : BinaryOp → String
  | .add => "+"
  | .subtract => "-"
  | .multiply => "*"
  | .divide => "/"
  | .modulo => "%"
  | .and => "&"
  | .or => "|"
  | .exclusiveOr => "^"
  | .leftShift => "<<"
  | .rightShift => ">>"
  | .equal => "=="
  | .notEqual => "!="
  | .lessThan => "<"
  | .lessThanOrEqual => "<="
  | .greaterThan => ">"
  | .greaterThanOrEqual => ">="
  | .andAlso => "&&"
  | .orElse => "||"

end BinaryOp

/-- What every node carries: its type, and its identity once it has been placed. -/
structure Header where
  type : TypeSig
  id : Option Nat := none
  deriving DecidableEq

inductive Expr where
  | constant (header : Header) (value : Constant)
  | parameter (header : Header) (slot : Nat) (name : String)
  | var (header : Header) (number : Nat) (name : String)
  | unary (header : Header) (op : UnaryOp) (operand : Expr)
  | binary (header : Header) (op : BinaryOp) (left right : Expr)
  | conditional (header : Header) (test onTrue onFalse : Expr)
  | call (header : Header) (receiver : Option Expr) (method : Method) (arguments : List Expr)
  | new (header : Header) (constructor : Method) (arguments : List Expr)
  | field (header : Header) (receiver : Option Expr) (member : Field)
  | index (header : Header) (items position : Expr)
  | array (header : Header) (elements : List Expr)
  | assign (header : Header) (target value : Expr)
  | block (header : Header) (declarations statements : List Expr)
  | typeIs (header : Header) (operand : Expr) (tested : TypeSig)
  | lambda (header : Header) (parameters : List Expr) (body : Expr)
  | invoke (header : Header) (target : Expr) (arguments : List Expr)
  /-- Stands for the value of a fork whose paths have not met yet. -/
  | branch (header : Header) (number : Nat)

namespace Expr

def header : Expr → Header
  | .constant header .. | .parameter header .. | .var header .. | .unary header ..
  | .binary header .. | .conditional header .. | .call header .. | .new header ..
  | .field header .. | .index header .. | .array header .. | .assign header ..
  | .block header .. | .typeIs header .. | .lambda header .. | .invoke header ..
  | .branch header .. => header

def type (expr : Expr) : TypeSig := expr.header.type

def id? (expr : Expr) : Option Nat := expr.header.id

/-- Two occurrences of one placed node. -/
def isSame (first second : Expr) : Bool :=
  first.id?.isSome && first.id? == second.id?

/-! Nodes that have not been placed yet. -/

def mkConstant (value : Constant) (type : TypeSig) : Expr := .constant { type } value

def int (value : Int) : Expr := mkConstant (.integer .int32 value) .int32

def boolean (value : Bool) : Expr := mkConstant (.bool value) .bool

def null (type : TypeSig) : Expr := mkConstant .null type

def zeroOf (type : TypeSig) : Expr := mkConstant (.zeroOf type) type

def mkParameter (slot : Nat) (name : String) (type : TypeSig) : Expr :=
  .parameter { type } slot name

def mkVar (number : Nat) (name : String) (type : TypeSig) : Expr := .var { type } number name

def mkUnary (op : UnaryOp) (operand : Expr) (type : TypeSig) : Expr := .unary { type } op operand

def mkConvert (operand : Expr) (type : TypeSig) : Expr := mkUnary .convert operand type

def mkBinary (op : BinaryOp) (left right : Expr) (type : TypeSig) : Expr :=
  .binary { type } op left right

/-- A conditional has the type of its true side. -/
def mkConditional (test onTrue onFalse : Expr) : Expr :=
  .conditional { type := onTrue.type } test onTrue onFalse

def mkCall (receiver : Option Expr) (method : Method) (arguments : List Expr) : Expr :=
  .call { type := method.returnType } receiver method arguments

def mkNew (constructor : Method) (arguments : List Expr) : Expr :=
  .new { type := constructor.declaringType } constructor arguments

def mkField (receiver : Option Expr) (member : Field) : Expr :=
  .field { type := member.type } receiver member

def mkIndex (items position : Expr) : Expr :=
  .index { type := items.type.elementOrObject } items position

def mkArray (element : TypeSig) (elements : List Expr) : Expr :=
  .array { type := .array element } elements

def mkAssign (target value : Expr) : Expr :=
  .assign { type := target.type } target value

def mkBlock (declarations statements : List Expr) (type : TypeSig) : Expr :=
  .block { type } declarations statements

def mkTypeIs (operand : Expr) (tested : TypeSig) : Expr :=
  .typeIs { type := .bool } operand tested

def mkLambda (parameters : List Expr) (body : Expr) (type : TypeSig) : Expr :=
  .lambda { type } parameters body

def mkInvoke (target : Expr) (arguments : List Expr) (type : TypeSig) : Expr :=
  .invoke { type } target arguments

def mkBranch (number : Nat) : Expr := .branch { type := .void } number

/-! Questions about a node. -/

def constant? : Expr → Option Constant
  | .constant _ value => some value
  | _ => none

def branch? : Expr → Option Nat
  | .branch _ number => some number
  | _ => none

def isConstant (expr : Expr) : Bool := expr.constant?.isSome

def isNull (expr : Expr) : Bool :=
  match expr with
  | .constant _ .null => true
  | _ => false

def isParameter : Expr → Bool
  | .parameter .. => true
  | _ => false

def isVar : Expr → Bool
  | .var .. => true
  | _ => false

/-- Whether the node is the variable with the given number. -/
def isVarNumbered (number : Nat) : Expr → Bool
  | .var _ other _ => other == number
  | _ => false

def isSymbol (expr : Expr) : Bool := expr.isParameter || expr.isVar

def isVoid (expr : Expr) : Bool := expr.type.isVoid

def isBool (expr : Expr) : Bool := expr.type.isBool

/-- The outcome of a jump on a constant: `null`, a boolean, or an `int32` zero or one. -/
def jumpLiteral? : Expr → Option Bool
  | .constant _ .null => some false
  | .constant _ (.bool value) => some value
  | .constant header (.integer .int32 value) =>
    if header.type = .int32 then
      if value = 0 then some false else if value = 1 then some true else none
    else none
  | _ => none

/-- The truth value of a constant that can stand for a boolean. -/
def boolLiteral? (expr : Expr) : Option Bool :=
  if expr.isNull then none else expr.jumpLiteral?

/-- The mask of a 32-bit shift amount, or `true`. -/
def isShiftMask : Expr → Bool
  | .constant _ (.bool value) => value
  | .constant header (.integer .int32 value) => value == 31 && header.type == .int32
  | _ => false

/-- Nodes with an effect or a cost, which must not be moved or repeated. -/
def isInteresting : Expr → Bool
  | .constant .. | .parameter .. | .var .. | .field .. | .branch .. => false
  | _ => true

/-- The operands of a node in the order of their evaluation. -/
def children : Expr → List Expr
  | .constant .. | .parameter .. | .var .. | .branch .. => []
  | .unary _ _ operand | .typeIs _ operand _ => [operand]
  | .binary _ _ left right => [left, right]
  | .conditional _ test onTrue onFalse => [test, onTrue, onFalse]
  | .call _ receiver _ arguments => receiver.toList ++ arguments
  | .new _ _ arguments => arguments
  | .field _ receiver _ => receiver.toList
  | .index _ items position => [items, position]
  | .array _ elements => elements
  | .assign _ target value => [target, value]
  | .block _ _ statements => statements
  | .lambda _ _ body => [body]
  | .invoke _ target arguments => target :: arguments

mutual

/-- Whether a predicate holds for the node or one below it. -/
def any (holds : Expr → Bool) : Expr → Bool
  | .constant header value => holds (.constant header value)
  | .parameter header slot name => holds (.parameter header slot name)
  | .var header number name => holds (.var header number name)
  | .branch header number => holds (.branch header number)
  | .unary header op operand => holds (.unary header op operand) || operand.any holds
  | .typeIs header operand tested => holds (.typeIs header operand tested) || operand.any holds
  | .binary header op left right =>
    holds (.binary header op left right) || left.any holds || right.any holds
  | .conditional header test onTrue onFalse =>
    holds (.conditional header test onTrue onFalse) || test.any holds || onTrue.any holds ||
      onFalse.any holds
  | .call header receiver method arguments =>
    holds (.call header receiver method arguments) || anyReceiver holds receiver || anyOf holds arguments
  | .new header constructor arguments =>
    holds (.new header constructor arguments) || anyOf holds arguments
  | .field header receiver member =>
    holds (.field header receiver member) || anyReceiver holds receiver
  | .index header items position =>
    holds (.index header items position) || items.any holds || position.any holds
  | .array header elements => holds (.array header elements) || anyOf holds elements
  | .assign header target value =>
    holds (.assign header target value) || target.any holds || value.any holds
  | .block header declarations statements =>
    holds (.block header declarations statements) || anyOf holds statements
  | .lambda header parameters body =>
    holds (.lambda header parameters body) || body.any holds
  | .invoke header target arguments =>
    holds (.invoke header target arguments) || target.any holds || anyOf holds arguments

def anyReceiver (holds : Expr → Bool) : Option Expr → Bool
  | none => false
  | some receiver => receiver.any holds

def anyOf (holds : Expr → Bool) : List Expr → Bool
  | [] => false
  | expr :: rest => expr.any holds || anyOf holds rest

end

def hasParameters (expr : Expr) : Bool := expr.any isParameter

/-- Whether the tree runs code: a call that is not known to be pure, a construction or an
invocation. -/
def hasCalls (isPure : Method → Bool) (expr : Expr) : Bool :=
  expr.any fun node =>
    match node with
    | .call _ _ method _ => !isPure method
    | .new .. | .invoke .. => true
    | _ => false

/-- Whether a placed node occurs in the tree. -/
def contains (expr node : Expr) : Bool := expr.any (isSame node)

end Expr

end CilLift
