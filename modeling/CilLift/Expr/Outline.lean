import CilLift.Expr

/-! Expressions with the kind and the type of every node spelled out. -/

namespace CilLift

def UnaryOp.all : List UnaryOp := [.negate, .not, .logicalNot, .convert, .arrayLength]

def UnaryOp.name : UnaryOp → String
  | .negate => "Negate"
  | .not => "Not"
  | .logicalNot => "LogicalNot"
  | .convert => "Convert"
  | .arrayLength => "ArrayLength"

def BinaryOp.all : List BinaryOp :=
  [.add, .subtract, .multiply, .divide, .modulo, .and, .or, .exclusiveOr, .leftShift,
    .rightShift, .equal, .notEqual, .lessThan, .lessThanOrEqual, .greaterThan,
    .greaterThanOrEqual, .andAlso, .orElse]

def BinaryOp.name : BinaryOp → String
  | .add => "Add"
  | .subtract => "Subtract"
  | .multiply => "Multiply"
  | .divide => "Divide"
  | .modulo => "Modulo"
  | .and => "And"
  | .or => "Or"
  | .exclusiveOr => "ExclusiveOr"
  | .leftShift => "LeftShift"
  | .rightShift => "RightShift"
  | .equal => "Equal"
  | .notEqual => "NotEqual"
  | .lessThan => "LessThan"
  | .lessThanOrEqual => "LessThanOrEqual"
  | .greaterThan => "GreaterThan"
  | .greaterThanOrEqual => "GreaterThanOrEqual"
  | .andAlso => "AndAlso"
  | .orElse => "OrElse"

namespace Expr

/-- A node with its parts. -/
def outlineNode (kind : String) (header : Header) (parts : List String) : String :=
  String.intercalate " " (s!"({kind}<{header.type.text}>" :: parts) ++ ")"

mutual

def outline : Expr → String
  | .constant header value => outlineNode "Const" header [value.kind, value.text]
  | .parameter header slot name => outlineNode "Param" header [toString slot, name]
  | .var header number name => outlineNode "Var" header [toString number, name]
  | .unary header op operand => outlineNode "Unary" header [op.name, operand.outline]
  | .binary header op left right =>
    outlineNode "Binary" header [op.name, left.outline, right.outline]
  | .conditional header test onTrue onFalse =>
    outlineNode "Cond" header [test.outline, onTrue.outline, onFalse.outline]
  | .call header receiver method arguments =>
    outlineNode "Call" header [method.token.text, receiverOutline receiver, s!"[{listOutline arguments}]"]
  | .new header constructor arguments =>
    outlineNode "New" header [constructor.token.text, s!"[{listOutline arguments}]"]
  | .field header receiver member =>
    outlineNode "Field" header [member.token.text, receiverOutline receiver]
  | .index header items position =>
    outlineNode "Index" header [items.outline, position.outline]
  | .array header elements => outlineNode "Array" header [s!"[{listOutline elements}]"]
  | .assign header target value => outlineNode "Assign" header [target.outline, value.outline]
  | .block header declarations statements =>
    outlineNode "Block" header [s!"[{listOutline declarations}]", s!"[{listOutline statements}]"]
  | .typeIs header operand tested =>
    outlineNode "TypeIs" header [s!"<{tested.text}>", operand.outline]
  | .lambda header parameters body =>
    outlineNode "Lambda" header [s!"[{listOutline parameters}]", body.outline]
  | .invoke header target arguments =>
    outlineNode "Invoke" header [target.outline, s!"[{listOutline arguments}]"]
  | .branch header number => outlineNode "Branch" header [toString number]

def receiverOutline : Option Expr → String
  | none => "-"
  | some receiver => receiver.outline

/-- Items separated by blanks. -/
def listOutline : List Expr → String
  | [] => ""
  | [last] => last.outline
  | item :: rest => item.outline ++ " " ++ listOutline rest

end

end Expr

end CilLift
