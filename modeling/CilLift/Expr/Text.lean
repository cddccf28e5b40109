import CilLift.Expr

/-! Expressions as text. -/

namespace CilLift.Expr

mutual

def text : Expr → String
  | .constant header .zeroed => s!"default({header.type.text})"
  | .constant _ value => value.text
  | .parameter _ _ name | .var _ _ name => name
  | .unary header op operand =>
    match op with
    | .negate => "-" ++ operand.text
    | .not => "~" ++ operand.text
    | .logicalNot => "!" ++ operand.text
    | .convert => s!"(({header.type.text}){operand.text})"
    | .arrayLength => operand.text ++ ".Length"
  | .binary _ op left right => s!"({left.text} {op.symbol} {right.text})"
  | .conditional _ test onTrue onFalse => s!"({test.text} ? {onTrue.text} : {onFalse.text})"
  | .call _ receiver method arguments =>
    s!"{receiverText receiver}{method.name}({listText arguments})"
  | .new _ constructor arguments =>
    s!"new {constructor.declaringType.text}({listText arguments})"
  | .field _ receiver member => receiverText receiver ++ member.name
  | .index _ items position => s!"{items.text}[{position.text}]"
  | .array header elements =>
    s!"new {header.type.text} \x7b {listText elements} \x7d"
  | .assign _ target value => s!"{target.text} = {value.text}"
  | .block _ _ statements => "\x7b " ++ sequenceText statements ++ "\x7d"
  | .typeIs _ operand tested => s!"({operand.text} is {tested.text})"
  | .lambda _ parameters body => s!"({listText parameters}) => {body.text}"
  | .invoke _ target arguments => s!"({target.text})({listText arguments})"
  | .branch _ number => s!"<BranchId({number})>"

/-- The owner of a member, with the point that follows it. -/
def receiverText : Option Expr → String
  | none => ""
  | some receiver => receiver.text ++ "."

/-- Items separated by commas. -/
def listText : List Expr → String
  | [] => ""
  | [last] => last.text
  | item :: rest => item.text ++ ", " ++ listText rest

/-- Statements, each with its semicolon. -/
def sequenceText : List Expr → String
  | [] => ""
  | statement :: rest => statement.text ++ "; " ++ sequenceText rest

end

end CilLift.Expr
