import CilLift.Instruction
import CilLift.Member

/-! The ways in which reading, writing or lifting code fails, and their wording. -/

namespace CilLift

/-- An operand that an opcode cannot be written with. -/
inductive OperandFault where
  | exceedsInt8
  | exceedsUInt8
  | tooManyTargets
  | wrongKind (expected : OperandKind) (found : Operand)
  | notBranch
  | unreachable (label : String) (distance : Int)
  deriving DecidableEq

def OperandFault.message : OperandFault → String
  | .exceedsInt8 => "value exceeds int8"
  | .exceedsUInt8 => "index exceeds uint8"
  | .tooManyTargets => "too many switch targets"
  | .wrongKind expected found =>
    s!"expected a {expected.name} operand, got {found.description}"
  | .notBranch => "not a branch instruction"
  | .unreachable label distance => s!"label '{label}' is {distance} bytes away"

/-- What a token can name. -/
inductive MemberKind where
  | type
  | method
  | field
  | string
  deriving DecidableEq, Repr

def MemberKind.name : MemberKind → String
  | .type => "type"
  | .method => "method"
  | .field => "field"
  | .string => "string"

inductive ResolutionFault where
  | unknownToken (token : Token)
  | wrongKind (token : Token) (found expected : MemberKind)
  deriving DecidableEq, Repr

def ResolutionFault.message : ResolutionFault → String
  | .unknownToken token => s!"unknown token {token.text}"
  | .wrongKind token found expected =>
    s!"token {token.text} resolved to a {found.name}, expected a {expected.name}"

/-- A stack or a control flow that does not have the shape an instruction needs. -/
inductive ShapeFault where
  | operandMismatch (mnemonic : String) (operand : Operand)
  | branchAsValue (target : TypeSig)
  | noWaiter (label : Label)
  | placeholderExpected (branch : Nat) (label : Label) (found : Option String)
  | oneSidedValue (branch : Nat) (label : Label)
  | noValueLeft (returnType : TypeSig)
  | noValueProduced (returnType : TypeSig)
  | branchConsumed (consumer : String) (offset : Nat)
  | stackUnderflow (consumer : String) (offset : Nat)
  | noSuchLocal (index offset : Nat)
  | noSuchArgument (index : Nat) (method : Method) (offset : Nat)
  | localUnassigned (index offset : Nat)
  | duplicateOfNothing (offset : Nat)
  | storeIndexNotConstant (offset : Nat) (index : String)
  | storeWithoutArray (offset : Nat)
  | storeWithoutDuplicate (offset : Nat)
  | storeIndexOutOfRange (index : Int) (offset : Nat)
  | arrayLengthNotConstant (offset : Nat) (length : String)
  | arrayLengthNegative (offset : Nat)
  | delegateArgumentCount (constructor : Method) (count : Nat)
  | delegateWithoutHandle (constructor : Method)
  | pathsNeverJoin (label : Label)
  | endUnreachable (method : Method)
  | tooManyParameters (method : Method)
  deriving DecidableEq

def ShapeFault.message : ShapeFault → String
  | .operandMismatch mnemonic operand => s!"{mnemonic} with operand {operand.text}"
  | .branchAsValue target => s!"Unmerged branch used as a value of type {target.text}"
  | .noWaiter label => s!"No stack waits at {label.text}"
  | .placeholderExpected branch label found =>
    let shown :=
      match found with
      | none => "None"
      | some text => s!"Some({Text.quote text})"
    s!"Expected the placeholder of BranchId({branch}) at {label.text}, found {shown}"
  | .oneSidedValue branch label =>
    s!"Only one side of BranchId({branch}) left a value at {label.text}"
  | .noValueLeft returnType => s!"Method returning {returnType.text} leaves no value"
  | .noValueProduced returnType => s!"Method returning {returnType.text} produces no value"
  | .branchConsumed consumer offset =>
    s!"{consumer} at offset {Text.offset offset} consumes an unmerged branch"
  | .stackUnderflow consumer offset =>
    s!"Stack underflow in {consumer} at offset {Text.offset offset}"
  | .noSuchLocal index offset =>
    s!"Local {index} does not exist (offset {Text.offset offset})"
  | .noSuchArgument index method offset =>
    s!"Argument {index} does not exist in {method.text} (offset {Text.offset offset})"
  | .localUnassigned index offset =>
    s!"Local {index} read before assignment at offset {Text.offset offset}"
  | .duplicateOfNothing offset => s!"dup on an empty stack at offset {Text.offset offset}"
  | .storeIndexNotConstant offset index =>
    s!"stelem at offset {Text.offset offset} with non constant index {index}"
  | .storeWithoutArray offset =>
    s!"stelem at offset {Text.offset offset} does not follow its newarr"
  | .storeWithoutDuplicate offset =>
    s!"stelem at offset {Text.offset offset} is not preceded by dup of its array"
  | .storeIndexOutOfRange index offset =>
    s!"stelem index {index} out of range at offset {Text.offset offset}"
  | .arrayLengthNotConstant offset length =>
    s!"newarr at offset {Text.offset offset} with non constant length {length}"
  | .arrayLengthNegative offset =>
    s!"newarr with negative length at offset {Text.offset offset}"
  | .delegateArgumentCount constructor count =>
    s!"Delegate constructor {constructor.text} takes {count} arguments, expected 2"
  | .delegateWithoutHandle constructor =>
    s!"Delegate constructor {constructor.text} without a method handle"
  | .pathsNeverJoin label => s!"Paths jumping to {label.text} never join"
  | .endUnreachable method => s!"No path reaches the end of {method.text}"
  | .tooManyParameters method => s!"{method.text} declares too many parameters"

inductive Error where
  | unsupportedInstruction (mnemonic : String) (offset : Nat)
  | backwardBranch (offset target : Nat)
  | shape (fault : ShapeFault)
  | resolution (fault : ResolutionFault)
  | unmergedPaths (label : Label)
  | outOfBounds
  | invalidCoercion (source target : TypeSig)
  /-- A captured delegate runs a method whose body is not known. -/
  | delegateWithoutBody (delegate : String) (method : Method)
  | undefinedLabel (name : String)
  | duplicateLabel (name : String)
  | invalidOperand (mnemonic : String) (fault : OperandFault)
  /-- Delegate bodies are nested deeper than the lifting follows them. -/
  | nestingLimit
  /-- The forks above a path lead back to it, so that counting them does not end. -/
  | cyclicForks
  deriving DecidableEq

def Error.message : Error → String
  | .unsupportedInstruction mnemonic offset =>
    s!"Unsupported instruction '{mnemonic}' at offset {Text.offset offset}"
  | .backwardBranch offset target =>
    s!"Backward branch from {Text.offset offset} to {Text.offset target} " ++
      "(loops are not supported)"
  | .shape fault => fault.message
  | .resolution fault => "Resolution failed - " ++ fault.message
  | .unmergedPaths label =>
    s!"Could not merge the control flow paths joining at {label.text}"
  | .outOfBounds => "Out of Bound read would have occurred!"
  | .invalidCoercion source target =>
    s!"Cannot convert a value of type {source.text} to {target.text}"
  | .delegateWithoutBody delegate method =>
    s!"Invalid delegate target - {delegate} evaluated to {method.text} which has no body"
  | .undefinedLabel name => "Undefined label - " ++ name
  | .duplicateLabel name => "Duplicate label - " ++ name
  | .invalidOperand mnemonic fault => s!"Invalid operand for '{mnemonic}' - " ++ fault.message
  | .nestingLimit => "Delegate bodies are nested too deeply"
  | .cyclicForks => "The forks above a path form a cycle"

end CilLift
