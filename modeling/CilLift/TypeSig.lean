import CilLift.Power
import CilLift.Token

/-! The static types of expressions. -/

namespace CilLift

/-- The integral types with a fixed width. -/
inductive IntegerType where
  | int8
  | uint8
  | int16
  | uint16
  | int32
  | uint32
  | int64
  | uint64
  deriving DecidableEq, Repr

namespace IntegerType

def bits : IntegerType → Nat
  | .int8 | .uint8 => 8
  | .int16 | .uint16 => 16
  | .int32 | .uint32 => 32
  | .int64 | .uint64 => 64

def isSigned : IntegerType → Bool
  | .int8 | .int16 | .int32 | .int64 => true
  | .uint8 | .uint16 | .uint32 | .uint64 => false

/-- The value of the type that agrees with `value` in its low bits. -/
def wrap (type : IntegerType) (value : Int) : Int :=
  if type.isSigned then value.bmod (twoTo type.bits) else value.emod (twoTo type.bits)

def text : IntegerType → String
  | .int8 => "int8"
  | .uint8 => "uint8"
  | .int16 => "int16"
  | .uint16 => "uint16"
  | .int32 => "int32"
  | .uint32 => "uint32"
  | .int64 => "int64"
  | .uint64 => "uint64"

end IntegerType

/-- The static type of an expression. -/
inductive TypeSig where
  | void
  | bool
  | char
  | integer (type : IntegerType)
  | nativeInt
  | nativeUInt
  | float32
  | float64
  | string
  | object
  | classType (token : Token)
  | valueType (token : Token)
  | enum (token : Token) (underlying : TypeSig)
  | nullable (inner : TypeSig)
  | delegate (token : Token)
  | array (element : TypeSig)
  | methodHandle
  | typeParameter (index : Nat)
  | methodParameter (index : Nat)
  deriving DecidableEq, Repr, Inhabited

/-- The generic arguments in scope: those of the declaring type and those of the method. -/
structure Instantiation where
  typeArguments : List TypeSig := []
  methodArguments : List TypeSig := []
  deriving DecidableEq, Repr, Inhabited

def Instantiation.isEmpty (context : Instantiation) : Bool :=
  context.typeArguments.isEmpty && context.methodArguments.isEmpty

namespace TypeSig

@[match_pattern] abbrev int32 : TypeSig := .integer .int32

def isVoid : TypeSig → Bool
  | .void => true
  | _ => false

def isBool : TypeSig → Bool
  | .bool => true
  | _ => false

def isInteger : TypeSig → Bool
  | .integer _ => true
  | _ => false

def isFloat : TypeSig → Bool
  | .float32 | .float64 => true
  | _ => false

def isNumeric (type : TypeSig) : Bool :=
  type.isInteger || type.isFloat

def isPrimitive (type : TypeSig) : Bool :=
  type.isNumeric ||
    match type with
    | .bool | .char | .nativeInt | .nativeUInt => true
    | _ => false

/-- Values of these types are stored inline. -/
def isValueType (type : TypeSig) : Bool :=
  type.isPrimitive ||
    match type with
    | .valueType _ | .enum _ _ | .nullable _ => true
    | _ => false

def acceptsNull : TypeSig → Bool
  | .string | .object | .classType _ | .delegate _ | .array _ | .methodHandle | .nullable _
  | .typeParameter _ | .methodParameter _ => true
  | _ => false

def isDelegate : TypeSig → Bool
  | .delegate _ => true
  | _ => false

def isEnum : TypeSig → Bool
  | .enum _ _ => true
  | _ => false

def element? : TypeSig → Option TypeSig
  | .array element => some element
  | _ => none

/-- The type of an array's elements, the root type where the array type is not known. -/
def elementOrObject (type : TypeSig) : TypeSig :=
  type.element?.getD .object

def nullableInner? : TypeSig → Option TypeSig
  | .nullable inner => some inner
  | _ => none

/-- The underlying type of an enumeration, any other type itself. -/
def underlying : TypeSig → TypeSig
  | .enum _ underlying => underlying
  | type => type

/-- A value of type `source` can stand where `target` is expected without conversion. -/
def accepts (target source : TypeSig) : Bool :=
  target == source || (target == .object && !source.isVoid)

/-- The type with its generic parameters bound; a parameter without argument stays. -/
def instantiate (context : Instantiation) : TypeSig → TypeSig
  | .typeParameter index => context.typeArguments.getD index (.typeParameter index)
  | .methodParameter index => context.methodArguments.getD index (.methodParameter index)
  | .array element => .array (element.instantiate context)
  | .nullable inner => .nullable (inner.instantiate context)
  | type => type

def text : TypeSig → String
  | .void => "void"
  | .bool => "bool"
  | .char => "char"
  | .integer type => type.text
  | .nativeInt => "native int"
  | .nativeUInt => "native uint"
  | .float32 => "float32"
  | .float64 => "float64"
  | .string => "string"
  | .object => "object"
  | .classType token => "class " ++ token.text
  | .valueType token => "valuetype " ++ token.text
  | .enum token _ => "enum " ++ token.text
  | .nullable inner => inner.text ++ "?"
  | .delegate token => "delegate " ++ token.text
  | .array element => element.text ++ "[]"
  | .methodHandle => "method"
  | .typeParameter index => s!"!{index}"
  | .methodParameter index => s!"!!{index}"

end TypeSig

end CilLift
