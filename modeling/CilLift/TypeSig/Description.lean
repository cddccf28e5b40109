import CilLift.Text.Quoted
import CilLift.TypeSig

/-! Types with their structure spelled out. -/

namespace CilLift

def IntegerType.all : List IntegerType :=
  [.int8, .uint8, .int16, .uint16, .int32, .uint32, .int64, .uint64]

def IntegerType.description : IntegerType → String
  | .int8 => "I8"
  | .uint8 => "U8"
  | .int16 => "I16"
  | .uint16 => "U16"
  | .int32 => "I32"
  | .uint32 => "U32"
  | .int64 => "I64"
  | .uint64 => "U64"

def TypeSig.description : TypeSig → String
  | .void => "Void"
  | .bool => "Bool"
  | .char => "Char"
  | .integer type => type.description
  | .nativeInt => "NativeInt"
  | .nativeUInt => "NativeUInt"
  | .float32 => "F32"
  | .float64 => "F64"
  | .string => "String"
  | .object => "Object"
  | .classType token => s!"Class(TypeRef({token.description}))"
  | .valueType token => s!"ValueType(TypeRef({token.description}))"
  | .enum token underlying =>
    Text.record "Enum" [
      s!"ty: TypeRef({token.description})", s!"underlying: {underlying.description}"]
  | .nullable inner => s!"Nullable({inner.description})"
  | .delegate token => s!"Delegate(TypeRef({token.description}))"
  | .array element => s!"Array({element.description})"
  | .methodHandle => "MethodHandle"
  | .typeParameter index => s!"GenericParam({index})"
  | .methodParameter index => s!"MethodGenericParam({index})"

def Instantiation.description (context : Instantiation) : String :=
  let types := Text.bracketed (context.typeArguments.map TypeSig.description)
  let methods := Text.bracketed (context.methodArguments.map TypeSig.description)
  Text.record "GenericContext" [s!"type_args: {types}", s!"method_args: {methods}"]

end CilLift
