import CilLift.TypeSig

/-! Methods, fields and method bodies, as metadata describes them. -/

namespace CilLift

structure Parameter where
  name : String
  type : TypeSig
  /-- The parameter collects the remaining arguments of a call into an array. -/
  isParamArray : Bool := false
  deriving DecidableEq, Repr

structure MethodFlags where
  isStatic : Bool := false
  isConstructor : Bool := false
  /-- The method returns the shared empty array of its element type. -/
  isArrayEmpty : Bool := false
  /-- The method tells whether a nullable value is present. -/
  isNullableHasValue : Bool := false
  isCompilerGenerated : Bool := false
  deriving DecidableEq, Repr

structure Method where
  token : Token
  name : String
  declaringType : TypeSig := .object
  parameters : List Parameter := []
  returnType : TypeSig
  flags : MethodFlags := {}
  deriving DecidableEq, Repr

namespace Method

def isStatic (method : Method) : Bool := method.flags.isStatic

def isConstructor (method : Method) : Bool := method.flags.isConstructor

def isDelegateConstructor (method : Method) : Bool :=
  method.isConstructor && method.declaringType.isDelegate

/-- The instance methods of a delegate type that run it all end in the same word. -/
def isDelegateInvoke (method : Method) : Bool :=
  !method.isStatic && method.declaringType.isDelegate && "Invoke".toList.isSuffixOf method.name.toList

/-- The signature of the method. -/
def text (method : Method) : String :=
  let types := String.intercalate ", " (method.parameters.map fun parameter => parameter.type.text)
  s!"{method.returnType.text} {method.name}({types})"

end Method

structure FieldFlags where
  isStatic : Bool := false
  isCompilerGenerated : Bool := false
  deriving DecidableEq, Repr

structure Field where
  token : Token
  name : String
  declaringType : TypeSig := .object
  type : TypeSig
  flags : FieldFlags := {}
  deriving DecidableEq, Repr

def Field.isStatic (field : Field) : Bool := field.flags.isStatic

/-- Fields that a compiler adds hold closures and caches the source never mentions. -/
def Field.isSynthetic (field : Field) : Bool := field.flags.isCompilerGenerated

structure MethodBody where
  code : List UInt8
  maxStack : Nat := 8
  locals : List TypeSig := []
  deriving DecidableEq, Repr

end CilLift
