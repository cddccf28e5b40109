import CilLift.Error
import CilLift.Expr

/-! The metadata behind tokens: what a token names, which bodies are known, what delegates hold. -/

namespace CilLift

/-- What a token names. -/
inductive Member where
  | type (type : TypeSig)
  | method (method : Method)
  | field (field : Field)
  | string (text : String)
  deriving DecidableEq

namespace Member

def kind : Member → MemberKind
  | .type _ => .type
  | .method _ => .method
  | .field _ => .field
  | .string _ => .string

def wrongKind (member : Member) (token : Token) (expected : MemberKind) : Error :=
  .resolution (.wrongKind token member.kind expected)

def asType (member : Member) (token : Token) : Except Error TypeSig :=
  match member with
  | .type found => .ok found
  | other => .error (other.wrongKind token .type)

def asMethod (member : Member) (token : Token) : Except Error Method :=
  match member with
  | .method found => .ok found
  | other => .error (other.wrongKind token .method)

def asField (member : Member) (token : Token) : Except Error Field :=
  match member with
  | .field found => .ok found
  | other => .error (other.wrongKind token .field)

def asString (member : Member) (token : Token) : Except Error String :=
  match member with
  | .string found => .ok found
  | other => .error (other.wrongKind token .string)

end Member

/-- What a captured delegate runs, and on which object. -/
structure DelegateTarget where
  target : Option Expr
  method : Method

/-- The host's answers to questions about metadata. -/
structure Resolver where
  resolve : Token → Instantiation → Except Error Member
  /-- The body of a delegate's method, if it can be lifted along. -/
  methodBody : Method → Except Error (Option MethodBody)
  /-- What a delegate expression holds, if that is known before it runs. -/
  capturedDelegate : Expr → Except Error (Option DelegateTarget)

/-- A resolver that answers for tokens only. -/
def Resolver.tokensOnly (resolver : Resolver) : Resolver where
  resolve := resolver.resolve
  methodBody _ := .ok none
  capturedDelegate _ := .ok none

/-- Metadata held in tables; of two entries for one token the later one counts. -/
structure MetadataTables where
  members : List (Token × Member) := []
  bodies : List (Token × MethodBody) := []
  /-- The targets of delegates held in fields. -/
  delegates : List (Token × DelegateTarget) := []

namespace MetadataTables

def addMember (tables : MetadataTables) (token : Token) (member : Member) : MetadataTables :=
  { tables with members := (token, member) :: tables.members }

def addBody (tables : MetadataTables) (token : Token) (body : MethodBody) : MetadataTables :=
  { tables with bodies := (token, body) :: tables.bodies }

def addDelegate (tables : MetadataTables) (token : Token) (target : DelegateTarget) : MetadataTables :=
  { tables with delegates := (token, target) :: tables.delegates }

def resolve (tables : MetadataTables) (token : Token) : Except Error Member :=
  match tables.members.lookup token with
  | some member => .ok member
  | none => .error (.resolution (.unknownToken token))

def capturedDelegate (tables : MetadataTables) : Expr → Option DelegateTarget
  | .field _ _ member => tables.delegates.lookup member.token
  | _ => none

def resolver (tables : MetadataTables) : Resolver where
  resolve token _ := tables.resolve token
  methodBody method := .ok (tables.bodies.lookup method.token)
  capturedDelegate expr := .ok (tables.capturedDelegate expr)

end MetadataTables

end CilLift
