import CilLift.Ieee.Text
import CilLift.Member
import CilLift.Text.Quoted
import CilLift.TypeSig.Description

/-! Literal values. -/

namespace CilLift

inductive Constant where
  | null
  | bool (value : Bool)
  /-- A UTF-16 code unit. -/
  | char (unit : UInt16)
  | integer (type : IntegerType) (value : Int)
  | single (bits : UInt32)
  | double (bits : UInt64)
  | string (text : String)
  /-- A method handle. -/
  | method (method : Method)
  /-- The value of a structure whose bits are all zero. -/
  | zeroed
  deriving DecidableEq

namespace Constant

/-- The integral constant of a type that agrees with `value` in its low bits. -/
def ofInt? (value : Int) (type : TypeSig) : Option Constant :=
  match type.underlying with
  | .char => some (.char (value.emod 65536).toNat.toUInt16)
  | .integer integerType => some (.integer integerType (integerType.wrap value))
  | _ => none

/-- The value of a type whose bits are all zero. -/
def zeroOf (type : TypeSig) : Constant :=
  match type.underlying with
  | .bool => .bool false
  | .char => .char 0
  | .integer integerType => .integer integerType 0
  | .float32 => .single 0
  | .float64 => .double 0
  | other => if other.acceptsNull then .null else .zeroed

/-- The number of an integral, character or boolean constant. -/
def toInt? : Constant → Option Int
  | .bool value => some (if value then 1 else 0)
  | .char unit => some unit.toNat
  | .integer _ value => some value
  | _ => none

/-- The double nearest to a numeric constant. -/
def toDouble? : Constant → Option UInt64
  | .single bits => some (Ieee.widen bits)
  | .double bits => some bits
  | other => other.toInt?.map Ieee.ofInt

/-- The number of a constant with its fraction cut off. -/
def truncated? : Constant → Option Int
  | .single bits => some (Ieee.binary32.decode bits.toNat).truncate
  | .double bits => some (Ieee.binary64.decode bits.toNat).truncate
  | other => other.toInt?

def integerText (type : IntegerType) (value : Int) : String :=
  match type with
  | .uint32 => s!"{value}u"
  | .int64 => s!"{value}L"
  | .uint64 => s!"{value}UL"
  | _ => toString value

def text : Constant → String
  | .null => "null"
  | .bool value => if value then "true" else "false"
  | .char unit => Text.quoteUnit unit
  | .integer type value => integerText type value
  | .single bits => Ieee.literalLayout.singleText bits ++ "f"
  | .double bits => Ieee.literalLayout.doubleText bits
  | .string value => Text.quote value
  | .method handle => "&" ++ handle.name
  | .zeroed => "default"

def kind : Constant → String
  | .null => "Null"
  | .bool _ => "Bool"
  | .char _ => "Char"
  | .integer type _ => type.description
  | .single _ => "F32"
  | .double _ => "F64"
  | .string _ => "String"
  | .method _ => "Method"
  | .zeroed => "Default"

end Constant

end CilLift
