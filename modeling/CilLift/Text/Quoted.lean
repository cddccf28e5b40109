import CilLift.Text.Hex
import CilLift.Text.Printable

/-! Quoted text: characters and strings between quotes, with escapes. -/

namespace CilLift.Text

/-- One character inside text delimited by `delimiter`. -/
def escape (delimiter character : Char) : String :=
  if character = '\x00' then "\\0"
  else if character = '\t' then "\\t"
  else if character = '\n' then "\\n"
  else if character = '\r' then "\\r"
  else if character = '\\' || character = delimiter then
    String.ofList ['\\', character]
  else if isPrintable character then String.singleton character
  else "\\u\x7b" ++ hex 1 character.toNat ++ "\x7d"

def quoteWith (delimiter : Char) (characters : List Char) : String :=
  String.singleton delimiter ++ String.join (characters.map (escape delimiter)) ++
    String.singleton delimiter

/-- A string between double quotes. -/
def quote (text : String) : String :=
  quoteWith '"' text.toList

/-- A UTF-16 code unit between single quotes; a surrogate is shown by four hexadecimal digits. -/
def quoteUnit (unit : UInt16) : String :=
  if 0xd800 ≤ unit.toNat ∧ unit.toNat ≤ 0xdfff then
    "'\\u" ++ hex 4 unit.toNat ++ "'"
  else
    quoteWith '\'' [Char.ofNat unit.toNat]

/-- Items between brackets, separated by commas. -/
def bracketed (items : List String) : String :=
  "[" ++ String.intercalate ", " items ++ "]"

def truth (value : Bool) : String := if value then "true" else "false"

/-- A named record with its fields in order. -/
def record (name : String) (fields : List String) : String :=
  name ++ " \x7b " ++ String.intercalate ", " fields ++ " \x7d"

end CilLift.Text
