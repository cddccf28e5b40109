/-! Hexadecimal text of natural numbers. -/

namespace CilLift.Text

/-- The lower case hexadecimal digits of `number`, padded with zeros to at least `width` digits. -/
def hexDigits (width number : Nat) : List Char :=
  let digits := Nat.toDigits 16 number
  List.replicate (width - digits.length) '0' ++ digits

def hex (width number : Nat) : String :=
  String.ofList (hexDigits width number)

/-- A code offset as error messages show it. -/
def offset (position : Nat) : String :=
  "0x" ++ hex 4 position

end CilLift.Text
