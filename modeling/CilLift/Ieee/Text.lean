import CilLift.Ieee.Shortest

/-! Decimal text of floating-point numbers. -/

namespace CilLift.Ieee

/-- Where positional notation is used, and whether a whole number keeps its fraction. -/
structure Layout where
  /-- The decimal exponents written positionally, first included and last excluded. -/
  positional : Option (Int × Int)
  keepFraction : Bool
  deriving DecidableEq, Repr

/-- Literals are positional from 0.0001 up to 10^16 and show at least one decimal. -/
def literalLayout : Layout := ⟨some (-4, 16), true⟩

/-- Operands are always positional and show no fraction they do not have. -/
def operandLayout : Layout := ⟨none, false⟩

def zeros (count : Nat) : List Char := List.replicate count '0'

/-- Digits with the decimal point after the first `point` of them. -/
def positionalText (keepFraction : Bool) (digits : List Char) (point : Int) : List Char :=
  if point ≤ 0 then '0' :: '.' :: zeros (-point).toNat ++ digits
  else if digits.length ≤ point.toNat then
    digits ++ zeros (point.toNat - digits.length) ++ (if keepFraction then ['.', '0'] else [])
  else digits.take point.toNat ++ '.' :: digits.drop point.toNat

def exponentText (digits : List Char) (exponent : Int) : List Char :=
  let fraction :=
    match digits.drop 1 with
    | [] => []
    | rest => '.' :: rest
  digits.take 1 ++ fraction ++ 'e' :: (toString exponent).toList

def Layout.decimalText (layout : Layout) (number : Decimal) : List Char :=
  let digits := Nat.toDigits 10 number.digits
  let point : Int := digits.length + number.exponent
  let inside :=
    match layout.positional with
    | none => true
    | some (first, last) => decide (first < point ∧ point ≤ last)
  if inside then positionalText layout.keepFraction digits point
  else exponentText digits (point - 1)

def Layout.datumText (layout : Layout) (format : Format) : Datum → String
  | .nan => "NaN"
  | .infinity negative => if negative then "-inf" else "inf"
  | .finite negative significand exponent =>
    let magnitude :=
      if significand = 0 then positionalText layout.keepFraction ['0'] 1
      else layout.decimalText (format.shortest significand exponent)
    String.ofList (if negative then '-' :: magnitude else magnitude)

def Layout.singleText (layout : Layout) (bits : UInt32) : String :=
  layout.datumText binary32 (binary32.decode bits.toNat)

def Layout.doubleText (layout : Layout) (bits : UInt64) : String :=
  layout.datumText binary64 (binary64.decode bits.toNat)

end CilLift.Ieee
