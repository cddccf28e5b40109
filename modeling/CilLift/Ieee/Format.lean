import CilLift.Power

/-! Binary floating-point formats, read from and written to bit patterns by exact arithmetic. -/

namespace CilLift.Ieee

/-- A binary format, by the bits of its significand, the implied one included, and its exponent. -/
structure Format where
  precision : Nat
  exponentBits : Nat
  deriving DecidableEq, Repr

def binary32 : Format := ⟨24, 8⟩

def binary64 : Format := ⟨53, 11⟩

def Format.fractionBits (format : Format) : Nat := format.precision - 1

/-- The weight of the last bit of the smallest numbers, as a power of two. -/
def Format.leastExponent (format : Format) : Int :=
  3 - (twoTo (format.exponentBits - 1) : Int) - format.precision

def Format.infinityBits (format : Format) : Nat :=
  (twoTo format.exponentBits - 1) * twoTo format.fractionBits

def Format.signBit (format : Format) : Nat :=
  twoTo (format.fractionBits + format.exponentBits)

/-- What a bit pattern stands for; a finite number is its significand times a power of two. -/
inductive Datum where
  | nan
  | infinity (negative : Bool)
  | finite (negative : Bool) (significand : Nat) (exponent : Int)
  deriving DecidableEq, Repr

def Format.decode (format : Format) (bits : Nat) : Datum :=
  let fraction := bits % twoTo format.fractionBits
  let code := bits / twoTo format.fractionBits % twoTo format.exponentBits
  let negative := bits / format.signBit % 2 == 1
  if code = twoTo format.exponentBits - 1 then
    if fraction = 0 then .infinity negative else .nan
  else if code = 0 then .finite negative fraction format.leastExponent
  else .finite negative (twoTo format.fractionBits + fraction) (format.leastExponent + code - 1)

/-- The quotient by a power of two, rounded to nearest with ties to even. -/
def roundShift (value shift : Nat) : Nat :=
  let quotient := value / twoTo shift
  let rest := value % twoTo shift
  if twoTo shift < 2 * rest ∨ (2 * rest = twoTo shift ∧ quotient % 2 = 1) then quotient + 1
  else quotient

/-- The bits, without sign, of the number of the format nearest to `significand * 2 ^ exponent`.
A carry out of the significand lands in the exponent field, as it should. -/
def Format.magnitude (format : Format) (significand : Nat) (exponent : Int) : Nat :=
  if significand = 0 then 0
  else
    let target :=
      max format.leastExponent (exponent + (significand.log2 + 1 : Nat) - format.precision)
    let rounded :=
      if target ≤ exponent then significand * twoTo (exponent - target).toNat
      else roundShift significand (target - exponent).toNat
    min format.infinityBits ((target - format.leastExponent).toNat * twoTo format.fractionBits + rounded)

def Format.withSign (format : Format) (negative : Bool) (magnitude : Nat) : Nat :=
  if negative then format.signBit + magnitude else magnitude

def Format.encode (format : Format) : Datum → Nat
  | .nan => format.infinityBits + twoTo (format.fractionBits - 1)
  | .infinity negative => format.withSign negative format.infinityBits
  | .finite negative significand exponent =>
    format.withSign negative (format.magnitude significand exponent)

/-- The double with the value of a single. -/
def widen (bits : UInt32) : UInt64 :=
  (binary64.encode (binary32.decode bits.toNat)).toUInt64

/-- The single nearest to a double. -/
def narrow (bits : UInt64) : UInt32 :=
  (binary32.encode (binary64.decode bits.toNat)).toUInt32

/-- The double nearest to an integer. -/
def ofInt (value : Int) : UInt64 :=
  (binary64.encode (.finite (decide (value < 0)) value.natAbs 0)).toUInt64

/-- An integer limited to the signed 128-bit integers. -/
def saturate (value : Int) : Int :=
  max (-(twoTo 127 : Int)) (min ((twoTo 127 : Int) - 1) value)

/-- The integer part, limited to the signed 128-bit integers; what is no number counts as zero. -/
def Datum.truncate : Datum → Int
  | .nan => 0
  | .infinity negative => if negative then -(twoTo 127 : Int) else (twoTo 127 : Int) - 1
  | .finite negative significand exponent =>
    let whole : Nat :=
      if 0 ≤ exponent then significand * twoTo exponent.toNat
      else significand / twoTo (-exponent).toNat
    saturate (if negative then -(whole : Int) else whole)

end CilLift.Ieee
