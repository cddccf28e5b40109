import CilLift.Ieee.Format

/-!
The fewest decimal digits that read back as a given binary number: the coarsest decimal grid that
meets the interval of reals rounding to the number, and on that grid the point nearest to it.
-/

namespace CilLift.Ieee

/-- The number `digits * 10 ^ exponent`. -/
structure Decimal where
  digits : Nat
  exponent : Int
  deriving DecidableEq, Repr

/-- A positive number and the reals that round to it, in units of a quarter of its last place. -/
structure Neighbourhood where
  value : Nat
  below : Nat
  above : Nat
  closed : Bool
  exponent : Int
  deriving DecidableEq, Repr

def Format.neighbourhood (format : Format) (significand : Nat) (exponent : Int) :
    Neighbourhood where
  value := 4 * significand
  below :=
    if significand = twoTo format.fractionBits ∧ format.leastExponent < exponent then 1 else 2
  above := 2
  closed := significand % 2 == 0
  exponent := exponent - 2

/-- The common factor of the neighbourhood's numerators on the grid of `10 ^ scale`. -/
def Neighbourhood.unit (area : Neighbourhood) (scale : Int) : Nat :=
  twoTo area.exponent.toNat * tenTo (-scale).toNat

/-- The length of one grid step in the same terms. -/
def Neighbourhood.step (area : Neighbourhood) (scale : Int) : Nat :=
  twoTo (-area.exponent).toNat * tenTo scale.toNat

/-- Whether a distance stays inside the interval's end. -/
def Neighbourhood.reaches (area : Neighbourhood) (distance limit : Nat) : Bool :=
  decide (distance < limit) || (area.closed && distance == limit)

/-- The point of the grid of `10 ^ scale` in the interval that is nearest to the value, a tie
going up. Only the two grid points around the value can be it. -/
def Neighbourhood.gridPoint? (area : Neighbourhood) (scale : Int) : Option Nat :=
  let unit := area.unit scale
  let step := area.step scale
  let lower := area.value * unit / step
  let rest := area.value * unit % step
  let down := area.reaches rest (area.below * unit)
  let up := area.reaches (step - rest) (area.above * unit)
  if up && (!down || decide (step ≤ 2 * rest)) then some (lower + 1)
  else if down then some lower
  else none

/-- The number of decimal digits, none for zero. -/
def digitCount (number : Nat) : Nat :=
  if number = 0 then 0 else (Nat.toDigits 10 number).length

/-- A power of ten above the value, at most ten times as large. -/
def Neighbourhood.topScale (area : Neighbourhood) : Int :=
  let numerator := area.value * area.unit 0
  let denominator := area.step 0
  if denominator ≤ numerator then digitCount (numerator / denominator)
  else 1 - (digitCount ((denominator - 1) / numerator) : Int)

/-- Tries the grids from `scale` on, each ten times finer than the one before. -/
def Neighbourhood.search (area : Neighbourhood) (scale : Int) : Nat → Decimal
  | 0 => ⟨area.value * area.unit scale / area.step scale, scale⟩
  | attempts + 1 =>
    match area.gridPoint? scale with
    | some digits => ⟨digits, scale⟩
    | none => area.search (scale - 1) attempts

/-- Twenty grids suffice: seventeen digits tell any two doubles apart. -/
def Format.shortest (format : Format) (significand : Nat) (exponent : Int) : Decimal :=
  let area := format.neighbourhood significand exponent
  area.search area.topScale 20

end CilLift.Ieee
