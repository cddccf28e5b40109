/-! Powers of two and of ten. -/

namespace CilLift

/-- The power of two with the given exponent. -/
abbrev twoTo (exponent : Nat) : Nat := Nat.pow 2 exponent

/-- The power of ten with the given exponent. -/
abbrev tenTo (exponent : Nat) : Nat := Nat.pow 10 exponent

end CilLift
