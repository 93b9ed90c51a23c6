/-!
# Binary numbers taken apart

A double is not a number, infinite, or a mantissa times a power of two. The texts of a double are
defined on these parts, in exact arithmetic of natural numbers.
-/

namespace DashCalc.Decimal

/-- What a double stands for; a finite one is `mantissa * 2 ^ exponent` with a sign. -/
inductive Binary
  | notANumber
  | infinite (negative : Bool)
  | finite (negative : Bool) (mantissa : Nat) (exponent : Int)
  deriving DecidableEq

/-- The exponent of the smallest positive double. -/
def leastExponent : Int := -1074

/-- The number with these 64 bits: a sign, eleven bits of exponent, 52 bits of fraction. -/
def Binary.ofBits (bits : Nat) : Binary :=
  let negative := bits / Nat.pow 2 63 % 2 == 1
  let biased : Nat := bits / Nat.pow 2 52 % Nat.pow 2 11
  let fraction : Nat := bits % Nat.pow 2 52
  if biased = 2047 then (if fraction = 0 then infinite negative else notANumber)
  else if biased = 0 then finite negative fraction leastExponent
  else finite negative (Nat.pow 2 52 + fraction) ((biased : Int) - 1075)

/-- The parts of a double. -/
def Binary.ofFloat (x : Float) : Binary := ofBits x.toBits.toNat

/-- The double next to an integer of at most 64 bits. -/
def floatOfInt (n : Int) : Float :=
  if 0 ≤ n then n.toNat.toUInt64.toFloat else -(-n).toNat.toUInt64.toFloat

/-- The quotient rounded to the nearest natural number, a tie to the even one. -/
def roundDiv (numerator denominator : Nat) : Nat :=
  let quotient := numerator / denominator
  let twice := 2 * (numerator % denominator)
  if denominator < twice || (twice == denominator && quotient % 2 == 1) then quotient + 1
  else quotient

end DashCalc.Decimal
