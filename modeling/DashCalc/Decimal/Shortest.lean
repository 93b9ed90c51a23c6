import DashCalc.Decimal.Binary

/-!
# The shortest decimal of a double

Among the decimals that read back as a given double, `shortest` picks one with the fewest digits,
and of these the nearest. The decimals that read back fill an interval around the double, half way
to its neighbours, with its ends exactly if the mantissa is even. For one digit, two digits and so
on up to seventeen, the two neighbours of the value on the grid of such decimals are tested; if a
point of a grid lies in the interval, so does one of these two.
-/

namespace DashCalc.Decimal

/-- The number `significand * 10 ^ exponent`. -/
structure Scaled where
  significand : Nat
  exponent : Int
  deriving DecidableEq

/-- Which of two decimals that are equally near is taken. -/
inductive Tie
  | toEven | up
  deriving DecidableEq

/-- A value and the ends of an interval around it, all three in units of `2 ^ exponent`. -/
structure Interval where
  low : Nat
  value : Nat
  high : Nat
  exponent : Int
  closed : Bool

/-- The interval of the reals that round to `mantissa * 2 ^ exponent`. Below a power of two the
doubles lie twice as close. -/
def Interval.around (mantissa : Nat) (exponent : Int) : Interval :=
  let below := if mantissa = Nat.pow 2 52 ∧ leastExponent < exponent then 1 else 2
  ⟨4 * mantissa - below, 4 * mantissa, 4 * mantissa + 2, exponent - 2, mantissa % 2 = 0⟩

/-- How many decimal places before the point the value has; zero or less if it begins behind the
point. Every positive double is above `10 ^ (-324)`. -/
def Interval.places (i : Interval) : Int :=
  let scale := Nat.pow 10 324
  let shifted := i.value * Nat.pow 2 i.exponent.toNat * scale / Nat.pow 2 (-i.exponent).toNat
  (Nat.toDigits 10 shifted).length - 324

/-- The neighbour of the value among the multiples of `10 ^ exponent` that lies in the interval; of
two such the nearer. -/
def Interval.nearestOn (i : Interval) (tie : Tie) (exponent : Int) : Option Nat :=
  let grid := Nat.pow 10 exponent.toNat * Nat.pow 2 (-i.exponent).toNat
  let unit := Nat.pow 2 i.exponent.toNat * Nat.pow 10 (-exponent).toNat
  let below := i.value * unit / grid
  let inside (n : Nat) : Bool :=
    if i.closed then i.low * unit ≤ n * grid && n * grid ≤ i.high * unit
    else i.low * unit < n * grid && n * grid < i.high * unit
  let twice := 2 * (i.value * unit % grid)
  let upIsNearer : Bool :=
    grid < twice || (twice == grid && (tie == .up || below % 2 == 1))
  match inside below, inside (below + 1) with
  | true, true => some (if upIsNearer then below + 1 else below)
  | true, false => some below
  | false, true => some (below + 1)
  | false, false => none

/-- The number without zeros at the end of its significand. -/
def Scaled.stripZeros (fuel : Nat) (n : Scaled) : Scaled :=
  match fuel with
  | 0 => n
  | fuel + 1 =>
    if n.significand ≠ 0 ∧ n.significand % 10 = 0 then
      stripZeros fuel ⟨n.significand / 10, n.exponent + 1⟩
    else n

/-- The shortest decimal that reads back as `mantissa * 2 ^ exponent`; zero is written as one
digit. -/
def shortest (tie : Tie) (mantissa : Nat) (exponent : Int) : Scaled :=
  if mantissa = 0 then ⟨0, 0⟩
  else
    let i := Interval.around mantissa exponent
    let found := (List.range 17).findSome? fun (n : Nat) =>
      let place := i.places - (n + 1)
      (i.nearestOn tie place).map fun significand => Scaled.mk significand place
    (found.getD ⟨0, 0⟩).stripZeros 17

end DashCalc.Decimal
