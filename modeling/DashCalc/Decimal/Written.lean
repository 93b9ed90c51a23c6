import DashCalc.Decimal.Shortest
import DashCalc.Text.Basic

/-!
# Numbers as text

`Format` says how the shortest decimal of a double is laid out; `Format.write` writes it. `fixed`
writes a number with a given count of places behind the point, rounded from its exact value with
ties to the even digit.
-/

namespace DashCalc.Decimal

open DashCalc (Text)

/-- How a double is written. -/
structure Format where
  tie : Tie
  /-- Whether a number with this many places before the point is written without an exponent. -/
  positional : Int → Bool
  /-- Whether a whole number ends in `.0`. -/
  marksWhole : Bool
  notANumber : Text
  infinity : Text

/-- That many zeros. -/
def zeros (n : Int) : Text := List.replicate n.toNat '0'

/-- The number without an exponent. -/
def writePositional (marksWhole : Bool) (n : Scaled) : Text :=
  let digits := Nat.toDigits 10 n.significand
  let places : Int := digits.length + n.exponent
  if 0 ≤ n.exponent then
    digits ++ zeros n.exponent ++ (if marksWhole then ['.', '0'] else [])
  else if 0 < places then digits.take places.toNat ++ '.' :: digits.drop places.toNat
  else '0' :: '.' :: (zeros (-places) ++ digits)

/-- The number with one digit before the point and an exponent, which always has a sign. -/
def writeScientific (n : Scaled) : Text :=
  let digits := Nat.toDigits 10 n.significand
  let power : Int := digits.length + n.exponent - 1
  let front := match digits with
    | d :: e :: rest => d :: '.' :: e :: rest
    | short => short
  front ++ 'e' :: (if power < 0 then '-' else '+') :: (toString power.natAbs).toList

/-- The sign of a number. -/
def sign (negative : Bool) : Text := if negative then ['-'] else []

/-- The text of a double. -/
def Format.write (f : Format) (x : Float) : Text :=
  match Binary.ofFloat x with
  | .notANumber => f.notANumber
  | .infinite negative => sign negative ++ f.infinity
  | .finite negative mantissa exponent =>
    let n := shortest f.tie mantissa exponent
    let places : Int := (Nat.toDigits 10 n.significand).length + n.exponent
    sign negative ++
      (if f.positional places then writePositional f.marksWhole n else writeScientific n)

/-- Decimal notation as people write it: never an exponent, and no point in a whole number. -/
def plain : Format := ⟨.up, fun _ => true, false, "NaN".toList, "inf".toList⟩

/-- The number with this many places behind the point. -/
def fixed (places : Nat) (x : Float) : Text :=
  match Binary.ofFloat x with
  | .notANumber => plain.notANumber
  | .infinite negative => sign negative ++ plain.infinity
  | .finite negative mantissa exponent =>
    let scaled := roundDiv (mantissa * Nat.pow 2 exponent.toNat * Nat.pow 10 places)
      (Nat.pow 2 (-exponent).toNat)
    let digits := Nat.toDigits 10 scaled
    let padded := zeros (places + 1 - digits.length) ++ digits
    let whole := padded.length - places
    sign negative ++ padded.take whole ++
      (if places = 0 then [] else '.' :: padded.drop whole)

end DashCalc.Decimal
