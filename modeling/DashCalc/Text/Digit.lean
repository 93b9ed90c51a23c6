/-!
# Digits

The values of ASCII digits up to base sixteen, and the numbers and characters they spell.
-/

namespace DashCalc.Text

/-- The value of a digit below a base of at most sixteen, letters in either case. -/
def digit? (base : Nat) (c : Char) : Option Nat :=
  let value :=
    if '0' ≤ c && c ≤ '9' then some (c.toNat - '0'.toNat)
    else if 'a' ≤ c && c ≤ 'f' then some (c.toNat - 'a'.toNat + 10)
    else if 'A' ≤ c && c ≤ 'F' then some (c.toNat - 'A'.toNat + 10)
    else none
  value.filter (· < base)

/-- Whether the character is a hexadecimal digit. -/
def isHexDigit (c : Char) : Bool := (digit? 16 c).isSome

/-- The number that digits spell, the first one counting most. -/
def ofDigits (base : Nat) (digits : List Nat) : Nat := digits.foldl (fun n d => n * base + d) 0

/-- The number that the characters spell, if all of them are digits. -/
def number? (base : Nat) (digits : List Char) : Option Nat :=
  (digits.mapM (digit? base)).map (ofDigits base)

/-- The character with a code, if there is one. -/
def ofCode? (code : Nat) : Option Char :=
  if code.isValidChar then some (Char.ofNat code) else none

end DashCalc.Text
