import DashCalc.Text.Ranges

/-!
# Character classes

The classes that formulas and SQL text are read with. A blank has the property White_Space, a
word character is what an identifier of a formula is made of, and an alphanumeric character is a
letter or a number of any script. Characters below U+0080 are decided without the tables;
`isWordChar_ascii` and `isAlphanumeric_ascii` say how.
-/

namespace DashCalc.Text

/-- Whether a code point lies in one of the ranges. -/
def inRanges (ranges : List (Nat × Nat)) (code : Nat) : Bool :=
  ranges.any fun (low, high) => low ≤ code && code ≤ high

/-- The property White_Space. -/
def isBlank (c : Char) : Bool :=
  let code := c.toNat
  (0x9 ≤ code && code ≤ 0xD) || code == 0x20 || code == 0x85 || code == 0xA0 || code == 0x1680 ||
    (0x2000 ≤ code && code ≤ 0x200A) || code == 0x2028 || code == 0x2029 || code == 0x202F ||
    code == 0x205F || code == 0x3000

/-- The property Alphabetic. -/
def isAlphabetic (c : Char) : Bool :=
  if c.toNat < 0x80 then c.isAlpha else inRanges Ranges.alphabetic c.toNat

/-- A decimal digit, a letter-like number or another number. -/
def isNumeric (c : Char) : Bool :=
  if c.toNat < 0x80 then c.isDigit
  else inRanges Ranges.decimalDigit c.toNat || inRanges Ranges.letterNumber c.toNat ||
    inRanges Ranges.otherNumber c.toNat

/-- A letter or a number of any script. -/
def isAlphanumeric (c : Char) : Bool :=
  if c.toNat < 0x80 then c.isAlphanum else isAlphabetic c || isNumeric c

/-- What the name of a function is made of: letters, marks, decimal digits, connectors and the two
join controls, as far as version 16 of the standard had them. -/
def isWordChar (c : Char) : Bool :=
  if c.toNat < 0x80 then c.isAlphanum || c == '_'
  else !inRanges Ranges.newest c.toNat &&
    (isAlphabetic c || inRanges Ranges.mark c.toNat || inRanges Ranges.decimalDigit c.toNat ||
      inRanges Ranges.connector c.toNat || c.toNat == 0x200C || c.toNat == 0x200D)

theorem isWordChar_ascii {c : Char} (h : c.toNat < 0x80) :
    isWordChar c = (c.isAlphanum || c == '_') := by
  simp [isWordChar, h]

theorem isAlphanumeric_ascii {c : Char} (h : c.toNat < 0x80) :
    isAlphanumeric c = c.isAlphanum := by
  simp [isAlphanumeric, h]

/-- White space of the core library is blank. -/
theorem isBlank_of_isWhitespace {c : Char} (h : c.isWhitespace = true) : isBlank c = true := by
  simp only [Char.isWhitespace, Bool.or_eq_true, decide_eq_true_eq] at h
  rcases h with ((h | h) | h) | h <;> subst h <;> decide

end DashCalc.Text
