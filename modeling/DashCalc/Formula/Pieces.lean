import DashCalc.Text.Basic

/-!
# Pieces of an argument text

The arguments of a call are separated by commas. A comma inside a quoted run or between brackets
does not separate. `pieces` cuts at the others and trims each piece; a blank text has no pieces.

The scan keeps the quote that is open and the number of opened brackets less the number of closed
ones, which goes below zero in a text that closes more than it opens: such a text is cut where the
number is zero again.
-/

namespace DashCalc.Formula

open DashCalc (Text)

/-- What the scan knows at a place of the text: the open quote and the bracket depth. -/
structure Nesting where
  quote : Option Char
  depth : Int
  deriving DecidableEq

namespace Nesting

/-- Outside quotes and brackets. -/
def top : Nesting := ⟨none, 0⟩

/-- Whether the character opens a quoted run. -/
def isQuote (c : Char) : Bool := c = '\x27' || c = '\x22' || c = '\x60'

/-- The nesting after a character. A quoted run ends at the next quote of its kind. -/
def after (n : Nesting) (c : Char) : Nesting :=
  match n.quote with
  | some q => if c = q then ⟨none, n.depth⟩ else n
  | none =>
    if isQuote c then ⟨some c, n.depth⟩
    else if c = '(' || c = '[' then ⟨none, n.depth + 1⟩
    else if c = ')' || c = ']' then ⟨none, n.depth - 1⟩
    else n

/-- Whether the character separates pieces here. -/
def separates (n : Nesting) (c : Char) : Bool := n.quote.isNone && n.depth == 0 && c == ','

end Nesting

/-- The segments between separating commas, untrimmed, the first one first; there is always one. -/
def segments (n : Nesting) : Text → List Text
  | [] => [[]]
  | c :: cs =>
    if n.separates c then [] :: segments n cs
    else match segments (n.after c) cs with
      | [] => [[c]]
      | s :: ss => (c :: s) :: ss

theorem segments_ne_nil (n : Nesting) (t : Text) : segments n t ≠ [] := by
  cases t with
  | nil => simp [segments]
  | cons c cs =>
    simp only [segments]
    split
    · simp
    · split <;> simp

def pieces (t : Text) : List Text :=
  if Text.isBlankText t then [] else (segments .top t).map Text.trim

theorem pieces_of_isBlankText {t : Text} (h : Text.isBlankText t = true) : pieces t = [] := by
  simp [pieces, h]

end DashCalc.Formula
