import DashCalc.Text.Basic

/-!
# References of a formula

A formula names a field as an identifier in braces, and a parameter as a dollar sign before such
braces. `substitute` turns both into identifiers in backticks that SQL reads as one name: first the
parameters, then the fields, each pass over the whole text from left to right, and last it drops
line ends. A brace that is not closed stays as it is.

What stands between the braces may be any text without a closing brace, line ends included; blanks
around the name do not belong to it.
-/

namespace DashCalc.Formula

open DashCalc (Text)

def openBrace : Char := '\x7b'

def closeBrace : Char := '\x7d'

/-- The mark around an identifier in SQL. -/
def backtick : Char := '\x60'

/-- The name without surrounding blanks, in backticks. -/
def quoteName (name : Text) : Text := backtick :: (Text.trim name ++ [backtick])

/-- The text up to the closing brace and the text after it, if there is one. -/
def closeReference : Text → Option (Text × Text)
  | [] => none
  | c :: cs =>
    if c = closeBrace then some ([], cs)
    else (closeReference cs).map fun (name, rest) => (c :: name, rest)

theorem closeReference_length {t name rest : Text}
    (h : closeReference t = some (name, rest)) : rest.length < t.length := by
  induction t generalizing name rest with
  | nil => simp [closeReference] at h
  | cons c cs ih =>
    simp only [closeReference] at h
    split at h
    · simp only [Option.some.injEq, Prod.mk.injEq] at h
      simp [← h.2]
    · obtain ⟨⟨n, r⟩, hr, he⟩ := Option.map_eq_some_iff.1 h
      simp only [Prod.mk.injEq] at he
      have := ih hr
      simp only [← he.2, List.length_cons]
      omega

/-- Replaces every parameter reference by its quoted name. -/
def quoteParameters : Text → Text
  | [] => []
  | [c] => [c]
  | c :: d :: cs =>
    if c = '$' ∧ d = openBrace then
      match _h : closeReference cs with
      | some (name, rest) => quoteName name ++ quoteParameters rest
      | none => c :: quoteParameters (d :: cs)
    else c :: quoteParameters (d :: cs)
termination_by t => t.length
decreasing_by
  · have := closeReference_length _h
    simp only [List.length_cons]; omega
  all_goals simp

/-- Replaces every field reference by its quoted name. -/
def quoteFields : Text → Text
  | [] => []
  | c :: cs =>
    if c = openBrace then
      match _h : closeReference cs with
      | some (name, rest) => quoteName name ++ quoteFields rest
      | none => c :: quoteFields cs
    else c :: quoteFields cs
termination_by t => t.length
decreasing_by
  · have := closeReference_length _h
    simp only [List.length_cons]; omega
  all_goals simp

/-- Drops every backslash that is followed by the letter `n`, together with that letter. -/
def dropEscapedNewlines : Text → Text
  | [] => []
  | [c] => [c]
  | c :: d :: cs =>
    if c = '\\' ∧ d = 'n' then dropEscapedNewlines cs else c :: dropEscapedNewlines (d :: cs)

/-- Drops line ends, written out or escaped. -/
def dropNewlines (t : Text) : Text :=
  (dropEscapedNewlines t).filter fun c => c ≠ '\r' && c ≠ '\n'

/-- References as quoted names, on one line. -/
def substitute (t : Text) : Text := dropNewlines (quoteFields (quoteParameters t))

end DashCalc.Formula
