import DashCalc.Text.CharClass

/-!
# Text as a list of characters

Formulas and SQL are taken apart and put together character by character, so text is a
`List Char` there. Trimming removes blanks at both ends and nothing else (`trim_eq_self`); letter
case is that of ASCII, other characters keep theirs.
-/

namespace DashCalc

/-- A text, character by character. -/
abbrev Text := List Char

namespace Text

def trimStart (t : Text) : Text := t.dropWhile isBlank

def trimEnd (t : Text) : Text := (t.reverse.dropWhile isBlank).reverse

/-- Removes the blanks at both ends. -/
def trim (t : Text) : Text := trimEnd (trimStart t)

/-- Whether there is nothing but blanks. -/
def isBlankText (t : Text) : Bool := t.all isBlank

def upper (t : Text) : Text := t.map Char.toUpper

def lower (t : Text) : Text := t.map Char.toLower

/-- The texts one after another with a separator between neighbours. -/
def joinWith (separator : Text) : List Text → Text
  | [] => []
  | [t] => t
  | t :: u :: ts => t ++ separator ++ joinWith separator (u :: ts)

/-- Whether the pattern occurs in the text. -/
def hasInfix (pattern : Text) : Text → Bool
  | [] => pattern.isEmpty
  | c :: cs => pattern.isPrefixOf (c :: cs) || hasInfix pattern cs

@[simp] theorem trim_nil : trim [] = [] := rfl

/-- A text that neither starts nor ends with a blank is its own trim. -/
theorem trim_eq_self {t : Text} (first : ∀ c ∈ t.head?, isBlank c = false)
    (last : ∀ c ∈ t.getLast?, isBlank c = false) : trim t = t := by
  cases t with
  | nil => rfl
  | cons c cs =>
    have hc : isBlank c = false := first c rfl
    have hs : trimStart (c :: cs) = c :: cs := by simp [trimStart, hc]
    rw [trim, hs, trimEnd]
    cases hr : (c :: cs).reverse with
    | nil => simp at hr
    | cons d ds =>
      have hd : isBlank d = false := by
        apply last
        have : (c :: cs).getLast? = some d := by
          rw [← List.head?_reverse, hr]; rfl
        rw [this]; rfl
      rw [List.dropWhile_cons_of_neg (by simp [hd]), ← hr, List.reverse_reverse]

end Text

/-- The name with its ASCII letters in upper case. -/
def upperName (name : String) : String := String.ofList (Text.upper name.toList)

/-- The name with its ASCII letters in lower case. -/
def lowerName (name : String) : String := String.ofList (Text.lower name.toList)

/-- Whether two names differ at most in the case of ASCII letters. -/
def sameName (a b : String) : Bool := lowerName a == lowerName b

/-- The names one after another with a separator between neighbours. -/
def joinNames (separator : String) (names : List String) : String := separator.intercalate names

end DashCalc
