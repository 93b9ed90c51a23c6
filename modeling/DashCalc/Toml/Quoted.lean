import DashCalc.Text.Basic
import DashCalc.Text.Digit

/-!
# Texts in TOML

Texts in double quotes may have escapes, texts in single quotes have none. Three quotes enclose a
text of several lines; one or two quotes may stand in it anywhere, also in front of the closing
ones. Control characters other than tabs are refused.
-/

namespace DashCalc.Toml

open DashCalc (Text)

/-- Control characters other than the tab. -/
def isControl (c : Char) : Bool := (c.toNat < 0x20 && c ≠ '\t') || c.toNat = 0x7F

/-- Whether a line ends here. -/
def atNewline : Text → Bool
  | '\n' :: _ => true
  | '\r' :: '\n' :: _ => true
  | _ => false

/-- Whether the rest of the line is blank. -/
def atBlankEnd (t : Text) : Bool := atNewline (t.dropWhile fun c => c = ' ' || c = '\t')

/-- The text without a line end at its start. -/
def dropNewline : Text → Text
  | '\n' :: rest => rest
  | '\r' :: '\n' :: rest => rest
  | t => t

/-- The character that an escape of one letter stands for. -/
def escaped : Char → Option Char
  | 'b' => some '\x08'
  | 'e' => some '\x1b'
  | 't' => some '\t'
  | 'n' => some '\n'
  | 'f' => some '\x0c'
  | 'r' => some '\r'
  | '\x22' => some '\x22'
  | '\\' => some '\\'
  | _ => none

/-- A text in double quotes, the opening one already read. -/
def basicText : Text → Option (Text × Text)
  | [] => none
  | '\x22' :: rest => some ([], rest)
  | '\\' :: 'x' :: a :: b :: rest => do
    let e ← (Text.number? 16 [a, b]).bind Text.ofCode?
    (basicText rest).map fun (text, rest) => (e :: text, rest)
  | '\\' :: 'u' :: a :: b :: c :: d :: rest => do
    let e ← (Text.number? 16 [a, b, c, d]).bind Text.ofCode?
    (basicText rest).map fun (text, rest) => (e :: text, rest)
  | '\\' :: 'U' :: a :: b :: c :: d :: e :: f :: g :: h :: rest => do
    let e ← (Text.number? 16 [a, b, c, d, e, f, g, h]).bind Text.ofCode?
    (basicText rest).map fun (text, rest) => (e :: text, rest)
  | '\\' :: c :: rest => do
    let e ← escaped c
    (basicText rest).map fun (text, rest) => (e :: text, rest)
  | c :: rest =>
    if isControl c then none else (basicText rest).map fun (text, rest) => (c :: text, rest)

/-- A text in single quotes, the opening one already read. -/
def literalText : Text → Option (Text × Text)
  | [] => none
  | c :: rest =>
    if c = '\x27' then some ([], rest)
    else if isControl c then none
    else (literalText rest).map fun (text, rest) => (c :: text, rest)

/-- The quotes at the start of a text that ends with three of them: at most two belong to it. -/
def closing (quote : Char) (t : Text) : Option (Text × Text) :=
  let count := (t.takeWhile (· = quote)).length
  if 3 ≤ count then
    let kept := min (count - 3) 2
    some (List.replicate kept quote, t.drop (kept + 3))
  else none

/-- Whether the character may stand in a text of several lines, given what follows it. -/
def isLineChar (c : Char) (rest : Text) : Bool :=
  !isControl c || c = '\n' || (c = '\r' && rest.head? = some '\n')

/-- A text in three double quotes, the opening ones already read. A backslash at the end of a line
joins it with the next one, without the blanks and line ends between; `joining` says that this is
being done. -/
def basicLines (joining : Bool) : Text → Option (Text × Text)
  | [] => none
  | '\\' :: 'x' :: a :: b :: rest => do
    let e ← (Text.number? 16 [a, b]).bind Text.ofCode?
    (basicLines false rest).map fun (text, rest) => (e :: text, rest)
  | '\\' :: 'u' :: a :: b :: c :: d :: rest => do
    let e ← (Text.number? 16 [a, b, c, d]).bind Text.ofCode?
    (basicLines false rest).map fun (text, rest) => (e :: text, rest)
  | '\\' :: 'U' :: a :: b :: c :: d :: e :: f :: g :: h :: rest => do
    let e ← (Text.number? 16 [a, b, c, d, e, f, g, h]).bind Text.ofCode?
    (basicLines false rest).map fun (text, rest) => (e :: text, rest)
  | '\\' :: c :: rest =>
    if atBlankEnd (c :: rest) then basicLines true rest
    else do
      let e ← escaped c
      (basicLines false rest).map fun (text, rest) => (e :: text, rest)
  | c :: rest =>
    if joining && (c = ' ' || c = '\t' || c = '\n' || (c = '\r' && rest.head? = some '\n')) then
      basicLines true rest
    else
      match closing '\x22' (c :: rest) with
      | some read => some read
      | none =>
        if isLineChar c rest then
          (basicLines false rest).map fun (text, rest) => (c :: text, rest)
        else none

/-- A text in three single quotes, the opening ones already read. -/
def literalLines : Text → Option (Text × Text)
  | [] => none
  | c :: rest =>
    match closing '\x27' (c :: rest) with
    | some read => some read
    | none =>
      if isLineChar c rest then (literalLines rest).map fun (text, rest) => (c :: text, rest)
      else none

/-- A text in quotes of any kind. -/
def quotedText : Text → Option (Text × Text)
  | '\x22' :: '\x22' :: '\x22' :: rest => basicLines false (dropNewline rest)
  | '\x27' :: '\x27' :: '\x27' :: rest => literalLines (dropNewline rest)
  | '\x22' :: rest => basicText rest
  | '\x27' :: rest => literalText rest
  | _ => none

end DashCalc.Toml
