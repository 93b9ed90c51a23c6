import DashCalc.Sql.Token
import DashCalc.Text.Basic
import DashCalc.Text.Digit

/-!
# From text to tokens

`scan` cuts a SQL text into tokens from left to right. An identifier may hold any character between
U+0080 and U+FFFF, blanks of other scripts included. Comments run from `--` or `#` to the end of
the line, or between `/*` and `*/` and may be nested. The longest symbol counts. A text fails to
scan only where a quote or a comment is not closed, or where an escape in an escaped text is wrong.
-/

namespace DashCalc.Sql

open DashCalc (Text)

/-- Characters that an identifier may start with. -/
def startsName (c : Char) : Bool :=
  c = '_' || c = '$' || c = '@' || ('\x80' ≤ c && c ≤ '\uffff') || Text.isAlphabetic c

/-- Characters that an identifier goes on with. -/
def continuesName (c : Char) : Bool := startsName c || c.isDigit

/-- The capital letters that a character is written with, as far as these are ASCII letters; other
characters stay as they are. -/
def capitals (c : Char) : Text :=
  match c with
  | 'ı' => ['I']
  | 'ſ' => ['S']
  | 'ß' => ['S', 'S']
  | 'ﬀ' => ['F', 'F']
  | 'ﬁ' => ['F', 'I']
  | 'ﬂ' => ['F', 'L']
  | 'ﬃ' => ['F', 'F', 'I']
  | 'ﬄ' => ['F', 'F', 'L']
  | 'ﬅ' => ['S', 'T']
  | 'ﬆ' => ['S', 'T']
  | c => [c.toUpper]

/-- The word made of these characters. -/
def Token.ofName (name : Text) : Token :=
  .word (String.ofList name) (String.ofList (name.flatMap capitals))

/-! ## Texts in quotes -/

/-- What a backslash and this character stand for. -/
def unescape : Char → Char
  | '0' => '\x00'
  | 'a' => '\x07'
  | 'b' => '\x08'
  | 'f' => '\x0c'
  | 'n' => '\n'
  | 'r' => '\r'
  | 't' => '\t'
  | 'Z' => '\x1a'
  | c => c

/-- The text up to the closing quote, and what follows; a doubled quote stands for one. -/
def quotedRun (quote : Char) (escapes : Bool) : Text → Option (Text × Text)
  | [] => none
  | [c] => if c = quote then some ([], []) else none
  | c :: d :: rest =>
    if c = quote then
      if d = quote then (quotedRun quote escapes rest).map fun (t, r) => (quote :: t, r)
      else some ([], d :: rest)
    else if c = '\\' && escapes then
      (quotedRun quote escapes rest).map fun (t, r) => (unescape d :: t, r)
    else (quotedRun quote escapes (d :: rest)).map fun (t, r) => (c :: t, r)

/-- The ASCII character with a code, of which the last eight bits count. -/
def asciiOf? (code : Nat) : Option Char :=
  if code % 256 < 128 then some (Char.ofNat (code % 256)) else none

/-- The character whose code is spelled by the first `count` characters, and the text behind
them. A plus sign may stand in front of the digits. -/
def codeRun (count : Nat) (t : Text) : Option (Char × Text) := do
  let spelled := t.take count
  let digits := if spelled.head? = some '+' then spelled.drop 1 else spelled
  if spelled.length < count || digits.isEmpty then none
  else
    let c ← (Text.number? 16 digits).bind Text.ofCode?
    return (c, t.drop count)

/-- The ASCII character whose code is spelled by digits, at most `count` of them, and the text
behind them. -/
def asciiRun (base count : Nat) (t : Text) : Option (Char × Text) := do
  let digits := (t.take count).takeWhile fun c => (Text.digit? base c).isSome
  let c ← (Text.number? base digits).bind asciiOf?
  return (c, t.drop digits.length)

/-- What a backslash and the text behind it stand for in an escaped text, and the text behind
that. -/
def escapeRun (t : Text) : Option (Char × Text) :=
  match t with
  | [] => none
  | 'b' :: rest => some ('\x08', rest)
  | 'f' :: rest => some ('\x0c', rest)
  | 'n' :: rest => some ('\n', rest)
  | 'r' :: rest => some ('\r', rest)
  | 't' :: rest => some ('\t', rest)
  | 'u' :: rest => codeRun 4 rest
  | 'U' :: rest => codeRun 8 rest
  | 'x' :: rest => if rest.head?.any Text.isHexDigit then asciiRun 16 2 rest else some ('x', rest)
  | c :: rest => if (Text.digit? 8 c).isSome then asciiRun 8 3 t else some (c, rest)

/-- An escaped text up to the closing quote, and what follows. It does not hold the character with
the code zero. -/
def escapedRun (t : Text) : Option (Text × Text) :=
  match t with
  | [] => none
  | c :: rest =>
    if c = '\\' then do
      let (e, behind) ← escapeRun rest
      if e = '\x00' then none
      else if _h : behind.length ≤ rest.length then
        (escapedRun behind).map fun (text, rest) => (e :: text, rest)
      else none
    else if c = '\x27' then
      if rest.head? = some '\x27' then
        (escapedRun (rest.drop 1)).map fun (text, rest) => ('\x27' :: text, rest)
      else some ([], rest)
    else (escapedRun rest).map fun (text, rest) => (c :: text, rest)
termination_by t.length
decreasing_by
  all_goals simp only [List.length_cons, List.length_drop]
  all_goals omega

/-! ## Comments and numbers -/

/-- The text behind a comment that is `depth` levels deep. `last` is the character before. -/
def afterComment (depth : Nat) (last : Char) : Text → Option Text
  | [] => none
  | c :: rest =>
    if last = '/' && c = '*' then afterComment (depth + 1) c rest
    else if last = '*' && c = '/' then
      if depth ≤ 1 then some rest else afterComment (depth - 1) c rest
    else afterComment depth c rest

/-- The text after the line end. -/
def afterLine (t : Text) : Text := (t.dropWhile fun c => c ≠ '\n').drop 1

/-- An exponent at the start of the text: its mark, an optional sign and at least one digit. -/
def exponentPart (t : Text) : Text :=
  match t with
  | mark :: rest =>
    if mark = 'e' || mark = 'E' then
      let sign := rest.take 1 |>.filter fun c => c = '+' || c = '-'
      let digits := (rest.drop sign.length).takeWhile Char.isDigit
      if digits.isEmpty then [] else mark :: (sign ++ digits)
    else []
  | [] => []

/-- A number, a period, or a word that starts with a digit. -/
def scanNumber (t : Text) : Token × Text :=
  let whole := t.takeWhile Char.isDigit
  let behindWhole := t.dropWhile Char.isDigit
  if whole = ['0'] ∧ behindWhole.head? = some 'x' then
    let digits := (behindWhole.drop 1).takeWhile Text.isHexDigit
    (.special .hex (String.ofList digits), (behindWhole.drop 1).dropWhile Text.isHexDigit)
  else
    let point := behindWhole.take 1 |>.filter fun c => c = '.'
    let behindPoint := behindWhole.drop point.length
    let fraction := behindPoint.takeWhile Char.isDigit
    let rest := behindPoint.dropWhile Char.isDigit
    let number := whole ++ point ++ fraction
    if number = ['.'] then (.symbol ".", rest)
    else
      let exponent := exponentPart rest
      let hasMark := rest.head? = some 'e' || rest.head? = some 'E'
      let rest := rest.drop exponent.length
      let letters := if hasMark then [] else rest.takeWhile continuesName
      if !letters.isEmpty then (.ofName (number ++ letters), rest.drop letters.length)
      else
        let long := rest.head? = some 'L'
        (.number (String.ofList (number ++ exponent)) long, if long then rest.drop 1 else rest)

/-! ## Symbols and words -/

/-- All symbols; a longer one stands before those it begins with. -/
def symbols : List String := [
  "!~~*",
  "<=>", "->>", "||/", "!~*", "!~~", "~~*",
  "<=", "<>", "<<", "<@", ">=", ">>", "!=", "!!", "!~", "==", "=>", "|/", "||", "&&", "->", "::",
  ":=", "^@", "@>", "@?", "~*", "~~",
  "(", ")", ",", "-", "/", "+", "*", "%", "|", "=", "!", "<", ">", ":", ";", "\\", "[", "]", "&",
  "^", "\x7b", "\x7d", "~"]

/-- The longest symbol at the start of the text. -/
def scanSymbol (t : Text) : Option (String × Text) :=
  (symbols.find? fun s => s.toList.isPrefixOf t).map fun s => (s, t.drop s.length)

/-- A word with these characters in front. -/
def scanWord (front : Text) (t : Text) : Token × Text :=
  (.ofName (front ++ t.takeWhile continuesName), t.dropWhile continuesName)

/-- What begins with an at sign. -/
def scanAt : Text → Token × Text
  | [] => (.symbol "@", [])
  | '@' :: rest =>
    match rest with
    | [] => (.symbol "@@", [])
    | ' ' :: _ => (.symbol "@@", rest)
    | c :: more => scanWord ['@', '@', c] more
  | '>' :: rest => (.symbol "@>", rest)
  | '?' :: rest => (.symbol "@?", rest)
  | ' ' :: rest => (.symbol "@", ' ' :: rest)
  | c :: rest => scanWord ['@', c] rest

/-- The letters that make a literal of the quoted text behind them, and how that text is read. -/
def specialOf (letter quote : Char) : Option (Special × (Text → Option (Text × Text))) :=
  match letter, quote with
  | 'n', '\x27' | 'N', '\x27' => some (.national, quotedRun quote true)
  | 'x', '\x27' | 'X', '\x27' => some (.hex, quotedRun quote true)
  | 'b', '\x27' | 'B', '\x27' => some (.bytes .single, quotedRun quote false)
  | 'b', '\x22' | 'B', '\x22' => some (.bytes .double, quotedRun quote false)
  | 'e', '\x27' | 'E', '\x27' => some (.escaped, escapedRun)
  | _, _ => none

/-- A token made of the text that was read up to the closing quote. -/
def scanQuoted (make : String → Token) (run : Option (Text × Text)) :
    Option (Option Token × Text) :=
  run.map fun (value, rest) => (some (make (String.ofList value)), rest)

/-- A word, or a literal of a letter and a quoted text. -/
def scanLetter (c : Char) (t : Text) : Option (Option Token × Text) :=
  match t with
  | quote :: rest =>
    match specialOf c quote with
    | some (kind, run) => scanQuoted (.special kind) (run rest)
    | none => let (token, rest) := scanWord [c] t; some (some token, rest)
  | [] => some (some (.ofName [c]), [])

/-- What the text begins with: a token, or blanks or a comment without one; and the text behind
it. -/
def scanNext (t : Text) : Option (Option Token × Text) :=
  match t with
  | [] => some (none, [])
  | c :: rest =>
    if c = '\x27' then scanQuoted (.text .single) (quotedRun c true rest)
    else if c = '\x22' then scanQuoted (.text .double) (quotedRun c true rest)
    else if c = '\x60' then scanQuoted (.word · "") (quotedRun c false rest)
    else if c.isDigit || c = '.' then
      let (token, rest) := scanNumber t
      some (some token, rest)
    else if c = '#' || ['-', '-'].isPrefixOf t then some (none, afterLine rest)
    else if ['/', '*'].isPrefixOf t then (afterComment 1 ' ' (rest.drop 1)).map (none, ·)
    else if c = '?' then
      let digits := rest.takeWhile Text.isNumeric
      some (some (.placeholder (String.ofList ('?' :: digits))), rest.dropWhile Text.isNumeric)
    else if c = '@' then let (token, rest) := scanAt rest; some (some token, rest)
    else if startsName c then scanLetter c rest
    else match scanSymbol t with
      | some (symbol, rest) => some (some (.symbol symbol), rest)
      | none => some (if Text.isBlank c then none else some (.stray c), rest)

/-- What a text has that is never closed. -/
inductive Unclosed
  /-- A text in quotes that begins with that many characters left. -/
  | text (left : Nat)
  /-- A name in quotes that begins with that many characters left. -/
  | name (left : Nat)
  /-- An escaped text that begins with that many characters left, or that has a wrong escape. -/
  | escaped (left : Nat)
  | comment
  deriving DecidableEq

/-- What is not closed where no token can be read. -/
def unclosedAt (t : Text) : Unclosed :=
  match t with
  | '\x27' :: _ | '\x22' :: _ => .text t.length
  | '\x60' :: _ => .name t.length
  | '/' :: _ => .comment
  | 'e' :: _ | 'E' :: _ => .escaped t.length
  | _ => .text (t.length - 1)

/-- The tokens of a text, each with the number of characters from its first one to the end. -/
def scanFrom (t : Text) : Except Unclosed (List (Token × Nat)) :=
  if t.isEmpty then .ok []
  else
    match scanNext t with
    | none => .error (unclosedAt t)
    | some (token, rest) =>
      if _h : rest.length < t.length then do
        let tokens ← scanFrom rest
        return token.toList.map (·, t.length) ++ tokens
      else .error (unclosedAt t)
termination_by t.length

/-- The tokens of a SQL text, unless something in it is not closed. -/
def scan (sql : String) : Except Unclosed (List Token) :=
  (scanFrom sql.toList).map fun tokens => tokens.map Prod.fst

end DashCalc.Sql
