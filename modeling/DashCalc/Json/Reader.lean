import DashCalc.Json.Basic
import DashCalc.Text.Digit

/-!
# Reading JSON

`Json.parse` accepts exactly one JSON value between blanks, with at most a given number of nested
arrays and objects. Of two fields of one name the later counts.

A number without point and exponent is an integer if it fits 64 bits, signed or unsigned, and a
double otherwise. A double is read as an integer of at most 64 bits times a power of ten: digits
that no longer fit count as zeros. A number too large for a double is refused.
-/

namespace DashCalc.Json

open DashCalc (Text)

/-- Removes the blanks that may stand between the parts of a JSON text. -/
def skipBlanks (t : Text) : Text :=
  t.dropWhile fun c => c = ' ' || c = '\n' || c = '\t' || c = '\r'

/-! ## Texts -/

/-- Units that begin a pair. -/
def isHighUnit (n : Nat) : Bool := 0xD800 ≤ n && n ≤ 0xDBFF

/-- Units that end a pair. -/
def isLowUnit (n : Nat) : Bool := 0xDC00 ≤ n && n ≤ 0xDFFF

/-- The character that a pair of units stands for. -/
def ofPair (high low : Nat) : Char :=
  Char.ofNat (0x10000 + (high - 0xD800) * 0x400 + (low - 0xDC00))

/-- The character that an escape of one letter stands for. -/
def escaped : Char → Option Char
  | '\x22' => some '\x22'
  | '\\' => some '\\'
  | '/' => some '/'
  | 'b' => some '\x08'
  | 'f' => some '\x0c'
  | 'n' => some '\n'
  | 'r' => some '\r'
  | 't' => some '\t'
  | _ => none

/-- A text up to its closing quote. An escape `\u` stands for a unit, and two of them for a pair;
half a pair is refused, and so is a control character. -/
def readText : Text → Option (Text × Text)
  | [] => none
  | '\x22' :: rest => some ([], rest)
  | '\\' :: 'u' :: a :: b :: c :: d :: rest =>
    match Text.number? 16 [a, b, c, d] with
    | none => none
    | some unit =>
      if isLowUnit unit then none
      else if isHighUnit unit then
        match rest with
        | '\\' :: 'u' :: a :: b :: c :: d :: rest =>
          match Text.number? 16 [a, b, c, d] with
          | none => none
          | some low =>
            if isLowUnit low then
              (readText rest).map fun (text, rest) => (ofPair unit low :: text, rest)
            else none
        | _ => none
      else (readText rest).map fun (text, rest) => (Char.ofNat unit :: text, rest)
  | '\\' :: c :: rest =>
    match escaped c with
    | none => none
    | some c => (readText rest).map fun (text, rest) => (c :: text, rest)
  | c :: rest =>
    if c.toNat < 0x20 then none
    else (readText rest).map fun (text, rest) => (c :: text, rest)

/-! ## Numbers -/

/-- The digits at the start, and the text behind them. -/
def readDigits (t : Text) : List Nat × Text :=
  ((t.takeWhile Char.isDigit).map fun c => c.toNat - '0'.toNat, t.dropWhile Char.isDigit)

/-- Appends digits to a number as long as it stays below `2 ^ 64`; gives the number and the digits
that are left. -/
def absorb (number : Nat) : List Nat → Nat × List Nat
  | [] => (number, [])
  | d :: ds =>
    if number * 10 + d < Nat.pow 2 64 then absorb (number * 10 + d) ds else (number, d :: ds)

/-- The double `significand * 10 ^ power`, a negative power by division. A number that gets
infinite is refused. -/
def scale (significand : Nat) (power : Int) : Option Float :=
  let start := significand.toUInt64.toFloat
  let tens (n : Nat) : Float := Float.ofScientific 1 false n
  if 0 ≤ power then
    if power ≤ 308 then
      let value := start * tens power.toNat
      if value.isInf then none else some value
    else if significand = 0 then some start
    else none
  else divide start (-power).toNat
where
  /-- Divides by a power of ten, at most `10 ^ 308` at a time. -/
  divide (value : Float) (power : Nat) : Option Float :=
    let tens (n : Nat) : Float := Float.ofScientific 1 false n
    if power ≤ 308 then some (value / tens power)
    else if value == 0 then some value
    else divide (value / tens 308) (power - 308)
  termination_by power

/-- The exponent behind a number, zero if there is none. -/
def readExponent (t : Text) : Option (Int × Text) :=
  match t with
  | c :: rest =>
    if c = 'e' || c = 'E' then
      let (negative, rest) := match rest with
        | '-' :: more => (true, more)
        | '+' :: more => (false, more)
        | _ => (false, rest)
      match readDigits rest with
      | ([], _) => none
      | (digits, rest) =>
        let power : Nat := Text.ofDigits 10 digits
        some (if negative then -(power : Int) else power, rest)
    else some (0, t)
  | [] => some (0, t)

/-- The digits behind a point, if there is one; there must be at least one digit. -/
def readFraction : Text → Option (Option (List Nat) × Text)
  | '.' :: rest =>
    match readDigits rest with
    | ([], _) => none
    | (digits, rest) => some (some digits, rest)
  | t => some (none, t)

/-- A number, its sign already read. -/
def readNumber (negative : Bool) (t : Text) : Option (Json × Text) := do
  let signed (x : Float) : Json := float (if negative then -x else x)
  let (whole, rest) := readDigits t
  if whole.isEmpty || (whole.length > 1 && whole.head? == some 0) then none
  else
    let (number, unread) := absorb 0 whole
    let (fraction, afterFraction) ← readFraction rest
    let (power, afterExponent) ← readExponent afterFraction
    if afterExponent.length = rest.length then
      if !unread.isEmpty then do
        some (signed (← scale number unread.length), rest)
      else if !negative then some (int number, rest)
      else if number = 0 ∨ Nat.pow 2 63 < number then some (signed number.toUInt64.toFloat, rest)
      else some (int (-number), rest)
    else
      let (significand, late) := absorb number (fraction.getD [])
      let taken := (fraction.getD []).length - late.length
      some (signed (← scale significand (unread.length - taken + power)), afterExponent)

/-! ## Values -/

/-- Items separated by commas up to the closing character; at least one. -/
def readItems {α : Type} (item : Text → Option (α × Text)) (close : Char) (t : Text) :
    Option (List α × Text) :=
  match item t with
  | none => none
  | some (x, rest) =>
    match skipBlanks rest with
    | [] => none
    | c :: more =>
      if c = close then some ([x], more)
      else if c = ',' then
        if _h : more.length < t.length then
          (readItems item close more).map fun (xs, rest) => (x :: xs, rest)
        else none
      else none
termination_by t.length

/-- A field: a name, a colon and a value. -/
def readField (value : Text → Option (Json × Text)) (t : Text) : Option ((String × Json) × Text) :=
  match skipBlanks t with
  | '\x22' :: rest => do
    let (name, rest) ← readText rest
    match skipBlanks rest with
    | ':' :: rest => do
      let (j, rest) ← value rest
      some ((String.ofList name, j), rest)
    | _ => none
  | _ => none

/-- A value with at most `nesting` nested arrays and objects. -/
def readValue (nesting : Nat) (t : Text) : Option (Json × Text) :=
  match skipBlanks t with
  | 'n' :: 'u' :: 'l' :: 'l' :: rest => some (null, rest)
  | 't' :: 'r' :: 'u' :: 'e' :: rest => some (bool true, rest)
  | 'f' :: 'a' :: 'l' :: 's' :: 'e' :: rest => some (bool false, rest)
  | '\x22' :: rest => (readText rest).map fun (text, rest) => (str (String.ofList text), rest)
  | '[' :: rest =>
    match nesting with
    | 0 => none
    | nesting + 1 =>
      match skipBlanks rest with
      | ']' :: rest => some (arr [], rest)
      | rest => (readItems (readValue nesting) ']' rest).map fun (items, rest) => (arr items, rest)
  | '\x7b' :: rest =>
    match nesting with
    | 0 => none
    | nesting + 1 =>
      match skipBlanks rest with
      | '\x7d' :: rest => some (obj [], rest)
      | rest =>
        (readItems (readField (readValue nesting)) '\x7d' rest).map fun (fields, rest) =>
          (obj (Dictionary.ofList fields).entries, rest)
  | '-' :: rest => readNumber true rest
  | rest => readNumber false rest

/-- How many nested arrays and objects a file may have. -/
def fileNesting : Nat := 127

def parse (nesting : Nat) (text : String) : Option Json :=
  match readValue nesting text.toList with
  | some (j, rest) => if (skipBlanks rest).isEmpty then some j else none
  | none => none

end DashCalc.Json
