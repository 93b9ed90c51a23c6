import DashCalc.Text.Basic
import DashCalc.Text.Digit
import DashCalc.Toml.Basic

/-!
# TOML scalars

What a run of letters, digits and signs without quotes means: a truth value, a number, or a date or
time. Digits may be grouped by single underscores. Numbers have no leading zeros; an integer has at
most 128 bits, and a number too large for a double is refused.
-/

namespace DashCalc.Toml

open DashCalc (Text)

/-! ## Numbers -/

/-- The digits of a number, without the underscores between them. There is at least one digit, and
underscores stand between two digits. -/
def ungroup (base : Nat) : Text → Option (List Nat)
  | [] => none
  | [c] => (Text.digit? base c).map ([·])
  | c :: '_' :: rest => do
    let d ← Text.digit? base c
    let ds ← ungroup base rest
    some (d :: ds)
  | c :: rest => do
    let d ← Text.digit? base c
    let ds ← ungroup base rest
    some (d :: ds)

/-- Decimal digits without a leading zero. -/
def wholePart (t : Text) : Option (List Nat) := do
  let digits ← ungroup 10 t
  if digits.length > 1 && digits.head? == some 0 then none else some digits

/-- Whether there is a minus sign, and the text behind a sign. -/
def signed : Text → Bool × Text
  | '-' :: rest => (true, rest)
  | '+' :: rest => (false, rest)
  | t => (false, t)

/-- An integer, in one of four bases. -/
def integer? (t : Text) : Option Int := do
  let n : Int ← match t with
    | '0' :: 'x' :: rest => (ungroup 16 rest).map fun ds => (Text.ofDigits 16 ds : Int)
    | '0' :: 'o' :: rest => (ungroup 8 rest).map fun ds => (Text.ofDigits 8 ds : Int)
    | '0' :: 'b' :: rest => (ungroup 2 rest).map fun ds => (Text.ofDigits 2 ds : Int)
    | _ =>
      let (negative, digits) := signed t
      (wholePart digits).map fun ds =>
        let n : Int := Text.ofDigits 10 ds
        if negative then -n else n
  if -n ≤ Nat.pow 2 127 && n < Nat.pow 2 128 then some n else none

/-- The double `significand * 10 ^ power`, unless it gets infinite. -/
def scaled (significand : Nat) (power : Int) : Option Float :=
  let places : Int := (Nat.toDigits 10 significand).length + power
  if significand = 0 || places < -400 then some 0.0
  else if 400 < places then none
  else
    let value := Float.ofScientific significand (power < 0) power.natAbs
    if value.isInf then none else some value

/-- A number with a point or an exponent, its sign already read. -/
def unsignedFloat? (t : Text) : Option Float := do
  let isMark (c : Char) : Bool := c = 'e' || c = 'E'
  let (mantissa, exponent) := t.span fun c => !isMark c
  let (front, behind) := mantissa.span (· ≠ '.')
  let whole ← wholePart front
  let fraction ← match behind with
    | [] => some []
    | _ :: digits => ungroup 10 digits
  let power : Int ← match exponent with
    | [] => if behind.isEmpty then none else some 0
    | _ :: rest =>
      let (negative, digits) := signed rest
      (ungroup 10 digits).map fun ds =>
        let n : Int := Text.ofDigits 10 ds
        if negative then -n else n
  scaled (Text.ofDigits 10 (whole ++ fraction)) (power - fraction.length)

/-- A number that is not an integer. -/
def float? (t : Text) : Option Float := do
  let (negative, rest) := signed t
  let value ←
    if rest = "inf".toList then some (1.0 / 0.0)
    else if rest = "nan".toList then some (0.0 / 0.0)
    else unsignedFloat? rest
  some (if negative then -value else value)

/-! ## Dates and times -/

/-- That many digits, and the text behind them. -/
def fixedDigits (count : Nat) (t : Text) : Option (Nat × Text) := do
  let digits := t.take count
  if digits.length = count then some (← Text.number? 10 digits, t.drop count) else none

/-- A character that must come next. -/
def expectChar (c : Char) : Text → Option Text
  | d :: rest => if d = c then some rest else none
  | [] => none

/-- How many days a month has. -/
def daysOf (year month : Nat) : Nat :=
  let leap : Bool := year % 4 = 0 && (year % 100 ≠ 0 || year % 400 = 0)
  match month with
  | 2 => if leap then 29 else 28
  | 4 | 6 | 9 | 11 => 30
  | _ => 31

/-- The text behind a date. -/
def afterDate (t : Text) : Option Text := do
  let (year, rest) ← fixedDigits 4 t
  let (month, rest) ← fixedDigits 2 (← expectChar '-' rest)
  let (day, rest) ← fixedDigits 2 (← expectChar '-' rest)
  if 1 ≤ month && month ≤ 12 && 1 ≤ day && day ≤ daysOf year month then some rest else none

/-- The text behind the seconds of a time, which may have fractions. -/
def afterSeconds (t : Text) : Option Text := do
  let (second, rest) ← fixedDigits 2 t
  if 60 < second then none
  else
    match rest with
    | '.' :: digits =>
      if digits.head?.any Char.isDigit then some (digits.dropWhile Char.isDigit) else none
    | _ => some rest

/-- The text behind a time, with or without seconds. -/
def afterTime (t : Text) : Option Text := do
  let (hour, rest) ← fixedDigits 2 t
  let (minute, rest) ← fixedDigits 2 (← expectChar ':' rest)
  if 23 < hour || 59 < minute then none
  else
    match rest with
    | ':' :: seconds => afterSeconds seconds
    | _ => some rest

/-- Whether this is how a time differs from universal time. -/
def isOffset : Text → Bool
  | ['Z'] | ['z'] => true
  | c :: rest =>
    (c = '+' || c = '-') &&
      match fixedDigits 2 rest with
      | some (hour, ':' :: more) =>
        match fixedDigits 2 more with
        | some (minute, []) => hour ≤ 23 && minute ≤ 59
        | _ => false
      | _ => false
  | [] => false

/-- Whether the text is a date, a time, or a date with a time. -/
def isMoment (t : Text) : Bool :=
  match afterDate t with
  | some [] => true
  | some (mark :: time) =>
    (mark = 'T' || mark = 't' || mark = ' ') &&
      match afterTime time with
      | some rest => rest.isEmpty || isOffset rest
      | none => false
  | none => afterTime t == some []

/-! ## Runs -/

/-- What scalars without quotes consist of. -/
def isScalarChar (c : Char) : Bool :=
  c.isAlphanum || c = '_' || c = '+' || c = '-' || c = '.' || c = ':'

/-- The scalar at the start of the text, and the text behind it. A single blank may stand between
a date and a time. -/
def scalarRun (t : Text) : Text × Text :=
  let (run, rest) := t.span isScalarChar
  match rest with
  | ' ' :: more =>
    if afterDate run = some [] && more.head?.any Char.isDigit then
      let (time, rest) := more.span isScalarChar
      (run ++ ' ' :: time, rest)
    else (run, rest)
  | _ => (run, rest)

def scalar? (run : Text) : Option Value :=
  if run = "true".toList then some (.bool true)
  else if run = "false".toList then some (.bool false)
  else if isMoment run then some .moment
  else match integer? run with
    | some n => some (.int n)
    | none => (float? run).map .float

end DashCalc.Toml
