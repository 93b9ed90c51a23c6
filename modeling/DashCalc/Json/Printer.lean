import DashCalc.Decimal.Written
import DashCalc.Json.Basic

/-!
# Writing JSON

`compact` writes a value on one line, `pretty` on many, with two blanks per level and nothing
between the brackets of an empty array or object. Quotes, backslashes and control characters are
escaped, all other characters are written as they are.
-/

namespace DashCalc.Json

open DashCalc (Text)

/-- Doubles have the fewest digits that read back and at least one place behind the point; an
exponent is written below `10 ^ (-5)` and from `10 ^ 16` on. What is not finite is `null`. -/
def numberFormat : Decimal.Format :=
  ⟨.toEven, fun places => -5 < places && places ≤ 16, true, "null".toList, "null".toList⟩

/-- The text of a double. -/
def writeFloat (x : Float) : Text :=
  if x.isFinite then numberFormat.write x else "null".toList

/-- A character inside quotes. -/
def writeChar (c : Char) : Text :=
  match c with
  | '\x22' => ['\\', '\x22']
  | '\\' => ['\\', '\\']
  | '\x08' => ['\\', 'b']
  | '\x0c' => ['\\', 'f']
  | '\n' => ['\\', 'n']
  | '\r' => ['\\', 'r']
  | '\t' => ['\\', 't']
  | _ =>
    if c.toNat < 0x20 then
      "\\u00".toList ++ [Nat.digitChar (c.toNat / 16), Nat.digitChar (c.toNat % 16)]
    else [c]

def quoted (text : String) : Text := '\x22' :: (text.toList.flatMap writeChar ++ ['\x22'])

/-- A value that has no parts. -/
def writeAtom : Json → Text
  | null => "null".toList
  | bool true => "true".toList
  | bool false => "false".toList
  | int n => (toString n).toList
  | float x => writeFloat x
  | str text => quoted text
  | arr _ => ['[', ']']
  | obj _ => ['\x7b', '\x7d']

mutual

def write : Json → Text
  | arr (item :: items) => '[' :: (write item ++ writeItems items ++ [']'])
  | obj ((name, value) :: fields) =>
    '\x7b' :: (quoted name ++ ':' :: (write value ++ writeFields fields ++ ['\x7d']))
  | atom => writeAtom atom

/-- The items after the first one. -/
def writeItems : List Json → Text
  | [] => []
  | item :: items => ',' :: (write item ++ writeItems items)

/-- The fields after the first one. -/
def writeFields : List (String × Json) → Text
  | [] => []
  | (name, value) :: fields =>
    ',' :: (quoted name ++ ':' :: (write value ++ writeFields fields))

end

def newLine (level : Nat) : Text := '\n' :: List.replicate (2 * level) ' '

mutual

/-- The value over several lines; `level` is that of the line on which it begins. -/
def layOut (level : Nat) : Json → Text
  | arr (item :: items) =>
    '[' :: (newLine (level + 1) ++ layOut (level + 1) item ++ layOutItems (level + 1) items ++
      newLine level ++ [']'])
  | obj ((name, value) :: fields) =>
    '\x7b' :: (newLine (level + 1) ++ quoted name ++ ": ".toList ++ layOut (level + 1) value ++
      layOutFields (level + 1) fields ++ newLine level ++ ['\x7d'])
  | atom => writeAtom atom

/-- The items after the first one. -/
def layOutItems (level : Nat) : List Json → Text
  | [] => []
  | item :: items => ',' :: (newLine level ++ layOut level item ++ layOutItems level items)

/-- The fields after the first one. -/
def layOutFields (level : Nat) : List (String × Json) → Text
  | [] => []
  | (name, value) :: fields =>
    ',' :: (newLine level ++ quoted name ++ ": ".toList ++ layOut level value ++
      layOutFields level fields)

end

def compact (j : Json) : String := String.ofList (write j)

/-- The value over several lines, without a line end behind it. -/
def pretty (j : Json) : String := String.ofList (layOut 0 j)

end DashCalc.Json
