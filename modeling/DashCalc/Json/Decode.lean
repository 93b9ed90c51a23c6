import DashCalc.Decimal.Binary
import DashCalc.Json.Basic

/-!
# Typed values from JSON

A decoder gives a value or nothing. Records are read from an object by the names of their fields,
unknown ones ignored, or from an array by position. An integer is never read from a double, and
`null` stands for an absent value only where a value may be absent.
-/

namespace DashCalc.Json

def text? : Json → Option String
  | str value => some value
  | _ => none

def bool? : Json → Option Bool
  | bool value => some value
  | _ => none

/-- An integer of 64 bits with a sign. -/
def int64? : Json → Option Int64
  | int n => if -n ≤ Nat.pow 2 63 && n < Nat.pow 2 63 then some (Int64.ofInt n) else none
  | _ => none

/-- A natural number of at most that many bits. -/
def natBits? (bits : Nat) : Json → Option Nat
  | int n => if 0 ≤ n && n < Nat.pow 2 bits then some n.toNat else none
  | _ => none

/-- A double; integers are rounded. -/
def float? : Json → Option Float
  | int n => some (Decimal.floatOfInt n)
  | float x => some x
  | _ => none

/-- A value that may be `null`. -/
def nullable? {α : Type} (decode : Json → Option α) : Json → Option (Option α)
  | null => some none
  | j => (decode j).map some

def list? {α : Type} (decode : Json → Option α) : Json → Option (List α)
  | arr items => items.mapM decode
  | _ => none

/-- A dictionary of texts. -/
def dictionary? : Json → Option (Dictionary String)
  | obj fields => do
    let pairs ← fields.mapM fun (name, value) => value.text?.map (name, ·)
    some (Dictionary.ofList pairs)
  | _ => none

/-- The name of one of several alternatives without content: the name itself, or an object with
`null` under that name. -/
def alternative? : Json → Option String
  | str name => some name
  | obj [(name, null)] => some name
  | _ => none

/-- The fields of a record that an array may stand for: its items are matched with the names in
order, and at least the first `required` of them must be there. -/
def record? (required : Nat) (names : List String) : Json → Option (List (String × Json))
  | obj fields => some fields
  | arr items =>
    if required ≤ items.length && items.length ≤ names.length then some (names.zip items)
    else none
  | _ => none

/-- The decoded field, or a default if it is missing. -/
def fieldOr {α : Type} (default : α) (decode : Json → Option α) (name : String)
    (fields : List (String × Json)) : Option α :=
  match fields.lookup name with
  | some j => decode j
  | none => some default

/-- The decoded field, which must be there. -/
def field? {α : Type} (decode : Json → Option α) (name : String)
    (fields : List (String × Json)) : Option α :=
  (fields.lookup name).bind decode

/-- The decoded field if it is there and not `null`. -/
def optional? {α : Type} (decode : Json → Option α) (name : String)
    (fields : List (String × Json)) : Option (Option α) :=
  fieldOr none (nullable? decode) name fields

mutual

/-- How many arrays and objects are nested in a value. -/
def height : Json → Nat
  | arr items => heightOfItems items + 1
  | obj fields => heightOfFields fields + 1
  | _ => 0

def heightOfItems : List Json → Nat
  | [] => 0
  | j :: items => max (height j) (heightOfItems items)

def heightOfFields : List (String × Json) → Nat
  | [] => 0
  | (_, j) :: fields => max (height j) (heightOfFields fields)

end

end DashCalc.Json
