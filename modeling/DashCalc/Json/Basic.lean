import DashCalc.Dictionary
import DashCalc.Text.Basic

/-!
# JSON values

A number is an integer or a double, and the fields of an object are a list in the order in which
they are written. What `Json.parse` reads has its fields in the order of their names, each once.
-/

namespace DashCalc

/-- A JSON value. -/
inductive Json
  | null
  | bool (value : Bool)
  | int (value : Int)
  | float (value : Float)
  | str (value : String)
  | arr (items : List Json)
  | obj (fields : List (String × Json))

namespace Json

instance : Inhabited Json := ⟨null⟩

def ofOption {α : Type} (encode : α → Json) : Option α → Json
  | some value => encode value
  | none => null

def ofText? (text : Option String) : Json := ofOption str text

def ofTexts (texts : List String) : Json := arr (texts.map str)

def ofDictionary (d : Dictionary String) : Json :=
  obj (d.entries.map fun (name, value) => (name, str value))

/-- One field if there is a value and none otherwise. -/
def fieldIf {α : Type} (name : String) (encode : α → Json) : Option α → List (String × Json)
  | some value => [(name, encode value)]
  | none => []

/-- The field of an object. -/
def get? (name : String) : Json → Option Json
  | obj fields => fields.lookup name
  | _ => none

/-- The field of an object, where `null` counts as absent. -/
def present? (name : String) (j : Json) : Option Json :=
  match j.get? name with
  | some null => none
  | found => found

end Json

end DashCalc
