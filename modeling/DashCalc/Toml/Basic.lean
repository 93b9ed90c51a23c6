/-!
# TOML values

A document is a table: a list of fields, each with a name of its own. Of dates and times nothing is
kept.
-/

namespace DashCalc.Toml

/-- A TOML value. -/
inductive Value
  | bool (value : Bool)
  | int (value : Int)
  | float (value : Float)
  | str (value : String)
  /-- A date, a time or both. -/
  | moment
  | arr (items : List Value)
  | table (fields : List (String × Value))

/-- The fields of a table. -/
abbrev Table := List (String × Value)

/-- The names on the way to a field: those of the tables around it, and its own. -/
structure Path where
  parents : List String
  last : String
  deriving DecidableEq

end DashCalc.Toml
