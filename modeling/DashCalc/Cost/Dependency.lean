import DashCalc.Json.Basic

/-!
# Dependencies

A dependency is what an expression depends on, with its cost and the level at which it was met.
-/

namespace DashCalc.Cost

/-- What a dependency is. -/
inductive DependencyKind
  | function | aggregate | parameter | field | calculatedField
  deriving DecidableEq

def DependencyKind.name : DependencyKind → String
  | function => "function"
  | aggregate => "aggr_func"
  | parameter => "parameter"
  | field => "field"
  | calculatedField => "calculatedField"

/-- Something an expression depends on. -/
structure Dependency where
  name : String
  kind : DependencyKind
  /-- The value of a parameter or the formula of a field; empty for a function. -/
  formula : String
  cost : Nat
  level : Nat
  docLink : Option String
  deriving DecidableEq

def Dependency.toJson (d : Dependency) : Json :=
  .obj ([("alias", .str d.name), ("kind", .str d.kind.name), ("expression", .str d.formula),
    ("cost", .int d.cost), ("level", .int d.level)] ++ Json.fieldIf "docLink" .str d.docLink)

end DashCalc.Cost
