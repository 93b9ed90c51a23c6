import DashCalc.Expression.Basic
import DashCalc.Node.Json

/-!
# Expressions as JSON

Absent names and aggregations are left out, an absent cost is `null`. The tree is written only if
asked for.
-/

namespace DashCalc

/-- What may differ in how results are written. -/
structure Layout where
  /-- Whether the trees of expressions are written. -/
  trees : Bool := true
  /-- How it is said why the formula of an expression was refused. -/
  refusal : Expression → Refusal → String := fun _ r => r.message
  /-- How durations are written. -/
  seconds : Float → Json := .float

namespace Expression

def toJson (layout : Layout) (e : Expression) : Json :=
  .obj ([("alias", .str e.name)] ++ Json.fieldIf "userAlias" .str e.userAlias ++
    [("kind", .str e.kind.name), ("expression", .str e.formula)] ++
    Json.fieldIf "aggregation" .str e.aggregation ++
    (if layout.trees then Json.fieldIf "parsed" Node.toJson e.tree? else []) ++
    Json.fieldIf "parsingError" (fun r => .str (layout.refusal e r)) e.reading.refusal? ++
    [("isParsed", .bool e.isRead), ("hasError", .bool e.isRefused),
      ("cost", .ofOption (fun n => .int n) e.cost),
      ("maxDepth", .ofOption (fun n => .int n) e.maxDepth),
      ("isAggregation", .bool e.isAggregation), ("isStringFunction", .bool e.isStringFunction),
      ("usedInQueryGen", .bool e.usedInQuery), ("preProcessed", .bool e.preProcessed),
      ("datasetCalculation", .bool e.datasetCalculation)])

end Expression

end DashCalc
