import DashCalc.Expression.Json
import DashCalc.Hierarchy.Build
import DashCalc.Request.Json

/-!
# The hierarchy as JSON

Absent values of metrics and requests are written as `null`; a missing name, missing details and
an empty list of children are left out.
-/

namespace DashCalc.Hierarchy

def Metrics.toJson (layout : Layout) (m : Metrics) : Json :=
  let time := Json.ofOption fun (t : Int64) => .int t.toInt
  .obj [
    ("duration", layout.seconds m.duration), ("requestCount", .int m.requestCount),
    ("startTime", time m.startTime), ("endTime", time m.endTime), ("hasError", .bool m.hasError),
    ("cost", .int m.cost), ("parsedExpressionCount", .int m.parsedExpressionCount),
    ("highCostRequestCount", .int m.highCostRequestCount),
    ("tags", .ofTexts (m.tags.toList.map Tag.name)), ("origin", .ofText? m.origin),
    ("userAgent", .ofText? m.userAgent)]

def Details.toJson (layout : Layout) (d : Details) : Json :=
  .obj [
    ("requestId", .str d.requestId), ("visualType", .ofText? d.visualType),
    ("duration", .ofOption layout.seconds d.duration), ("errorCode", .ofText? d.errorCode),
    ("errorMessage", .ofText? d.errorMessage), ("badges", d.badges.toJson),
    ("expressions", .arr (d.expressions.map (Expression.toJson layout))),
    ("parameters", .ofDictionary d.parameters), ("filters", .arr d.filters)]

namespace Branch

mutual

def toJson (layout : Layout) : Branch → Json
  | ⟨key, level, name, metrics, details, children⟩ =>
    .obj ([("key", .str key), ("level", .str level.name)] ++ Json.fieldIf "name" .str name ++
      [("metrics", metrics.toJson layout)] ++
      Json.fieldIf "request" (Details.toJson layout) details ++
      (if children.isEmpty then [] else [("children", .arr (toJsons layout children))]))

def toJsons (layout : Layout) : List Branch → List Json
  | [] => []
  | b :: rest => toJson layout b :: toJsons layout rest

end

end Branch

def Counts.toJson (c : Counts) : Json :=
  .obj [("dashboards", .int c.dashboards), ("analyses", .int c.analyses),
    ("sheets", .int c.sheets), ("visuals", .int c.visuals), ("requests", .int c.requests)]

def toJson (layout : Layout) (h : Hierarchy) : Json :=
  .obj [("root", h.root.toJson layout), ("counts", h.counts.toJson)]

end DashCalc.Hierarchy
