import DashCalc.Request.Basic

/-!
# Requests as JSON

Every field may be missing, and unknown fields are ignored. `null` stands for an absent value where
a value may be absent, and nowhere else. All fields are written, absent values as `null`.
-/

namespace DashCalc.Request

namespace NamedFormula

def toJson (f : NamedFormula) : Json :=
  .obj [("alias", .str f.name), ("expression", .ofText? f.formula),
    ("aggregation", .ofText? f.aggregation)]

def ofJson? (j : Json) : Option NamedFormula := do
  let fields ← j.record? 0 ["alias", "expression", "aggregation"]
  some {
    name := ← Json.fieldOr "" Json.text? "alias" fields
    formula := ← Json.optional? Json.text? "expression" fields
    aggregation := ← Json.optional? Json.text? "aggregation" fields }

end NamedFormula

namespace DatasetColumn

def toJson (c : DatasetColumn) : Json :=
  .obj [("name", .str c.name), ("expression", .str c.formula), ("aggregate", .bool c.aggregate),
    ("analysisOnly", .bool c.analysisOnly)]

def ofJson? (j : Json) : Option DatasetColumn := do
  let fields ← j.record? 0 ["name", "expression", "aggregate", "analysisOnly"]
  some {
    name := ← Json.fieldOr "" Json.text? "name" fields
    formula := ← Json.fieldOr "" Json.text? "expression" fields
    aggregate := ← Json.fieldOr false Json.bool? "aggregate" fields
    analysisOnly := ← Json.fieldOr false Json.bool? "analysisOnly" fields }

end DatasetColumn

namespace Badges

def toJson (b : Badges) : Json :=
  .obj [("totals", .bool b.totals), ("computationsOnly", .bool b.computationsOnly),
    ("hideOtherCategory", .bool b.hideOtherCategory)]

def ofJson? (j : Json) : Option Badges := do
  let fields ← j.record? 0 ["totals", "computationsOnly", "hideOtherCategory"]
  some {
    totals := ← Json.fieldOr false Json.bool? "totals" fields
    computationsOnly := ← Json.fieldOr false Json.bool? "computationsOnly" fields
    hideOtherCategory := ← Json.fieldOr false Json.bool? "hideOtherCategory" fields }

end Badges

namespace Names

def toJson (n : Names) : Json :=
  .obj [("dashboard", .ofText? n.dashboard), ("analysis", .ofText? n.analysis),
    ("sheet", .ofText? n.sheet), ("visual", .ofText? n.visual), ("dataset", .ofText? n.dataset),
    ("datasetType", .ofText? n.datasetType)]

def ofJson? (j : Json) : Option Names := do
  let fields ← j.record? 0 ["dashboard", "analysis", "sheet", "visual", "dataset", "datasetType"]
  some {
    dashboard := ← Json.optional? Json.text? "dashboard" fields
    analysis := ← Json.optional? Json.text? "analysis" fields
    sheet := ← Json.optional? Json.text? "sheet" fields
    visual := ← Json.optional? Json.text? "visual" fields
    dataset := ← Json.optional? Json.text? "dataset" fields
    datasetType := ← Json.optional? Json.text? "datasetType" fields }

end Names

/-- The fields of a request, in order. -/
def fieldNames : List String :=
  ["requestId", "dashboardId", "analysisId", "sheetId", "datasetId", "visualId", "visualType",
    "startTime", "endTime", "errorCode", "errorMessage", "fields", "calculatedFields", "metrics",
    "conditionalFormattingMetrics", "filterExpressions", "datasetCalculatedColumns", "parameters",
    "filters", "userAliases", "badges", "names", "origin", "userAgent"]

def toJson (r : Request) : Json :=
  let formulas (items : List NamedFormula) : Json := .arr (items.map NamedFormula.toJson)
  .obj [
    ("requestId", .str r.id),
    ("dashboardId", .ofText? r.dashboardId),
    ("analysisId", .ofText? r.analysisId),
    ("sheetId", .ofText? r.sheetId),
    ("datasetId", .str r.datasetId),
    ("visualId", .ofText? r.visualId),
    ("visualType", .ofText? r.visualType),
    ("startTime", .int r.startTime.toInt),
    ("endTime", .ofOption (fun t => .int t.toInt) r.endTime),
    ("errorCode", .ofText? r.errorCode),
    ("errorMessage", .ofText? r.errorMessage),
    ("fields", formulas r.fields),
    ("calculatedFields", formulas r.calculatedFields),
    ("metrics", formulas r.metrics),
    ("conditionalFormattingMetrics", formulas r.conditionalFormattingMetrics),
    ("filterExpressions", .ofTexts r.filterFormulas),
    ("datasetCalculatedColumns", .arr (r.datasetColumns.map DatasetColumn.toJson)),
    ("parameters", .ofDictionary r.parameters),
    ("filters", .arr r.filters),
    ("userAliases", .ofDictionary r.userAliases),
    ("badges", r.badges.toJson),
    ("names", r.names.toJson),
    ("origin", .ofText? r.origin),
    ("userAgent", .ofText? r.userAgent)]

def ofJson? (j : Json) : Option Request := do
  let fields ← j.record? 0 fieldNames
  let text (name : String) := Json.fieldOr "" Json.text? name fields
  let text? (name : String) := Json.optional? Json.text? name fields
  let formulas (name : String) := Json.fieldOr [] (Json.list? NamedFormula.ofJson?) name fields
  some {
    id := ← text "requestId"
    dashboardId := ← text? "dashboardId"
    analysisId := ← text? "analysisId"
    sheetId := ← text? "sheetId"
    datasetId := ← text "datasetId"
    visualId := ← text? "visualId"
    visualType := ← text? "visualType"
    startTime := ← Json.fieldOr 0 Json.int64? "startTime" fields
    endTime := ← Json.optional? Json.int64? "endTime" fields
    errorCode := ← text? "errorCode"
    errorMessage := ← text? "errorMessage"
    fields := ← formulas "fields"
    calculatedFields := ← formulas "calculatedFields"
    metrics := ← formulas "metrics"
    conditionalFormattingMetrics := ← formulas "conditionalFormattingMetrics"
    filterFormulas := ← Json.fieldOr [] (Json.list? Json.text?) "filterExpressions" fields
    datasetColumns :=
      ← Json.fieldOr [] (Json.list? DatasetColumn.ofJson?) "datasetCalculatedColumns" fields
    parameters := ← Json.fieldOr ∅ Json.dictionary? "parameters" fields
    filters := ← Json.fieldOr [] (Json.list? some) "filters" fields
    userAliases := ← Json.fieldOr ∅ Json.dictionary? "userAliases" fields
    badges := ← Json.fieldOr {} Badges.ofJson? "badges" fields
    names := ← Json.fieldOr {} Names.ofJson? "names" fields
    origin := ← text? "origin"
    userAgent := ← text? "userAgent" }

end DashCalc.Request
