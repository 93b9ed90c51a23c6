import DashCalc.Expression.Basic
import DashCalc.Json.Decode

/-!
# Requests

A request is what was captured when one visual of a dashboard, or of an analysis, asked for its
data: whose it is, when it ran, how it ended and which formulas it named. `Request.expressions`
lists these formulas as expressions, in the order in which they are analysed.
-/

namespace DashCalc

/-- What a visual belongs to. -/
inductive ExplorationType
  | dashboards | analyses
  deriving DecidableEq

/-- The name of all explorations of a type. -/
def ExplorationType.key : ExplorationType → String
  | dashboards => "Dashboards"
  | analyses => "Analyses"

namespace Request

/-- A formula with its name, as captured. -/
structure NamedFormula where
  name : String := ""
  formula : Option String := none
  aggregation : Option String := none
  deriving DecidableEq

/-- A calculated column of the dataset. -/
structure DatasetColumn where
  name : String := ""
  formula : String := ""
  aggregate : Bool := false
  /-- Whether it is known to the analysis alone. -/
  analysisOnly : Bool := false
  deriving DecidableEq

/-- Whether the values of a column are stored with the dataset. -/
def DatasetColumn.isStored (c : DatasetColumn) : Bool := !c.aggregate && !c.analysisOnly

/-- How the visual is drawn. -/
structure Badges where
  totals : Bool := false
  computationsOnly : Bool := false
  hideOtherCategory : Bool := false
  deriving DecidableEq

/-- Names to show in place of ids. -/
structure Names where
  dashboard : Option String := none
  analysis : Option String := none
  sheet : Option String := none
  visual : Option String := none
  dataset : Option String := none
  datasetType : Option String := none
  deriving DecidableEq

end Request

/-- One captured request. -/
structure Request where
  id : String := ""
  dashboardId : Option String := none
  analysisId : Option String := none
  sheetId : Option String := none
  datasetId : String := ""
  visualId : Option String := none
  visualType : Option String := none
  /-- Milliseconds. -/
  startTime : Int64 := 0
  /-- Milliseconds; absent if the request never ended. -/
  endTime : Option Int64 := none
  errorCode : Option String := none
  errorMessage : Option String := none
  fields : List Request.NamedFormula := []
  calculatedFields : List Request.NamedFormula := []
  metrics : List Request.NamedFormula := []
  conditionalFormattingMetrics : List Request.NamedFormula := []
  filterFormulas : List String := []
  datasetColumns : List Request.DatasetColumn := []
  parameters : Dictionary String := ∅
  filters : List Json := []
  userAliases : Dictionary String := ∅
  badges : Request.Badges := {}
  names : Request.Names := {}
  origin : Option String := none
  userAgent : Option String := none

namespace Request

/-- An id that is there and not empty. -/
def nonEmpty (id : Option String) : Option String := id.filter (· != "")

/-- The exploration of a request; a dashboard goes before an analysis. -/
def exploration (r : Request) : Option (ExplorationType × String) :=
  match nonEmpty r.dashboardId with
  | some id => some (.dashboards, id)
  | none => (nonEmpty r.analysisId).map fun id => (.analyses, id)

def sheet (r : Request) : Option String := nonEmpty r.sheetId

def visual (r : Request) : Option String := nonEmpty r.visualId

/-- The milliseconds between two times: none if the second one is earlier, and never more than an
integer of 64 bits can say. -/
def elapsed (startTime endTime : Int64) : Int :=
  min (max (endTime.toInt - startTime.toInt) 0) Int64.maxValue.toInt

/-- How many seconds a request took, if it ended. -/
def duration (r : Request) : Option Float :=
  r.endTime.map fun endTime => Decimal.floatOfInt (elapsed r.startTime endTime) / 1000.0

/-- A calculated field; without a formula its formula is empty. -/
def calculatedExpression (c : NamedFormula) : Expression :=
  .calculatedField c.name (c.formula.getD "")

/-- A filter, named after its place in the list of filters. -/
def filterExpression (index : Nat) (formula : String) : Expression :=
  .filter ("Filter " ++ toString (index + 1)) formula

/-- A calculated column of the dataset. -/
def columnExpression (c : DatasetColumn) : Expression :=
  { Expression.calculatedField c.name c.formula with
    datasetCalculation := true
    preProcessed := c.isStored }

/-- A metric of one of the two kinds. -/
def metricExpression (kind : ExpressionKind) (m : NamedFormula) : Expression :=
  .metric kind m.name m.aggregation m.formula

/-- A field; without a formula it refers to itself. -/
def fieldExpression (f : NamedFormula) : Expression :=
  match f.formula with
  | some formula => .ofFormula .field f.name formula
  | none => .field f.name

/-- The expressions of a request, in the order in which they are analysed. -/
def expressions (r : Request) : List Expression :=
  let unnamed :=
    r.calculatedFields.map calculatedExpression ++
    r.filterFormulas.mapIdx filterExpression ++
    r.datasetColumns.map columnExpression ++
    r.conditionalFormattingMetrics.map (metricExpression .conditionalFormattingMetric) ++
    r.fields.map fieldExpression ++
    r.metrics.map (metricExpression .metric)
  unnamed.map fun e => { e with userAlias := r.userAliases.get? e.name }

end Request

end DashCalc
