import DashCalc.Node.OfSql

/-!
# Named expressions of a request

A request names its expressions. Each has a formula and a kind, is unread, read into a tree or
refused, and gets a cost once it is analysed.
-/

namespace DashCalc

/-- What an expression is used for. -/
inductive ExpressionKind
  | field | calculatedField | metric | conditionalFormattingMetric | filter
  deriving DecidableEq

namespace ExpressionKind

def all : List ExpressionKind :=
  [field, calculatedField, metric, conditionalFormattingMetric, filter]

def name : ExpressionKind → String
  | field => "field"
  | calculatedField => "calculatedField"
  | metric => "metric"
  | conditionalFormattingMetric => "conditionalFormattingMetric"
  | filter => "filterExpression"

def ofName? (name : String) : Option ExpressionKind := all.find? fun k => k.name == name

/-- Whether expressions of this kind go into the query themselves. Calculated fields only do
through others that refer to them. -/
def isQueryInput (k : ExpressionKind) : Bool := k != calculatedField

/-- Whether it is a metric, for values or for formatting. -/
def isMetric (k : ExpressionKind) : Bool := k == metric || k == conditionalFormattingMetric

end ExpressionKind

/-- Whether the formula of an expression has been read. -/
inductive Reading
  | unread
  | tree (n : Node)
  | refused (r : Refusal)

namespace Reading

def tree? : Reading → Option Node
  | tree n => some n
  | _ => none

def refusal? : Reading → Option Refusal
  | refused r => some r
  | _ => none

end Reading

/-- A named expression. -/
structure Expression where
  name : String
  /-- The name shown to users, where it differs. -/
  userAlias : Option String
  kind : ExpressionKind
  formula : String
  aggregation : Option String
  reading : Reading
  cost : Option Nat
  maxDepth : Option Nat
  isAggregation : Bool
  isStringFunction : Bool
  /-- Whether it goes into the query. -/
  usedInQuery : Bool
  /-- Whether its values are stored with the dataset, so that its formula is not read. -/
  preProcessed : Bool
  /-- Whether it is defined on the dataset. -/
  datasetCalculation : Bool

namespace Expression

/-- An expression that nothing is known of but its formula. -/
def ofFormula (kind : ExpressionKind) (name formula : String) : Expression where
  name
  userAlias := none
  kind
  formula
  aggregation := none
  reading := .unread
  cost := none
  maxDepth := none
  isAggregation := false
  isStringFunction := false
  usedInQuery := false
  preProcessed := false
  datasetCalculation := false

/-- The formula that refers to a name. -/
def referenceTo (name : String) : String := "\x7b" ++ name ++ "\x7d"

/-- A plain field, whose formula refers to itself. -/
def field (name : String) : Expression := ofFormula .field name (referenceTo name)

def calculatedField (name formula : String) : Expression :=
  ofFormula .calculatedField name formula

def filter (name formula : String) : Expression := ofFormula .filter name formula

/-- Whether the aggregation says that the metric is a calculated field of its own. -/
def isCustom (aggregation : String) : Bool := sameName aggregation "CUSTOM"

/-- A metric. Without a formula, its aggregation is applied to the field of its name; a custom one
refers to that field. -/
def metric (kind : ExpressionKind) (name : String) (aggregation formula : Option String) :
    Expression :=
  let formula := formula.getD <|
    match aggregation with
    | some function =>
      if isCustom function then referenceTo name
      else function ++ "(" ++ referenceTo name ++ ")"
    | none => referenceTo name
  { ofFormula kind name formula with aggregation }

/-- Whether the metric takes its cost from the calculated field of its name. -/
def isCustomMetric (e : Expression) : Bool := e.kind.isMetric && e.aggregation.any isCustom

def displayName (e : Expression) : String := e.userAlias.getD e.name

/-- The tree, if the formula was read. -/
def tree? (e : Expression) : Option Node := e.reading.tree?

def isRead (e : Expression) : Bool := e.tree?.isSome

def isRefused (e : Expression) : Bool := e.reading.refusal?.isSome

/-- Reads the formula; gives the number of ids taken by then. -/
def read (e : Expression) (taken : Nat) : Expression × Nat :=
  match Node.ofFormula e.formula taken with
  | (.ok n, count) => ({ e with reading := .tree n }, count)
  | (.error r, count) => ({ e with reading := .refused r }, count)

end Expression

end DashCalc
