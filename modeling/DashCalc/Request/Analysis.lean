import DashCalc.Cost.Report
import DashCalc.Reference.Order
import DashCalc.Request.Basic

/-!
# What a request costs

The formulas of a request are read, except for those whose values come from elsewhere: custom
metrics, fields that stand for a calculated field, and columns stored with the dataset. What was
read is costed, a calculated field after those it refers to if there is such an order. Then custom
metrics take the cost of their calculated field.
-/

namespace DashCalc.Request

/-- What is known of a request once it is analysed. -/
structure Analysis where
  expressions : List Expression
  totalCost : Nat
  /-- Whether a formula was refused. -/
  hasRefusal : Bool
  /-- How many expressions of the query were read. -/
  readCount : Nat

/-- Whether a formula was refused in a way that ends the whole run, so that the analysis is no
answer. -/
def Analysis.isAbandoned (a : Analysis) : Bool :=
  a.expressions.any fun e => e.reading.refusal?.any fun r => r.cause.isAbrupt

def calculatedNames (expressions : List Expression) : List String :=
  (expressions.filter fun e => e.kind == .calculatedField).map Expression.name

/-- Whether the values of an expression come from a calculated field: it is a custom metric, or a
field of the name of one of these. -/
def isDelegated (calculated : List String) (e : Expression) : Bool :=
  (e.kind == .field && calculated.contains e.name) || e.isCustomMetric

/-- Reads an expression unless its values come from elsewhere, and says whether it goes into the
query; gives the number of ids taken by then. -/
def readOne (calculated : List String) (e : Expression) (taken : Nat) : Expression × Nat :=
  if isDelegated calculated e then ({ e with usedInQuery := true }, taken)
  else if e.preProcessed then ({ e with usedInQuery := e.kind.isQueryInput }, taken)
  else
    let (read, taken) := e.read taken
    ({ read with usedInQuery := e.kind.isQueryInput }, taken)

/-- Reads expressions one after the other. -/
def readAll (calculated : List String) : List Expression → Nat → List Expression × Nat
  | [], taken => ([], taken)
  | e :: rest, taken =>
    let (read, taken) := readOne calculated e taken
    let (others, taken) := readAll calculated rest taken
    (read :: others, taken)

/-- The places of the expressions that satisfy a condition. -/
def indicesWhere (p : Expression → Bool) (expressions : List Expression) : List Nat :=
  (expressions.zipIdx.filter fun (e, _) => p e).map Prod.snd

/-- The order in which expressions are costed, as a list of places: calculated fields in the order
of their references if there is one, then the others as they come. -/
def costOrder (expressions : List Expression) : List Nat :=
  let names := (ReferenceGraph.ofExpressions expressions).evaluationOrder.getD []
  let first := names.flatMap fun name =>
    indicesWhere (fun e => e.kind == .calculatedField && e.name == name) expressions
  first ++ (List.range expressions.length).filter fun index => !first.contains index

/-- Costs the expression at a place, if it was read. -/
def costAt (scope : Cost.Scope) (index : Nat) : Cost.Scope :=
  match scope.expressions[index]? with
  | none => scope
  | some e =>
    match scope.analyze e with
    | none => scope
    | some report => { scope with expressions := scope.expressions.set index (report.apply e) }

/-- The calculated field from which a custom metric takes its cost: the first one of its name that
was read. -/
def costSource (expressions : List Expression) (name : String) : Option Expression :=
  expressions.find? fun e => e.kind == .calculatedField && e.isRead && e.name == name

/-- A custom metric with the cost of its calculated field; other expressions stay. -/
def withSourceCost (expressions : List Expression) (e : Expression) : Expression :=
  if e.isCustomMetric then
    match costSource expressions e.name with
    | some source => { e with cost := source.cost, maxDepth := source.maxDepth }
    | none => e
  else e

/-- The sums over analysed expressions. -/
def Analysis.ofExpressions (expressions : List Expression) : Analysis where
  expressions
  totalCost := expressions.foldr (fun e sum => e.cost.getD 0 + sum) 0
  hasRefusal := expressions.any Expression.isRefused
  readCount := expressions.countP fun e => e.isRead && e.usedInQuery

/-- The analysis with a given order of costing; gives the number of ids taken by then. Reading goes
on after a formula that ends the whole run, but then the analysis is abandoned and no answer. -/
def analyzeInOrder (order : List Expression → List Nat) (links : Catalog.DocLinks)
    (mode : Cost.Mode) (r : Request) (taken : Nat) : Analysis × Nat :=
  let named := r.expressions
  let (read, taken) := readAll (calculatedNames named) named taken
  let scope := (order read).foldl costAt ⟨read, r.parameters, links, mode⟩
  (.ofExpressions (scope.expressions.map (withSourceCost scope.expressions)), taken)

/-- The analysis of a request; gives the number of ids taken by then. If the analysis is abandoned,
there is no answer, and nothing else that is found here comes of the request. -/
def analyze (links : Catalog.DocLinks) (mode : Cost.Mode) (r : Request) (taken : Nat) :
    Analysis × Nat :=
  r.analyzeInOrder costOrder links mode taken

end DashCalc.Request
