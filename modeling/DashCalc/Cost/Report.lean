import DashCalc.Catalog.Docs
import DashCalc.Cost.Dependency
import DashCalc.Cost.Step
import DashCalc.Expression.Basic

/-!
# The cost of an expression

`Scope.report` goes through the steps of a tree and adds up what its calls cost, how deep they
nest, what kind of computation they are and what the tree depends on. A reference to a calculated
field is followed into the tree of that field, one level deeper, unless the field is being followed
already: so following ends, whatever the fields refer to.

A reference means the parameter of that name if there is one, else the first calculated field, else
the first field. Depending on the mode, dependencies are recorded at every place or once, calls by
their ids and references by their names; a reference that was recorded is not followed again.
-/

namespace DashCalc.Cost

/-- Whether repeated dependencies are recorded every time. -/
inductive Mode
  | exhaustive | deduplicated
  deriving DecidableEq

def Mode.name : Mode → String
  | exhaustive => "exhaustive"
  | deduplicated => "deduplicated"

def Mode.ofName? (name : String) : Option Mode :=
  [.exhaustive, .deduplicated].find? fun m => m.name == name

/-- What names mean, and how dependencies are recorded. -/
structure Scope where
  expressions : List Expression
  parameters : Dictionary String
  links : Catalog.DocLinks
  mode : Mode

/-- What a name refers to. -/
inductive Referent
  | parameter (value : String)
  | calculatedField (e : Expression)
  | field (e : Expression)
  | unknown

namespace Scope

/-- The first expression of a kind and a name. -/
def find? (scope : Scope) (kind : ExpressionKind) (name : String) : Option Expression :=
  scope.expressions.find? fun e => e.kind == kind && e.name == name

/-- What a name refers to. -/
def referent (scope : Scope) (name : String) : Referent :=
  match scope.parameters.get? name with
  | some value => .parameter value
  | none =>
    match scope.find? .calculatedField name with
    | some e => .calculatedField e
    | none =>
      match scope.find? .field name with
      | some e => .field e
      | none => .unknown

end Scope

/-- What has been added up so far. Levels, depths and costs are natural numbers: counters of a fixed
width are read as ones that do not overflow. -/
structure Tally where
  level : Nat
  maxDepth : Nat
  cost : Nat
  isAggregation : Bool
  isStringFunction : Bool
  dependencies : Array Dependency
  seenCalls : List NodeId
  seenNames : List String
  /-- The names of the calculated fields that are being followed, the last one first. -/
  following : List String

/-- Whether a function aggregates over a window: an aggregate or table calculation of a certain
name. -/
def isWindowed (name : String) (category : Option Catalog.Category) : Bool :=
  let lower := (lowerName name).toList
  (category == some .aggregate || category == some .tableCalculation) &&
    ("over".toList.isSuffixOf lower || "window".toList.isPrefixOf lower ||
      "running".toList.isPrefixOf lower)

namespace Tally

/-- Before the first step. -/
def start (following : List String) : Tally :=
  ⟨0, 0, 0, false, false, #[], [], [], following⟩

def enter (t : Tally) : Tally :=
  { t with level := t.level + 1, maxDepth := max t.maxDepth (t.level + 1) }

def leave (t : Tally) : Tally := { t with level := t.level - 1 }

/-- Adds the cost of a call and what it says about the computation. -/
def charge (t : Tally) (aggregate : Bool) (name : String) : Tally :=
  let info := Catalog.lookup name
  { t with
    cost := t.cost + info.cost
    isStringFunction := t.isStringFunction || info.category == some .string
    isAggregation := t.isAggregation || aggregate || isWindowed name info.category }

def record (t : Tally) (d : Dependency) : Tally :=
  { t with dependencies := t.dependencies.push d }

/-- Records a call, once per id if repetitions are not recorded. -/
def recordCall (scope : Scope) (t : Tally) (id : NodeId) (aggregate : Bool) (name : String) :
    Tally :=
  let d : Dependency :=
    ⟨name, if aggregate then .aggregate else .function, "", Catalog.cost name, t.level,
      scope.links.link name⟩
  match scope.mode with
  | .exhaustive => t.record d
  | .deduplicated =>
    if t.seenCalls.contains id then t
    else { t with seenCalls := id :: t.seenCalls }.record d

/-- Records a reference at the present level. -/
def recordReference (t : Tally) (name : String) (kind : DependencyKind) (formula : String)
    (cost : Nat) : Tally :=
  t.record ⟨name, kind, formula, cost, t.level, none⟩

def recordReferent (t : Tally) (name : String) : Referent → Tally
  | .parameter value => t.recordReference name .parameter value 0
  | .calculatedField e => t.recordReference name .calculatedField e.formula (e.cost.getD 0)
  | .field e => t.recordReference name .field e.formula (e.cost.getD 0)
  | .unknown => t.recordReference name .field "" 0

/-- Follows a name into the tree of its calculated field, unless that is being done already. -/
def follow (descend : List Step → Tally → Tally) (t : Tally) (name : String) : Referent → Tally
  | .calculatedField e =>
    match e.tree? with
    | none => t
    | some n =>
      if t.following.contains name then t
      else
        let below := descend (steps n) { t with following := name :: t.following }.enter
        { below.leave with following := t.following }
  | _ => t

/-- Meets a name, and follows it if asked to. If repetitions are not recorded, a name that was met
before is passed over. -/
def reference (scope : Scope) (descend? : Option (List Step → Tally → Tally)) (t : Tally)
    (name : String) : Tally :=
  let met (t : Tally) : Tally :=
    let referent := scope.referent name
    let recorded := t.recordReferent name referent
    match descend? with
    | some descend => recorded.follow descend name referent
    | none => recorded
  match scope.mode with
  | .exhaustive => met t
  | .deduplicated =>
    if t.seenNames.contains name then t
    else met { t with seenNames := name :: t.seenNames }

/-- One step; `descend` goes through the steps of a calculated field. -/
def step (scope : Scope) (descend : List Step → Tally → Tally) (t : Tally) : Step → Tally
  | .call id aggregate name => (t.charge aggregate name).recordCall scope id aggregate name
  | .reference name => t.reference scope (some descend) name
  | .deeper => t.enter
  | .shallower => t.leave
  | .callAgain id aggregate name => t.recordCall scope id aggregate name
  | .referenceAgain name => t.reference scope none name

/-- All steps, following calculated fields at most `budget` deep. -/
def run (scope : Scope) : Nat → List Step → Tally → Tally
  | 0, steps, t => steps.foldl (step scope fun _ t => t) t
  | budget + 1, steps, t => steps.foldl (step scope (run scope budget)) t

end Tally

/-- What an expression costs and depends on. -/
structure Report where
  totalCost : Nat
  maxDepth : Nat
  isAggregation : Bool
  isStringFunction : Bool
  dependencies : List Dependency
  deriving DecidableEq

def Tally.report (t : Tally) : Report :=
  ⟨t.cost, t.maxDepth, t.isAggregation, t.isStringFunction, t.dependencies.toList⟩

/-- A report as the fields of an object. -/
def Report.fields (r : Report) : List (String × Json) :=
  [("totalCost", .int r.totalCost), ("maxDepth", .int r.maxDepth),
    ("isAggregation", .bool r.isAggregation), ("isStringFunction", .bool r.isStringFunction),
    ("dependencies", .arr (r.dependencies.map Dependency.toJson))]

/-- The expression with the results of its report. -/
def Report.apply (r : Report) (e : Expression) : Expression :=
  { e with
    cost := some r.totalCost
    maxDepth := some r.maxDepth
    isAggregation := r.isAggregation
    isStringFunction := r.isStringFunction }

namespace Scope

/-- The report of a tree; `own` is the name under which the tree itself is followed, if it has
one. Names are followed at most as deep as there are expressions, which is no bound: each one on
the way is a different calculated field. -/
def report (scope : Scope) (own : Option String) (n : Node) : Report :=
  (Tally.run scope scope.expressions.length (steps n) (.start own.toList)).report

/-- The report of an expression that was read. A calculated field is followed under its name. -/
def analyze (scope : Scope) (e : Expression) : Option Report :=
  e.tree?.map fun n =>
    scope.report (if e.kind == .calculatedField then some e.name else none) n

/-- The dependencies of an expression, one level down; a calculated field itself comes first. -/
def chain (scope : Scope) (e : Expression) : List Dependency :=
  let own : List Dependency :=
    if e.kind == .calculatedField then
      [⟨e.name, .calculatedField, e.formula, e.cost.getD 0, 0, none⟩]
    else []
  let below := ((scope.analyze e).map Report.dependencies).getD []
  own ++ below.map fun d => { d with level := d.level + 1 }

end Scope

end DashCalc.Cost
