import DashCalc.Distinct
import DashCalc.Hierarchy.Aggregate
import DashCalc.Hierarchy.Outlier
import DashCalc.Request.Analysis
import DashCalc.Settings.Basic

/-!
# Building the hierarchy

A builder takes requests one by one. A request that names no exploration, sheet or visual is left
out, and so is one whose id the visual has already. `Builder.finish` tags what took long, sums
everything up and counts the different ids.
-/

namespace DashCalc.Hierarchy

/-- Different ids, each once. -/
structure Seen where
  dashboards : List String := []
  analyses : List String := []
  sheets : List String := []
  visuals : List String := []
  requests : List String := []

/-- Numbers of different ids. -/
structure Counts where
  dashboards : Nat
  analyses : Nat
  sheets : Nat
  visuals : Nat
  requests : Nat
  deriving DecidableEq

def Seen.counts (s : Seen) : Counts :=
  ⟨s.dashboards.length, s.analyses.length, s.sheets.length, s.visuals.length, s.requests.length⟩

/-- Where a request stands. -/
structure Address where
  type : ExplorationType
  exploration : String
  sheet : String
  dataset : String
  visual : String
  request : String
  deriving DecidableEq

namespace Address

/-- The address of a request, if it is complete. -/
def ofRequest? (r : Request) : Option Address := do
  let (type, exploration) ← r.exploration
  some ⟨type, exploration, ← r.sheet, r.datasetId, ← r.visual, r.id⟩

/-- The key of the dataset below the sheet. -/
def datasetKey (a : Address) : String := a.sheet ++ "_" ++ a.dataset

/-- The way from the root to the visual, with the names that the request knows. -/
def visualPlaces (a : Address) (names : Request.Names) : List Branch.Place :=
  let explorationName := match a.type with
    | .dashboards => names.dashboard
    | .analyses => names.analysis
  [⟨a.type.key, .explorationType, none⟩, ⟨a.exploration, .exploration, explorationName⟩,
    ⟨a.sheet, .sheet, names.sheet⟩, ⟨a.datasetKey, .dataset, names.dataset⟩,
    ⟨a.visual, .visual, names.visual⟩]

/-- The keys on the way from the root to the request. -/
def path (a : Address) : List String :=
  [a.type.key, a.exploration, a.sheet, a.datasetKey, a.visual, a.request]

/-- Notes the ids of an address. -/
def note (a : Address) (s : Seen) : Seen where
  dashboards := if a.type = .dashboards then addNew s.dashboards a.exploration else s.dashboards
  analyses := if a.type = .analyses then addNew s.analyses a.exploration else s.analyses
  sheets := addNew s.sheets a.sheet
  visuals := addNew s.visuals a.visual
  requests := addNew s.requests a.request

end Address

def Metrics.ofRequest (threshold : Nat) (r : Request) (a : Request.Analysis) : Metrics :=
  let highCost : Bool := threshold < a.totalCost
  { duration := r.duration.getD 0.0
    requestCount := 1
    startTime := some r.startTime
    endTime := r.endTime
    hasError := r.errorCode.isSome
    cost := a.totalCost
    parsedExpressionCount := a.readCount
    highCostRequestCount := if highCost then 1 else 0
    tags := (TagSet.insertIf highCost .highCost ∅).insertIf a.hasRefusal .parsingError
    origin := r.origin
    userAgent := r.userAgent }

def Details.ofRequest (r : Request) (a : Request.Analysis) : Details where
  requestId := r.id
  visualType := r.visualType
  duration := r.duration
  errorCode := r.errorCode
  errorMessage := r.errorMessage
  badges := r.badges
  expressions := a.expressions
  parameters := r.parameters
  filters := r.filters

/-- A hierarchy on the way. Once it is abandoned it is no answer, whatever it holds. -/
structure Builder where
  root : Branch := .root
  /-- How many ids were given to nodes of trees. -/
  taken : Nat := 0
  seen : Seen := {}
  /-- Whether a formula was refused in a way that ends the whole run. -/
  isAbandoned : Bool := false

namespace Builder

/-- Takes a request, and says whether it found a place. If the analysis of the request is abandoned,
so is the builder: neither the tree nor what is said of this request and later ones is an answer. -/
def add (settings : Settings.Analysis) (links : Catalog.DocLinks) (b : Builder) (r : Request) :
    Builder × Bool :=
  match Address.ofRequest? r with
  | none => (b, false)
  | some address =>
    let places := address.visualPlaces r.names
    let opened := b.root.changeAt id places
    if (opened.find? address.path).isSome then ({ b with root := opened }, false)
    else
      let (analysis, taken) := r.analyze links settings.dependencyMode b.taken
      let fill (leaf : Branch) : Branch :=
        { leaf with
          metrics := .ofRequest settings.highCostThreshold r analysis
          details := some (.ofRequest r analysis) }
      ({ root := opened.changeAt fill (places ++ [⟨r.id, .request, none⟩])
         taken
         seen := address.note b.seen
         isAbandoned := b.isAbandoned || analysis.isAbandoned }, true)

/-- Takes requests one after the other, and says of each whether it found a place. This is an answer
unless the builder is abandoned in the end. -/
def addAll (settings : Settings.Analysis) (links : Catalog.DocLinks) :
    Builder → List Request → Builder × List Bool
  | b, [] => (b, [])
  | b, r :: rest =>
    let (b, added) := b.add settings links r
    let (b, others) := addAll settings links b rest
    (b, added :: others)

end Builder

end Hierarchy

/-- The finished hierarchy of some requests. -/
structure Hierarchy where
  root : Hierarchy.Branch
  counts : Hierarchy.Counts

namespace Hierarchy

/-- Tags what took long and sums everything up. -/
def Builder.finish (settings : Settings.Analysis) (b : Builder) : Hierarchy where
  root := (b.root.tagLongDurations settings.longDurationSigma).1.aggregate
    settings.highCostRequestLimit
  counts := b.seen.counts

/-! ## Questions -/

/-- The first request with an id. -/
def findRequest? (h : Hierarchy) (id : String) : Option Branch :=
  h.root.requests.find? fun b => b.key == id

/-- The keys that lead to the first request with an id. -/
def pathToRequest? (h : Hierarchy) (id : String) : Option (List String) :=
  h.root.pathWhere? fun b => b.level == .request && b.key == id

def expressions (h : Hierarchy) : List Expression :=
  (h.root.requests.filterMap Branch.details).flatMap Details.expressions

/-- The expression of a name; of several, a calculated field goes first. -/
def Details.expression? (d : Details) (name : String) : Option Expression :=
  (d.expressions.find? fun e => e.name == name && e.kind == .calculatedField) <|>
    d.expressions.find? fun e => e.name == name

/-- The dependencies of an expression of a request. -/
def chain? (h : Hierarchy) (links : Catalog.DocLinks) (mode : Cost.Mode) (id name : String) :
    Option (List Cost.Dependency) := do
  let details ← (← h.findRequest? id).details
  let e ← details.expression? name
  some (Cost.Scope.chain ⟨details.expressions, details.parameters, links, mode⟩ e)

end Hierarchy

end DashCalc
