import DashCalc.Hierarchy.Tag
import DashCalc.Request.Basic

/-!
# The hierarchy of requests

Requests stand in a tree below the visual, the dataset, the sheet and the exploration they belong
to. A branch of the tree has a key among its siblings, and its children in the order in which they
came. `Branch.changeAt` reaches any place of the tree by the keys on the way, and makes what is
missing.
-/

namespace DashCalc.Hierarchy

/-- What a branch stands for. -/
inductive Level
  | root | explorationType | exploration | sheet | dataset | visual | request
  deriving DecidableEq

namespace Level

def all : List Level := [root, explorationType, exploration, sheet, dataset, visual, request]

def name : Level → String
  | root => "root"
  | explorationType => "explorationType"
  | exploration => "exploration"
  | sheet => "sheet"
  | dataset => "dataset"
  | visual => "visual"
  | request => "request"

def ofName? (name : String) : Option Level := all.find? fun l => l.name == name

end Level

/-- What is summed up for a branch. -/
structure Metrics where
  /-- Seconds. -/
  duration : Float := 0.0
  requestCount : Nat := 0
  /-- Milliseconds. -/
  startTime : Option Int64 := none
  /-- Milliseconds. -/
  endTime : Option Int64 := none
  hasError : Bool := false
  cost : Nat := 0
  parsedExpressionCount : Nat := 0
  highCostRequestCount : Nat := 0
  tags : TagSet := ∅
  origin : Option String := none
  userAgent : Option String := none

/-- What is kept of a request. -/
structure Details where
  requestId : String
  visualType : Option String := none
  /-- Seconds; absent if the request never ended. -/
  duration : Option Float := none
  errorCode : Option String := none
  errorMessage : Option String := none
  badges : Request.Badges := {}
  expressions : List Expression := []
  parameters : Dictionary String := ∅
  filters : List Json := []

/-- A branch of the tree. -/
structure Branch where
  key : String
  level : Level
  /-- The name to show. -/
  name : Option String
  metrics : Metrics
  details : Option Details
  children : List Branch

namespace Branch

/-- A branch that nothing is known of. -/
def new (key : String) (level : Level) : Branch := ⟨key, level, none, {}, none, []⟩

/-- The root of an empty tree. -/
def root : Branch := new "Explorations" .root

/-- Whether nothing is below the branch. -/
def isLeaf (b : Branch) : Bool := b.children.isEmpty

def child? (b : Branch) (key : String) : Option Branch := b.children.find? fun c => c.key == key

/-- The branch that the keys lead to. -/
def find? (b : Branch) : List String → Option Branch
  | [] => some b
  | key :: path => (b.child? key).bind fun c => c.find? path

/-! ## Changes -/

/-- Changes the first branch with the key of `new`; if there is none, `new` is put at the end and
changed. -/
def changeAmong (new : Branch) (change : Branch → Branch) : List Branch → List Branch
  | [] => [change new]
  | b :: rest => if b.key == new.key then change b :: rest else b :: changeAmong new change rest

/-- A step on the way from the root to a branch. -/
structure Place where
  key : String
  level : Level
  /-- A name for the branch, if it has none yet. -/
  name : Option String := none

/-- The branch with a name, if it has none yet. -/
def named (b : Branch) (name : Option String) : Branch := { b with name := b.name <|> name }

/-- Changes the branch that the places lead to. What is missing on the way is made, and what has no
name is named. -/
def changeAt (change : Branch → Branch) : List Place → Branch → Branch
  | [], b => change b
  | place :: path, b =>
    { b with
      children := changeAmong (new place.key place.level)
        (fun c => changeAt change path (c.named place.name)) b.children }

/-! ## Views -/

mutual

/-- The branch and all below it, each before what is below it. -/
def branches : Branch → List Branch
  | ⟨key, level, name, metrics, details, children⟩ =>
    ⟨key, level, name, metrics, details, children⟩ :: branchesOfAll children

def branchesOfAll : List Branch → List Branch
  | [] => []
  | b :: rest => branches b ++ branchesOfAll rest

end

/-- The branches with the details of a request. -/
def requests (b : Branch) : List Branch := b.branches.filter fun c => c.details.isSome

mutual

/-- The keys that lead from the branch to the first one below it that satisfies the condition. -/
def pathWhere? (p : Branch → Bool) : Branch → Option (List String)
  | ⟨_, _, _, _, _, children⟩ => pathAmong? p children

/-- The keys that lead to the first branch among these and all below them that satisfies the
condition. -/
def pathAmong? (p : Branch → Bool) : List Branch → Option (List String)
  | [] => none
  | b :: rest =>
    if p b then some [b.key]
    else
      match pathWhere? p b with
      | some path => some (b.key :: path)
      | none => pathAmong? p rest

end

/-- The keys that lead to the first branch below with this key. -/
def pathTo? (b : Branch) (key : String) : Option (List String) :=
  b.pathWhere? fun c => c.key == key

end Branch

end DashCalc.Hierarchy
