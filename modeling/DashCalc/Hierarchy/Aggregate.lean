import DashCalc.Hierarchy.Basic

/-!
# Sums over branches

A branch with children sums up what they have, from the leaves to the root. Its duration and its
number of requests are those of the children alone; costs and the other counts are added to what
the branch had before. A branch with too many costly requests is costly itself.
-/

namespace DashCalc.Hierarchy

namespace Metrics

/-- The sum of a number over the children. -/
def sumOf (number : Metrics → Nat) (children : List Branch) : Nat :=
  children.foldr (fun c sum => number c.metrics + sum) 0

/-- What the children have of an optional value. -/
def valuesOf {α : Type} (value : Metrics → Option α) (children : List Branch) : List α :=
  children.filterMap fun c => value c.metrics

/-- Whether a child or the request itself at this child failed. -/
def failed (c : Branch) : Bool :=
  c.metrics.hasError || c.details.any fun d => d.errorCode.isSome

/-- The metrics of a branch with these children; `limit` is the largest number of costly requests
that is not too many. -/
def gather (limit : Nat) (own : Metrics) (children : List Branch) : Metrics :=
  let highCostRequestCount :=
    own.highCostRequestCount + sumOf highCostRequestCount children
  let tags := children.foldl (fun tags c => tags.union c.metrics.tags) own.tags
  { duration := children.foldl (fun sum c => sum + c.metrics.duration) 0.0
    requestCount := sumOf requestCount children
    startTime := (valuesOf startTime children).min? <|> own.startTime
    endTime := (valuesOf endTime children).max? <|> own.endTime
    hasError := own.hasError || children.any failed
    cost := own.cost + sumOf cost children
    parsedExpressionCount := own.parsedExpressionCount + sumOf parsedExpressionCount children
    highCostRequestCount
    tags := tags.insertIf (limit < highCostRequestCount) .highCost
    origin := (valuesOf origin children).getLast? <|> own.origin
    userAgent := (valuesOf userAgent children).getLast? <|> own.userAgent }

end Metrics

namespace Branch

mutual

/-- Sums up a tree from the leaves to the root. Leaves stay as they are. -/
def aggregate (limit : Nat) : Branch → Branch
  | ⟨key, level, name, metrics, details, children⟩ =>
    if children.isEmpty then ⟨key, level, name, metrics, details, children⟩
    else
      let children := aggregateAll limit children
      ⟨key, level, name, metrics.gather limit children, details, children⟩

def aggregateAll (limit : Nat) : List Branch → List Branch
  | [] => []
  | b :: rest => aggregate limit b :: aggregateAll limit rest

end

end Branch

end DashCalc.Hierarchy
