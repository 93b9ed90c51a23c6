import DashCalc.Decimal.Written
import DashCalc.Hierarchy.Build

/-!
# The hierarchy as lines of text

`Branch.outline` shows a tree with one line for each branch, indented by its depth.
`Hierarchy.summary` shows the counts and the tagged requests. `chainLines` shows what an expression
depends on.
-/

namespace DashCalc

namespace Hierarchy

/-- Two blanks for each level. -/
def indentation (depth : Nat) : String := String.ofList (List.replicate (2 * depth) ' ')

def tagList (tags : TagSet) : String := "[" ++ joinNames ", " (tags.toList.map Tag.name) ++ "]"

namespace Branch

/-- What is shown for a branch: its name and key, and its metrics. -/
def headline (key : String) (name : Option String) (m : Metrics) : String :=
  let label := match name with
    | some name => name ++ " (" ++ key ++ ")"
    | none => key
  label ++ "  requests=" ++ toString m.requestCount ++ " cost=" ++ toString m.cost ++
    " duration=" ++ String.ofList (Decimal.fixed 3 m.duration) ++ "s" ++
    (if m.hasError then " error" else "") ++
    (if m.tags.toList.isEmpty then "" else " " ++ tagList m.tags)

mutual

/-- The lines of a tree at a depth. -/
def outline (depth : Nat) : Branch → List String
  | ⟨key, _, name, metrics, _, children⟩ =>
    (indentation depth ++ headline key name metrics) :: outlines (depth + 1) children

def outlines (depth : Nat) : List Branch → List String
  | [] => []
  | b :: rest => outline depth b ++ outlines depth rest

end

end Branch

/-- The counts of a hierarchy, and its tagged requests if there are any. -/
def summary (h : Hierarchy) : List String :=
  let counts := [
    "Dashboards: " ++ toString h.counts.dashboards,
    "Analyses:   " ++ toString h.counts.analyses,
    "Sheets:     " ++ toString h.counts.sheets,
    "Visuals:    " ++ toString h.counts.visuals,
    "Requests:   " ++ toString h.counts.requests,
    "Total cost: " ++ toString h.root.metrics.cost]
  let tagged := h.root.requests.filter fun b => !b.metrics.tags.toList.isEmpty
  if tagged.isEmpty then counts
  else
    counts ++ ["", "Tagged requests:"] ++
      tagged.map fun b => "  - " ++ b.key ++ " " ++ tagList b.metrics.tags

/-- A dependency on a line, indented by its level. -/
def dependencyLine (d : Cost.Dependency) : String :=
  indentation d.level ++ d.name ++ " (" ++ d.kind.name ++ ") cost=" ++ toString d.cost ++
    match d.docLink with
    | some link => "  " ++ link
    | none => ""

/-- The dependencies of an expression, a line for each. -/
def chainLines (chain : List Cost.Dependency) : List String := chain.map dependencyLine

end Hierarchy

end DashCalc
