import DashCalc.Catalog.Basic

/-!
# Links into the function reference

A function that has a page in the vendor's reference can be linked to it. The page is found through
the catalogue, so the canonical and the formula name of a function lead to the same page
(`pageFor_eq_of_find`).
-/

namespace DashCalc.Catalog

/-- Where the vendor's function reference is by default. -/
def defaultDocsBase : String := "https://docs.aws.amazon.com/quicksight/latest/user/"

/-- The formula functions with a page of their own. -/
def documented : List String := [
  "sum", "sumIf", "minOver", "maxOver", "avgOver", "countOver", "distinctCountOver", "sumOver",
  "addDateTime", "addWorkDays", "dateDiff", "ceil", "floor", "round", "contains", "locate",
  "windowSum", "difference", "lag", "lead", "percentDifference", "percentileOver",
  "percentileContOver", "percentileDiscOver", "percentOfTotal", "periodOverPeriodDifference",
  "periodOverPeriodLastValue", "periodOverPeriodPercentDifference", "periodToDateAvgOverTime",
  "periodToDateCountOverTime", "periodToDateMaxOverTime", "periodToDateMinOverTime",
  "periodToDateSumOverTime", "stdevOver", "stdevpOver", "varOver", "varpOver", "denseRank",
  "rank", "percentileRank", "runningAvg", "runningCount", "runningMax", "runningMin",
  "runningSum", "firstValue", "lastValue", "windowAvg", "windowCount", "windowMax", "windowMin",
  "concat", "toString"]

/-- The page of a function, if it has one. -/
def pageFor (name : String) : Option String :=
  let formulaName := match find name with
    | some e => e.formulaName
    | none => name
  documented.find? fun page => sameName page formulaName

/-- Two names of one entry have the same page. -/
theorem pageFor_eq_of_find {a b : String} {e : Entry} (ha : find a = some e)
    (hb : find b = some e) : pageFor a = pageFor b := by
  simp only [pageFor, ha, hb]

/-- How functions are linked: not at all, or below a base address that ends in a slash. -/
inductive DocLinks
  | off
  | below (base : String)
  deriving DecidableEq

namespace DocLinks

/-- Links below an address; a slash is added where it lacks one. -/
def rootedAt (address : String) : DocLinks :=
  below (if address.toList.getLast? = some '/' then address else address ++ "/")

/-- Links below the vendor's own address. -/
def standard : DocLinks := rootedAt defaultDocsBase

def link : DocLinks → String → Option String
  | off, _ => none
  | below base, name => (pageFor name).map fun page => base ++ page ++ "-function.html"

end DocLinks

end DashCalc.Catalog
