import DashCalc.Text.Basic

/-!
# The catalogue of formula functions

Every function a formula may call has a name as written in formulas (`maxOver`), a canonical name
that SQL accepts (`MAX_OVER`), a category and a cost. Names are found whatever the case of their
ASCII letters. `find` looks at the canonical names first and `keyFor` at the formula names first;
a name outside the catalogue costs `defaultCost`.
-/

namespace DashCalc.Catalog

/-- What a function is for. -/
inductive Category
  | aggregate | conditional | date | numeric | mathematical | string | tableCalculation
  deriving DecidableEq

/-- The heading a category has in the vendor's function reference. -/
def Category.label : Category → String
  | aggregate => "Aggregate Functions"
  | conditional => "Conditional Functions"
  | date => "Date Functions"
  | numeric => "Numeric Functions"
  | mathematical => "Mathematical Functions"
  | string => "String Functions"
  | tableCalculation => "Table Calculation Functions"

def Category.tag : Category → String
  | aggregate => "aggregate"
  | conditional => "conditional"
  | date => "date"
  | numeric => "numeric"
  | mathematical => "mathematical"
  | string => "string"
  | tableCalculation => "tableCalculation"

/-- One function of the catalogue. -/
structure Entry where
  /-- The name SQL and the cost table know. -/
  canonical : String
  /-- The name as written in formulas. -/
  formulaName : String
  category : Category
  cost : Nat
  /-- Whether the function belongs to the family of least-aggregated computations. -/
  leastAggregated : Bool
  deriving DecidableEq

/-- A least-aggregated computation. -/
def Entry.aggregate (canonical formulaName : String) (cost : Nat) : Entry :=
  ⟨canonical, formulaName, .aggregate, cost, true⟩

/-- A function of another category. -/
def Entry.other (canonical formulaName : String) (category : Category) (cost : Nat) : Entry :=
  ⟨canonical, formulaName, category, cost, false⟩

/-- All functions, in the order of the reference. The names that end in `_LACA` share their
formula name with the plain aggregate, which comes first. -/
def table : List Entry := [
  .aggregate "AVG" "avg" 5,
  .aggregate "COUNT" "count" 3,
  .aggregate "COUNT_DISTINCT" "countDistinct" 7,
  .aggregate "MAX" "max" 4,
  .aggregate "MEDIAN" "median" 6,
  .aggregate "MIN" "min" 4,
  .aggregate "PERCENTILE_DISC" "percentileDisc" 8,
  .aggregate "PERCENTILE_CONT" "percentileCont" 8,
  .aggregate "SUM" "sum" 5,
  .aggregate "STDEV" "stdev" 6,
  .aggregate "STDEVP" "stdevp" 6,
  .aggregate "VAR" "var" 6,
  .aggregate "VARP" "varp" 6,
  .aggregate "AVG_LACA" "avg" 7,
  .aggregate "COUNT_LACA" "count" 7,
  .aggregate "COUNT_DISTINCT_LACA" "countDistinct" 7,
  .aggregate "MAX_LACA" "max" 7,
  .aggregate "MEDIAN_LACA" "median" 7,
  .aggregate "MIN_LACA" "min" 7,
  .aggregate "PERCENTILE_DISC_LACA" "percentileDisc" 7,
  .aggregate "PERCENTILE_CONT_LACA" "percentileCont" 7,
  .aggregate "SUM_LACA" "sum" 7,
  .aggregate "STDEV_LACA" "stdev" 7,
  .aggregate "STDEVP_LACA" "stdevp" 7,
  .aggregate "VAR_LACA" "var" 7,
  .aggregate "VARP_LACA" "varp" 7,
  .other "COALESCE" "coalesce" .conditional 2,
  .other "IFELSE" "ifelse" .conditional 2,
  .other "IN" "in" .conditional 3,
  .other "ISNOTNULL" "isNotNull" .conditional 1,
  .other "ISNULL" "isNull" .conditional 1,
  .other "NOTIN" "notIn" .conditional 3,
  .other "NULLIF" "nullIf" .conditional 2,
  .other "SWITCH" "switch" .conditional 3,
  .other "ADDDATETIME" "addDateTime" .date 4,
  .other "ADDWORKDAYS" "addWorkDays" .date 4,
  .other "DATEDIFF" "dateDiff" .date 4,
  .other "EPOCHDATE" "epochDate" .date 3,
  .other "EXTRACT" "extract" .date 3,
  .other "FORMATDATE" "formatDate" .date 3,
  .other "ISWORKDAY" "isWorkDay" .date 3,
  .other "NETWORKDAYS" "netWorkDays" .date 4,
  .other "NOW" "now" .date 2,
  .other "TRUNCDATE" "truncDate" .date 3,
  .other "CEIL" "ceil" .numeric 2,
  .other "DECIMALTOINT" "decimalToInt" .numeric 2,
  .other "FLOOR" "floor" .numeric 2,
  .other "INTTODECIMAL" "intToDecimal" .numeric 2,
  .other "ROUND" "round" .numeric 2,
  .other "ABS" "abs" .mathematical 2,
  .other "EXP" "exp" .mathematical 3,
  .other "LN" "ln" .mathematical 3,
  .other "LOG" "log" .mathematical 3,
  .other "MOD" "mod" .mathematical 2,
  .other "SQRT" "sqrt" .mathematical 3,
  .other "CONCAT" "concat" .string 2,
  .other "CONTAINS" "contains" .string 3,
  .other "ENDSWITH" "endsWith" .string 2,
  .other "LEFT" "left" .string 2,
  .other "LOCATE" "locate" .string 2,
  .other "LTRIM" "ltrim" .string 2,
  .other "PARSEDATE" "parseDate" .string 3,
  .other "PARSEDECIMAL" "parseDecimal" .string 3,
  .other "PARSEINT" "parseInt" .string 3,
  .other "PARSEJSON" "parseJson" .string 4,
  .other "REPLACE" "replace" .string 2,
  .other "RIGHT" "right" .string 2,
  .other "RTRIM" "rtrim" .string 2,
  .other "SPLIT" "split" .string 2,
  .other "STARTSWITH" "startsWith" .string 2,
  .other "STRLEN" "strlen" .string 2,
  .other "SUBSTRING" "substring" .string 2,
  .other "TOLOWER" "toLower" .string 1,
  .other "TOSTRING" "toString" .string 1,
  .other "TOUPPER" "toUpper" .string 1,
  .other "TRIM" "trim" .string 2,
  .other "DIFFERENCE" "difference" .tableCalculation 5,
  .other "LAG" "lag" .tableCalculation 5,
  .other "LEAD" "lead" .tableCalculation 5,
  .other "PERCENT_DIFFERENCE" "percentDifference" .tableCalculation 5,
  .other "AVG_OVER" "avgOver" .tableCalculation 7,
  .other "COUNT_OVER" "countOver" .tableCalculation 7,
  .other "DISTINCT_COUNT_OVER" "distinctCountOver" .tableCalculation 7,
  .other "MAX_OVER" "maxOver" .tableCalculation 7,
  .other "MIN_OVER" "minOver" .tableCalculation 7,
  .other "PERCENTILE_OVER" "percentileOver" .tableCalculation 8,
  .other "PERCENTILE_CONT_OVER" "percentileContOver" .tableCalculation 8,
  .other "PERCENTILE_DISC_OVER" "percentileDiscOver" .tableCalculation 8,
  .other "SUM_OVER" "sumOver" .tableCalculation 7,
  .other "STDEV_OVER" "stdevOver" .tableCalculation 8,
  .other "STDEVP_OVER" "stdevpOver" .tableCalculation 8,
  .other "VAR_OVER" "varOver" .tableCalculation 8,
  .other "VARP_OVER" "varpOver" .tableCalculation 8,
  .other "DENSERANK" "denseRank" .tableCalculation 6,
  .other "RANK" "rank" .tableCalculation 6,
  .other "PERCENTILERANK" "percentileRank" .tableCalculation 6,
  .other "RUNNINGAVG" "runningAvg" .tableCalculation 7,
  .other "RUNNINGCOUNT" "runningCount" .tableCalculation 7,
  .other "RUNNINGMAX" "runningMax" .tableCalculation 7,
  .other "RUNNINGMIN" "runningMin" .tableCalculation 7,
  .other "RUNNINGSUM" "runningSum" .tableCalculation 7,
  .other "FIRSTVALUE" "firstValue" .tableCalculation 6,
  .other "LASTVALUE" "lastValue" .tableCalculation 6,
  .other "WINDOWAVG" "windowAvg" .tableCalculation 8,
  .other "WINDOWCOUNT" "windowCount" .tableCalculation 8,
  .other "WINDOWMAX" "windowMax" .tableCalculation 8,
  .other "WINDOWMIN" "windowMin" .tableCalculation 8,
  .other "WINDOWSUM" "windowSum" .tableCalculation 8]

/-- The cost of a function that the catalogue does not know. -/
def defaultCost : Nat := 1

def byCanonical (name : String) : Option Entry :=
  let key := upperName name
  table.find? fun e => e.canonical == key

/-- The first entry with this formula name. -/
def byFormulaName (name : String) : Option Entry :=
  let key := lowerName name
  table.find? fun e => lowerName e.formulaName == key

/-- The entry of a canonical or formula name; canonical names win, so `avg` is `AVG` and not
`AVG_LACA`. -/
def find (name : String) : Option Entry := byCanonical name <|> byFormulaName name

/-- The canonical name of a call in a formula; formula names win. -/
def keyFor (name : String) : Option String :=
  (byFormulaName name <|> byCanonical name).map (·.canonical)

/-- What is known of a function, whether the catalogue has it or not. -/
structure Info where
  canonical : String
  category : Option Category
  cost : Nat
  leastAggregated : Bool
  deriving DecidableEq

def Entry.info (e : Entry) : Info := ⟨e.canonical, some e.category, e.cost, e.leastAggregated⟩

/-- Information on any name: an unknown one keeps its spelling, has no category and costs
`defaultCost`. -/
def lookup (name : String) : Info :=
  match find name with
  | some e => e.info
  | none => ⟨name, none, defaultCost, false⟩

/-- Whether the function belongs to the family of least-aggregated computations. -/
def isLeastAggregated (name : String) : Bool :=
  match find name with
  | some e => e.leastAggregated
  | none => false

def cost (name : String) : Nat := (lookup name).cost

end DashCalc.Catalog
