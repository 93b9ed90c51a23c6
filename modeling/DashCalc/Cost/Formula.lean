import DashCalc.Cost.Report
import DashCalc.Node.Json

/-!
# The cost of a formula that stands alone

Without expressions and parameters around it, all a formula refers to are fields that nothing is
known of.
-/

namespace DashCalc.Cost

/-- The scope of a formula that stands alone. -/
def Scope.bare (links : Catalog.DocLinks) : Scope := ⟨[], ∅, links, .exhaustive⟩

/-- A formula that stands alone, with its SQL text, its tree and its report. -/
structure FormulaAnalysis where
  sql : String
  tree : Node
  report : Report

namespace FormulaAnalysis

/-- The analysis of a formula that stands alone. -/
def ofFormula (formula : String) (links : Catalog.DocLinks) : Except Refusal FormulaAnalysis := do
  let sql := Node.sqlOfFormula formula
  let n ← (Node.ofSql sql 0).1
  return ⟨sql, n, (Scope.bare links).report none n⟩

def toJson (a : FormulaAnalysis) : Json :=
  .obj ([("sql", .str a.sql), ("ast", a.tree.toJson)] ++ a.report.fields)

end FormulaAnalysis

end DashCalc.Cost
