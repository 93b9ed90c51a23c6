/-!
# Windows

A window orders and partitions the rows that a call looks at, and may bound them by a frame. The
same shape is used for what was read and for trees of expressions: `κ` is what a sort key holds
and `α` an expression.
-/

namespace DashCalc.Sql

/-- The direction of a sort key. -/
inductive Direction
  | ascending | descending
  deriving DecidableEq

/-- One end of a frame; without an offset it is unbounded. -/
inductive Bound (α : Type)
  | currentRow
  | preceding (offset : Option α)
  | following (offset : Option α)

/-- The rows of a frame; `units` is `ROWS`, `RANGE` or `GROUPS`. -/
structure Frame (α : Type) where
  units : String
  start : Bound α
  stop : Option (Bound α)

/-- A window. -/
structure Window (κ α : Type) where
  sortKeys : List κ
  partitions : List α
  frame : Option (Frame α)

end DashCalc.Sql
