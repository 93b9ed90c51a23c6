import DashCalc.Node.Basic
import DashCalc.Sql.Expr
import DashCalc.Text.Basic

/-!
# From SQL expressions to trees

`Node.ofExpr` builds the tree of an expression. Ids are taken from a counter, one for every node
and every sort key, a node before its parts and the parts from left to right. An expression that a
tree cannot hold ends the building with the name of its kind; ids that were taken by then stay
taken.
-/

namespace DashCalc

open Sql (Argument Bound Direction Expr Frame Literal Over Window)

/-- Builds with a counter of ids, which moves on also where the building fails; a failure is the
kind of the expression that has no tree. -/
abbrev Lowering (α : Type) := ExceptT String (StateM Nat) α

/-- What comes next is built only if the first part was, with the counter as that left it. -/
theorem Lowering.run_bind {α β : Type} (build : Lowering α) (next : α → Lowering β) (first : Nat) :
    (build >>= next).run first =
      match build.run first with
      | (.ok a, middle) => (next a).run middle
      | (.error kind, middle) => (.error kind, middle) := by
  show (match build.run first with
    | (result, middle) => (ExceptT.bindCont next result) middle) = _
  rcases build.run first with ⟨_ | a, middle⟩ <;> rfl

namespace Node

/-- The functions that SQL itself counts as aggregates. -/
def sqlAggregates : List String :=
  ["AVG", "COUNT", "GROUP_CONCAT", "MAX", "MIN", "STD", "STDDEV", "SUM", "VARIANCE"]

/-- Whether a function is an aggregate of SQL. -/
def isSqlAggregate (name : String) : Bool := sqlAggregates.contains (upperName name)

/-- The next id. -/
def fresh : Lowering NodeId := do
  let count ← get
  set (count + 1)
  return UInt32.ofNat count

/-- The qualifiers of a column as one text. -/
def qualifier (parts : List String) : Option String :=
  if parts.isEmpty then none else some (joinNames "." parts)

def ofLiteral : Literal → Lowering Node
  | .number digits => return .number (← fresh) digits
  | .text value => return .text (← fresh) value
  | .bool value => return .bool (← fresh) value
  | .null => return .null (← fresh)
  | .other shown => throw ("Value::" ++ shown)

mutual

/-- The tree of an expression. -/
def ofExpr : Expr → Lowering Node
  | .nested inner => ofExpr inner
  | .name qualifiers name => return .column (← fresh) (qualifier qualifiers) name
  | .literal value => ofLiteral value
  | .binary operator left right => do
    let id ← fresh
    let left ← ofExpr left
    return .binary id operator left (← ofExpr right)
  | .unary operator operand => do
    let id ← fresh
    return .unary id operator (← ofExpr operand)
  | .among operator tested values => do
    let id ← fresh
    let left ← ofExpr tested
    let listId ← fresh
    return .binary id operator left (.list listId (← ofExprs values))
  | .tuple items => do
    let id ← fresh
    return .list id (← ofExprs items)
  | .call name arguments _ window => do
    let id ← fresh
    let arguments ← ofArguments arguments
    return .call id (isSqlAggregate name) name arguments (← ofOver? window)
  | .callOfQuery _ _ => do
    let _ ← fresh
    throw "Subquery"
  | .builtin name arguments _ => do
    let id ← fresh
    return .call id false name (← ofExprs arguments) none
  | .branches operand cases otherwise => do
    let id ← fresh
    let operand ← ofExpr? operand
    let cases ← ofCases cases
    return .branches id operand cases (← ofExpr? otherwise)
  | .other kind _ => throw kind

def ofExprs : List Expr → Lowering (List Node)
  | [] => return []
  | e :: es => do
    let n ← ofExpr e
    return n :: (← ofExprs es)

def ofExpr? : Option Expr → Lowering (Option Node)
  | none => return none
  | some e => return some (← ofExpr e)

def ofArguments : List (Argument Expr) → Lowering (List Node)
  | [] => return []
  | argument :: arguments => do
    let n ← ofArgument argument
    return n :: (← ofArguments arguments)

def ofArgument : Argument Expr → Lowering Node
  | .expr e => ofExpr e
  | .star => return .star (← fresh)
  | .starOf _ => throw "QualifiedWildcard"

def ofCases : List (Expr × Expr) → Lowering (List (Node × Node))
  | [] => return []
  | (condition, result) :: cases => do
    let condition ← ofExpr condition
    let result ← ofExpr result
    return (condition, result) :: (← ofCases cases)

def ofOver? : Option (Over (Expr × Direction) Expr) →
    Lowering (Option (Window (SortKey Node) Node))
  | none => return none
  | some (.named _) => throw "NamedWindow"
  | some (.window ⟨sortKeys, partitions, frame⟩) => do
    let sortKeys ← ofSortKeys sortKeys
    let partitions ← ofExprs partitions
    return some ⟨sortKeys, partitions, ← ofFrame? frame⟩

def ofSortKeys : List (Expr × Direction) → Lowering (List (SortKey Node))
  | [] => return []
  | (e, direction) :: keys => do
    let id ← fresh
    let n ← ofExpr e
    return ⟨id, n, direction⟩ :: (← ofSortKeys keys)

def ofFrame? : Option (Frame Expr) → Lowering (Option (Frame Node))
  | none => return none
  | some ⟨units, start, stop⟩ => do
    let start ← ofBound start
    return some ⟨units, start, ← ofBound? stop⟩

def ofBound : Bound Expr → Lowering (Bound Node)
  | .currentRow => return .currentRow
  | .preceding offset => return .preceding (← ofExpr? offset)
  | .following offset => return .following (← ofExpr? offset)

def ofBound? : Option (Bound Expr) → Lowering (Option (Bound Node))
  | none => return none
  | some bound => return some (← ofBound bound)

end

end Node

end DashCalc
