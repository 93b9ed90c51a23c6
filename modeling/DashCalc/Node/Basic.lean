import DashCalc.Sql.Window

/-!
# Expression trees

The tree of an expression, as far as its cost is concerned. Every node and every sort key of a
window has an id of 32 bits; ids are handed out in the order in which a tree is built, a node
before its parts.
-/

namespace DashCalc

open Sql (Direction Bound Frame Window)

/-- The id of a node or a sort key. -/
abbrev NodeId := UInt32

/-- An expression to sort by. -/
structure SortKey (α : Type) where
  id : NodeId
  expr : α
  direction : Direction

/-- A tree. -/
inductive Node
  | binary (id : NodeId) (operator : String) (left right : Node)
  | unary (id : NodeId) (operator : String) (operand : Node)
  /-- A call; `aggregate` tells the aggregates of SQL from all other functions. -/
  | call (id : NodeId) (aggregate : Bool) (name : String) (arguments : List Node)
      (window : Option (Window (SortKey Node) Node))
  | column (id : NodeId) (table : Option String) (name : String)
  | number (id : NodeId) (digits : String)
  | text (id : NodeId) (value : String)
  | bool (id : NodeId) (value : Bool)
  | null (id : NodeId)
  /-- The star in `COUNT(*)`. -/
  | star (id : NodeId)
  | list (id : NodeId) (items : List Node)
  | branches (id : NodeId) (operand : Option Node) (cases : List (Node × Node))
      (otherwise : Option Node)

namespace Node

instance : Inhabited Node := ⟨null 0⟩

/-- The id of the root. -/
def id : Node → NodeId
  | binary id _ _ _ => id
  | unary id _ _ => id
  | call id _ _ _ _ => id
  | column id _ _ => id
  | number id _ => id
  | text id _ => id
  | bool id _ => id
  | null id => id
  | star id => id
  | list id _ => id
  | branches id _ _ _ => id

/-- What kind of node the root is. -/
def kind : Node → String
  | binary _ _ _ _ => "binary_expr"
  | unary _ _ _ => "unary_expr"
  | call _ aggregate _ _ _ => if aggregate then "aggr_func" else "function"
  | column _ _ _ => "column_ref"
  | number _ _ => "number"
  | text _ _ => "string"
  | bool _ _ => "bool"
  | null _ => "null"
  | star _ => "star"
  | list _ _ => "expr_list"
  | branches _ _ _ _ => "case"

/-- The name by which a column is looked up: the qualifier and the name with a period between
them. -/
def columnAlias (table : Option String) (name : String) : String :=
  match table with
  | some table => table ++ "." ++ name
  | none => name

/-- The name of the function if the root is a call. -/
def function? : Node → Option String
  | call _ _ name _ _ => some name
  | _ => none

/-- The name of the column if the root is a reference. -/
def column? : Node → Option String
  | column _ table name => some (columnAlias table name)
  | _ => none

end Node

end DashCalc
