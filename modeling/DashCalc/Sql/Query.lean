import DashCalc.Sql.Expr

/-!
# Queries and statements

Of a query the selected items and the tables are kept, of everything else the expressions it is
made of.
-/

namespace DashCalc.Sql

/-- A selected item. -/
inductive Item
  | expr (e : Expr)
  | star

/-- One entry of a `FROM` clause: the parts of a table's name, or a source without a name. -/
inductive Relation
  | table (name : List String)
  | derived

/-- An entry of a `FROM` clause, and whether other tables are joined to it. -/
structure Source where
  relation : Relation
  joined : Bool

/-- A plain selection. -/
structure Select where
  items : List Item
  sources : List Source
  /-- The expressions of all clauses. -/
  clauses : List Expr

/-- What a query begins with; a union, a list of rows or a query in parentheses is `other`. -/
inductive Body
  | select (s : Select)
  | other (parts : List Expr)

/-- A query. -/
structure Query where
  body : Body
  clauses : List Expr

/-- A statement; only queries have an inside. -/
inductive Statement
  | query (q : Query)
  /-- An explanation of how another statement is run. -/
  | explanation
  | other

def Argument.parts : Argument Expr → List Expr
  | .expr e => [e]
  | .star => []
  | .starOf _ => []

def Window.parts (w : Window (Expr × Direction) Expr) : List Expr :=
  let offset : Bound Expr → List Expr
    | .currentRow => []
    | .preceding e => e.toList
    | .following e => e.toList
  w.sortKeys.map Prod.fst ++ w.partitions ++
    match w.frame with
    | none => []
    | some frame => offset frame.start ++ (frame.stop.map offset).getD []

def Item.parts : Item → List Expr
  | expr e => [e]
  | star => []

def Body.parts : Body → List Expr
  | select s => s.items.flatMap Item.parts ++ s.clauses
  | other parts => parts

def Query.parts (q : Query) : List Expr := q.body.parts ++ q.clauses

end DashCalc.Sql
