import DashCalc.Sql.Token
import DashCalc.Sql.Window

/-!
# SQL expressions

The expressions of the grammar. Those that a tree of costs can hold have a constructor each; all
others are `other`, with the name of their kind and the expressions they are made of. A call keeps
what stands in its clauses, such as an ordering of its arguments, apart from its arguments.
-/

namespace DashCalc.Sql

/-- A literal. One of another kind is kept as SQL writes it. -/
inductive Literal
  | number (text : String)
  | text (value : String)
  | bool (value : Bool)
  | null
  | other (shown : String)
  deriving DecidableEq

/-- The literal a token alone stands for. -/
def Token.literal? : Token → Option Literal
  | .word _ keyword =>
    if keyword = "TRUE" then some (.bool true)
    else if keyword = "FALSE" then some (.bool false)
    else if keyword = "NULL" then some .null
    else none
  | .number digits _ => some (.number digits)
  | .text _ value => some (.text value)
  | .special kind value => some (.other (kind.shown value))
  | .placeholder shown => some (.other shown)
  | .symbol _ => none
  | .stray _ => none

/-- An argument of a call. -/
inductive Argument (α : Type)
  | expr (e : α)
  | star
  | starOf (table : List String)

/-- What follows `OVER`: a window, or the name of one. -/
inductive Over (κ α : Type)
  | window (w : Window κ α)
  | named (name : String)

/-- An expression. -/
inductive Expr
  /-- In parentheses. -/
  | nested (inner : Expr)
  /-- A column, possibly with qualifiers before it. -/
  | name (qualifiers : List String) (column : String)
  | literal (value : Literal)
  | binary (operator : String) (left right : Expr)
  | unary (operator : String) (operand : Expr)
  /-- A test against several values, by a list or by two bounds. -/
  | among (operator : String) (tested : Expr) (values : List Expr)
  | tuple (items : List Expr)
  /-- A call; `clauses` holds the expressions beside the arguments and the window. -/
  | call (name : String) (arguments : List (Argument Expr)) (clauses : List Expr)
      (window : Option (Over (Expr × Direction) Expr))
  /-- A call whose only argument is a query. -/
  | callOfQuery (name : String) (parts : List Expr)
  /-- A call in a notation of its own; `clauses` holds what is no argument. -/
  | builtin (name : String) (arguments clauses : List Expr)
  | branches (operand : Option Expr) (cases : List (Expr × Expr)) (otherwise : Option Expr)
  /-- An expression of another kind and what it is made of. -/
  | other (kind : String) (parts : List Expr)

/-- The qualified name as an expression; the last part is the column. -/
def Expr.ofParts (first : String) (more : List String) : Expr :=
  match more.getLast? with
  | none => .name [] first
  | some column => .name (first :: more.dropLast) column

end DashCalc.Sql
