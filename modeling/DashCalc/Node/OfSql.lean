import DashCalc.Formula.Expansion
import DashCalc.Node.OfExpr
import DashCalc.Sql.Explain
import DashCalc.Sql.Grammar.Statement

/-!
# From SQL text to trees

`Node.ofSql` reads a SQL text as a statement that selects one expression from `DUAL`, and builds
its tree. `Node.ofFormula` does so for the SQL text of a formula. A text is refused with the cause
and the SQL text.
-/

namespace DashCalc

open Sql (Expr Item Relation Select Source Statement)

/-- What is wrong with the shape of a SQL text. -/
inductive Misshape
  | notOneStatement | notAQuery | notPlain | notFromDual | notAnExpression | notOneColumn
  deriving DecidableEq

def Misshape.message : Misshape → String
  | notOneStatement => "expected exactly one statement"
  | notAQuery => "expected a SELECT statement"
  | notPlain => "expected a plain SELECT"
  | notFromDual => "expected FROM DUAL"
  | notAnExpression => "column 0 is not an expression"
  | notOneColumn => "expected a single column"

/-- Why a SQL text has no tree. -/
inductive Cause
  /-- It does not fit the grammar. -/
  | grammar (failure : Sql.Failure)
  | shape (misshape : Misshape)
  /-- A tree cannot hold an expression of this kind. -/
  | unsupported (kind : String)
  deriving DecidableEq

/-- A refused SQL text. -/
structure Refusal where
  sql : String
  cause : Cause
  deriving DecidableEq

/-- The wording of a cause, apart from the details of what does not fit the grammar. -/
def Cause.heading : Cause → String
  | grammar _ => "sql parser error"
  | shape misshape => "unexpected statement shape: " ++ misshape.message
  | unsupported kind => "unsupported expression kind \x60" ++ kind ++ "\x60"

/-- The wording of a refusal, apart from the details of what does not fit the grammar. -/
def Refusal.heading (r : Refusal) : String :=
  "Error parsing SQL (" ++ r.sql ++ "): " ++ r.cause.heading

/-- What does not fit the grammar. -/
def Refusal.details (r : Refusal) : String :=
  match r.cause with
  | .grammar failure => ": " ++ failure.explain r.sql
  | _ => ""

def Refusal.message (r : Refusal) : String := r.heading ++ r.details

/-- Whether the text could not be read to its end at all, so that there is no answer. -/
def Cause.isAbrupt : Cause → Bool
  | grammar (.abrupt _) => true
  | _ => false

namespace Node

/-- Whether a source is the table `DUAL` alone. -/
def isDual (source : Source) : Bool :=
  !source.joined &&
    match source.relation with
    | .table name => name.getLast?.any fun part => upperName part == "DUAL"
    | .derived => false

/-- The only expression of a selection. -/
def onlyItem : List Item → Except Misshape Expr
  | [.expr e] => .ok e
  | [.star] => .error .notAnExpression
  | _ => .error .notOneColumn

/-- The expression that a list of statements selects from `DUAL`. -/
def selected : List Statement → Except Misshape Expr
  | [.query ⟨.select s, _⟩] =>
    match s.sources with
    | [source] => if isDual source then onlyItem s.items else .error .notFromDual
    | _ => .error .notFromDual
  | [.query _] => .error .notPlain
  | [_] => .error .notAQuery
  | _ => .error .notOneStatement

/-- The tree of a SQL text, or why there is none; `taken` is the number of ids taken before, and
the number taken by then is given back. -/
def ofSql (sql : String) (taken : Nat) : Except Refusal Node × Nat :=
  match Sql.parse sql with
  | .error failure => (.error ⟨sql, .grammar failure⟩, taken)
  | .ok statements =>
    match selected statements with
    | .error misshape => (.error ⟨sql, .shape misshape⟩, taken)
    | .ok e =>
      match (ofExpr e).run taken with
      | (.ok n, count) => (.ok n, count)
      | (.error kind, count) => (.error ⟨sql, .unsupported kind⟩, count)

def sqlOfFormula (formula : String) : String :=
  String.ofList (Formula.toSql formula.toList)

/-- The tree of a formula, or why there is none. -/
def ofFormula (formula : String) (taken : Nat) : Except Refusal Node × Nat :=
  ofSql (sqlOfFormula formula) taken

end Node

end DashCalc
