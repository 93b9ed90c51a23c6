import DashCalc.Sql.Grammar.DataType
import DashCalc.Sql.Query

/-!
# Calls and windows

What stands behind the name of a function: its arguments with their clauses, and a window.
Expressions nested in them are read through `Inner`, one level deeper than the call itself.
-/

namespace DashCalc.Sql.Grammar

open Reader

/-- The readers for what is nested one level deeper. -/
structure Inner where
  /-- An expression up to the first operator that binds no tighter than the level. -/
  expr : Nat → Reader Expr
  query : Reader Query

namespace Inner

/-- Any expression. -/
def anyExpr (inner : Inner) : Reader Expr := inner.expr 0

def exprs (inner : Inner) : Reader (List Expr) := commaSeparated inner.anyExpr

end Inner

/-- Whether a query begins here. -/
def atQuery : Reader Bool := do return ["SELECT", "WITH"].contains (← peekWord)

/-! ## Intervals -/

/-- The units a date or time can be taken apart into. -/
def dateParts : List String := [
  "YEAR", "MONTH", "WEEK", "DAY", "DAYOFWEEK", "DAYOFYEAR", "DATE", "DATETIME", "HOUR", "MINUTE",
  "SECOND", "CENTURY", "DECADE", "DOY", "DOW", "EPOCH", "ISODOW", "ISOYEAR", "ISOWEEK", "JULIAN",
  "MICROSECOND", "MICROSECONDS", "MILLENIUM", "MILLENNIUM", "MILLISECOND", "MILLISECONDS",
  "NANOSECOND", "NANOSECONDS", "QUARTER", "TIME", "TIMEZONE", "TIMEZONE_ABBR", "TIMEZONE_HOUR",
  "TIMEZONE_MINUTE", "TIMEZONE_REGION"]

/-- The units an interval may be given in. -/
def intervalUnits : List String := [
  "YEAR", "MONTH", "WEEK", "DAY", "HOUR", "MINUTE", "SECOND", "CENTURY", "DECADE", "DOW", "DOY",
  "EPOCH", "ISODOW", "ISOYEAR", "JULIAN", "MICROSECOND", "MICROSECONDS", "MILLENIUM",
  "MILLENNIUM", "MILLISECOND", "MILLISECONDS", "NANOSECOND", "NANOSECONDS", "QUARTER", "TIMEZONE",
  "TIMEZONE_HOUR", "TIMEZONE_MINUTE"]

/-- A unit that a date or time can be taken apart into. -/
def datePart : Reader String := expectAny "date/time field" dateParts

/-- What follows the word `INTERVAL`: a value and its unit. -/
def interval (inner : Inner) : Reader Expr := do
  let value ← inner.anyExpr
  let tokens ← get
  let unit ← match ← acceptOneOf intervalUnits with
    | some unit => pure unit
    | none => failAt tokens (.wrong "INTERVAL requires a unit after the literal value")
  if unit = "SECOND" then optionalScale
  else do
    optionalPrecision
    if ← acceptWord "TO" then
      if (← datePart) = "SECOND" then optionalPrecision
  return .other "Interval" [value]

/-! ## Windows -/

def sortKey (inner : Inner) : Reader (Expr × Direction) := do
  let e ← inner.anyExpr
  let word ← acceptOneOf ["ASC", "DESC"]
  let direction := if word == some "DESC" then .descending else .ascending
  unless ← acceptWords ["NULLS", "FIRST"] do
    let _ ← acceptWords ["NULLS", "LAST"]
  return (e, direction)

/-- The keys behind `ORDER BY`, if it comes next. -/
def orderBy (inner : Inner) : Reader (List (Expr × Direction)) := do
  if ← acceptWords ["ORDER", "BY"] then commaSeparated (sortKey inner) else return []

/-- One end of a frame. An offset that begins with a text is an interval. -/
def frameBound (inner : Inner) : Reader (Bound Expr) := do
  if ← acceptWords ["CURRENT", "ROW"] then return .currentRow
  else
    let offset ←
      if ← acceptWord "UNBOUNDED" then pure none
      else match ← peek? with
        | some (.text .single _) => some <$> interval inner
        | _ => some <$> inner.anyExpr
    if ← acceptWord "PRECEDING" then return .preceding offset
    else
      expectWord "FOLLOWING"
      return .following offset

def frame (inner : Inner) : Reader (Frame Expr) := do
  let units ← expectAny "ROWS, RANGE, GROUPS" ["ROWS", "RANGE", "GROUPS"]
  if ← acceptWord "BETWEEN" then
    let start ← frameBound inner
    expectWord "AND"
    return ⟨units, start, some (← frameBound inner)⟩
  else return ⟨units, ← frameBound inner, none⟩

/-- A window, its opening parenthesis already read. The name of another window may come first and
plays no part. -/
def window (inner : Inner) : Reader (Window (Expr × Direction) Expr) := do
  if ((← peek?).map Token.isPlainWord).getD false then
    let _ ← next?
  let partitions ← if ← acceptWords ["PARTITION", "BY"] then inner.exprs else pure []
  let sortKeys ← orderBy inner
  if ← acceptSymbol ")" then return ⟨sortKeys, partitions, none⟩
  else
    let frame ← frame inner
    expectSymbol ")"
    return ⟨sortKeys, partitions, some frame⟩

/-! ## Arguments -/

/-- The parts of a name behind its first one, each behind a period. With `star`, a star may end the
name; whether one did is given too. -/
def moreParts (star : Bool) : Nat → Reader (List String × Bool)
  | 0 => exhausted
  | fuel + 1 => do
    if ← acceptSymbol "." then
      if ← peekSymbol "*" then
        if star then
          let _ ← next?
          return ([], true)
        else expected "an identifier after '.'"
      else
        let value ← nextAs "an identifier or a '*' after '.'" fun
          | .word value _ | .text .single value => some value
          | _ => none
        let (parts, starred) ← moreParts star fuel
        return (value :: parts, starred)
    else return ([], false)

/-- A star, a star of a table, or an expression. -/
def starOrExpr (inner : Inner) : Reader (Argument Expr) := do
  let tokens ← get
  match tokens with
  | .symbol symbol :: rest =>
    if symbol = "*" then
      set rest
      return .star
    else return .expr (← inner.anyExpr)
  | .word value _ :: .symbol period :: _ | .text .single value :: .symbol period :: _ =>
    if period = "." then
      set tokens.tail
      let (parts, starred) ← moreParts true tokens.length
      if starred then return .starOf (value :: parts)
      else
        set tokens
        return .expr (← inner.anyExpr)
    else return .expr (← inner.anyExpr)
  | _ => return .expr (← inner.anyExpr)

/-- An argument given by name; the name plays no part. -/
def namedArgument (inner : Inner) : Reader (Argument Expr) := do
  let _ ← identifier
  unless ← acceptWord "VALUE" do expectSymbol "=>"
  starOrExpr inner

def argument (inner : Inner) : Reader (Argument Expr) := do
  match ← attempt? (namedArgument inner) with
  | some argument => return argument
  | none => starOrExpr inner

/-- How a call treats nulls when it builds a value of a text format. -/
def nullClause : Reader Unit := do
  unless ← acceptWords ["ABSENT", "ON", "NULL"] do
    let _ ← acceptWords ["NULL", "ON", "NULL"]

/-- What happens when a list of texts gets too long; gives the text that fills it up. -/
def overflowClause (inner : Inner) : Reader (List Expr) := do
  if ← acceptWords ["ON", "OVERFLOW"] then
    if ← acceptWord "ERROR" then return []
    else
      expectWord "TRUNCATE"
      let filler ← match ← peek? with
        | some (.word _ keyword) =>
          if keyword = "WITH" || keyword = "WITHOUT" then pure []
          else expected "either filler, WITH, or WITHOUT in LISTAGG"
        | some (.text .single _) | some (.special .escaped _) | some (.special .national _)
        | some (.special .hex _) => pure [← inner.anyExpr]
        | _ => expected "either filler, WITH, or WITHOUT in LISTAGG"
      let _ ← expectAny "either WITH or WITHOUT in LISTAGG" ["WITH", "WITHOUT"]
      expectWord "COUNT"
      return filler
  else return []

/-- The arguments of a call up to the closing parenthesis, and the expressions in their
clauses. -/
def arguments (inner : Inner) : Reader (List (Argument Expr) × List Expr) := do
  nullClause
  if ← acceptSymbol ")" then return ([], [])
  else
    let tokens ← get
    let all ← acceptWord "ALL"
    let distinct ← acceptWord "DISTINCT"
    if all && distinct then failAt tokens (.wrong "Cannot specify both ALL and DISTINCT")
    else
      let arguments ← commaSeparated (argument inner)
      let sortKeys ← orderBy inner
      let limit ← after? "LIMIT" inner.anyExpr
      let _ ← after? "SEPARATOR" literal
      let filler ← overflowClause inner
      nullClause
      expectSymbol ")"
      return (arguments, sortKeys.map Prod.fst ++ limit.toList ++ filler)

/-- A call, its name already read. -/
def call (inner : Inner) (name : String) : Reader Expr := do
  expectSymbol "("
  let (arguments, clauses) ← arguments inner
  let within ←
    if ← acceptWords ["WITHIN", "GROUP"] then parenthesized do
      expectWords ["ORDER", "BY"]
      commaSeparated (sortKey inner)
    else pure []
  if (← acceptOneOf ["RESPECT", "IGNORE"]).isSome then expectWord "NULLS"
  let window ←
    if ← acceptWord "OVER" then
      if ← acceptSymbol "(" then pure (some (.window (← window inner)))
      else pure (some (.named (← identifier)))
    else pure none
  return .call name arguments (clauses ++ within.map Prod.fst) window

end DashCalc.Sql.Grammar
