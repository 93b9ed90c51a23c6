import DashCalc.Sql.Grammar.Change

/-!
# Queries

The grammar of queries, and the bound on how deep expressions and queries may nest in each other.
`nested n` reads with at most `n` levels; each expression and each query takes one of them.
-/

namespace DashCalc.Sql.Grammar

open Reader

/-! ## Selections -/

/-- `ALL` or `DISTINCT`, possibly with the columns that are to be distinct. -/
def distinctness (inner : Inner) : Reader (List Expr) := do
  let tokens ← get
  let all ← acceptWord "ALL"
  if ← acceptWord "DISTINCT" then
    if all then failAt tokens (.wrong "Cannot specify both ALL and DISTINCT")
    else if ← acceptWord "ON" then parenthesized do
      if ← peekSymbol ")" then return [] else inner.exprs
    else return []
  else return []

/-- A bound on the number of rows in front of the items. -/
def topRows (inner : Inner) : Reader (List Expr) := do
  let count ←
    if ← peekSymbol "(" then do
      let e ← parenthesized inner.anyExpr
      pure [e]
    else do
      let _ ← wholeNumber
      pure []
  let _ ← acceptWord "PERCENT"
  let _ ← acceptWords ["WITH", "TIES"]
  return count

/-- A table that the rows are put into. -/
def intoTable : Reader Unit := do
  let _ ← acceptOneOf ["TEMP", "TEMPORARY"]
  let _ ← acceptWord "UNLOGGED"
  let _ ← acceptWord "TABLE"
  let _ ← qualifiedName

/-- A view that is joined row by row, if one comes next. -/
def lateralView? (inner : Inner) : Reader (Option Expr) := do
  if ← acceptWords ["LATERAL", "VIEW"] then
    let _ ← acceptWord "OUTER"
    let e ← inner.anyExpr
    let _ ← qualifiedName
    let _ ← commaSeparated (optionalAlias ["WHERE", "GROUP", "CLUSTER", "HAVING", "LATERAL"])
    return some e
  else return none

def namedWindow (inner : Inner) : Reader (List Expr) := do
  let _ ← identifier
  expectWord "AS"
  expectSymbol "("
  return (← window inner).parts

/-- Named windows and a condition on windowed rows, in either order. -/
def windowClauses (inner : Inner) : Reader (List Expr) := do
  let windows : Reader (List Expr) := List.flatten <$> commaSeparated (namedWindow inner)
  if ← acceptWord "WINDOW" then
    let first ← windows
    return first ++ (← after? "QUALIFY" inner.anyExpr).toList
  else if ← acceptWord "QUALIFY" then
    let condition ← inner.anyExpr
    return condition :: ((← after? "WINDOW" windows).getD [])
  else return []

/-- The keys behind two keywords, if these come next. -/
def keysBehind (inner : Inner) (words : List String) : Reader (List Expr) := do
  if ← acceptWords words then inner.exprs else return []

def selection (inner : Inner) : Reader Select := do
  expectWord "SELECT"
  let distinct ← distinctness inner
  let top ← if ← acceptWord "TOP" then topRows inner else pure []
  let items ← commaSeparated (item inner)
  let _ ← after? "INTO" intoTable
  let from? ← after? "FROM" (commaSeparated (tables inner))
  let sources := from?.getD []
  let views ← many (lateralView? inner)
  let condition ← after? "WHERE" inner.anyExpr
  let groups ←
    if ← acceptWords ["GROUP", "BY"] then
      if ← acceptWord "ALL" then pure [] else inner.exprs
    else pure []
  let clusters ← keysBehind inner ["CLUSTER", "BY"]
  let distribution ← keysBehind inner ["DISTRIBUTE", "BY"]
  let sorting ← keysBehind inner ["SORT", "BY"]
  let having ← after? "HAVING" inner.anyExpr
  let windows ← windowClauses inner
  return ⟨items, sources.map Tables.source,
    distinct ++ top ++ sources.flatMap Tables.clauses ++ views ++ condition.toList ++ groups ++
      clusters ++ distribution ++ sorting ++ having.toList ++ windows⟩

/-! ## Queries -/

/-- A table defined in front of a query. -/
def commonTable (inner : Inner) : Reader (List Expr) := do
  let _ ← identifier
  unless ← acceptWord "AS" do
    aliasColumns
    expectWord "AS"
  let query ← parenthesized inner.query
  let _ ← after? "FROM" identifier
  return query.parts

/-- What a query begins with, before any set operation. -/
def simpleBody (inner : Inner) : Reader Body := do
  match ← peekWord with
  | "SELECT" => return .select (← selection inner)
  | "VALUES" => do
    let _ ← next?
    return .other (← commaSeparated (row inner)).flatten
  | "TABLE" => do
    let _ ← next?
    let tokens ← get
    let unfit : Reader Body := failAt tokens (.wrong "Table name not found")
    let first ← next?
    let period ← next?
    let second ← next?
    match first, second with
    | some (.word _ _), some (.word _ _) => return .other []
    | some (.word _ _), _ => if period == some (.symbol ".") then unfit else return .other []
    | _, _ => unfit
  | _ =>
    if ← peekSymbol "(" then return .other (← parenthesized inner.query).parts
    else expected "SELECT, VALUES, or a subquery in the query body"

/-- The words between the two sides of a set operation, if they come next. -/
def setOperation : Reader Bool := do
  if (← acceptOneOf ["UNION", "EXCEPT", "INTERSECT"]).isSome then
    unless ← acceptWords ["DISTINCT", "BY", "NAME"] do
      unless ← acceptWords ["BY", "NAME"] do
        if ← acceptWord "ALL" then
          let _ ← acceptWords ["BY", "NAME"]
        else
          let _ ← acceptWord "DISTINCT"
    return true
  else return false

/-- Bodies with set operations between them. -/
def body (inner : Inner) : Reader Body := do
  let first ← simpleBody inner
  let more ← many do
    if ← setOperation then return some (← simpleBody inner) else return none
  if more.isEmpty then return first
  else return .other ((first :: more).flatMap Body.parts)

/-- The number of rows to leave out. -/
def offset (inner : Inner) : Reader Expr := do
  let e ← inner.anyExpr
  let _ ← acceptOneOf ["ROW", "ROWS"]
  return e

/-- Bounds on the rows, in either order; behind a comma the first number is the one to leave
out. -/
def rowBounds (inner : Inner) : Reader (List Expr) := do
  let round (limit skipped : Option Expr) : Reader (Option Expr × Option Expr) := do
    let limit ←
      if limit.isNone then
        if ← acceptWord "LIMIT" then limit? inner else pure none
      else pure limit
    let skipped ←
      if skipped.isNone then after? "OFFSET" (offset inner) else pure skipped
    if limit.isSome && skipped.isNone then
      if ← acceptSymbol "," then return (some (← inner.anyExpr), limit)
    return (limit, skipped)
  let (limit, skipped) ← round none none
  let (limit, skipped) ← round limit skipped
  return limit.toList ++ skipped.toList

/-- A count of rows to fetch. -/
def fetchRows : Reader Unit := do
  let _ ← expectOneOf ["FIRST", "NEXT"]
  if (← acceptOneOf ["ROW", "ROWS"]).isNone then
    let _ ← literal
    let _ ← acceptWord "PERCENT"
    let _ ← expectOneOf ["ROW", "ROWS"]
  unless ← acceptWord "ONLY" do expectWords ["WITH", "TIES"]

def textInParentheses : Reader Unit := discard (parenthesized plainText)

/-- Options with a comma in front of each; a comma may also stand without an option. -/
def commaOptions (phrases : List Phrase) : Reader Unit := discard <| many do
  if ← acceptSymbol "," then
    let _ ← acceptPhrase phrases
    return some ()
  else return none

/-- How the rows are to be written as a text of another format. -/
def formatPhrases : List Phrase :=
  let optionalText : Reader Unit := do
    if ← peekSymbol "(" then textInParentheses
  [
    (["BROWSE"], nothing),
    (["XML"], do
      expectPhrase "FOR XML [RAW | AUTO | EXPLICIT | PATH ]" [
        (["RAW"], optionalText), (["AUTO"], nothing), (["EXPLICIT"], nothing),
        (["PATH"], optionalText)]
      commaOptions [
        (["ELEMENTS"], nothing), (["BINARY"], expectWord "BASE64"), (["ROOT"], textInParentheses),
        (["TYPE"], nothing)]),
    (["JSON"], do
      expectPhrase "FOR JSON [AUTO | PATH ]" [(["AUTO"], nothing), (["PATH"], nothing)]
      commaOptions [
        (["ROOT"], textInParentheses), (["INCLUDE_NULL_VALUES"], nothing),
        (["WITHOUT_ARRAY_WRAPPER"], nothing)])]

/-- Locks on the rows, up to a format for them, which ends the clauses. -/
def locksWithin : Nat → Reader Unit
  | 0 => exhausted
  | fuel + 1 => do
    if ← acceptWord "FOR" then
      unless ← acceptPhrase formatPhrases do
        let _ ← expectOneOf ["UPDATE", "SHARE"]
        clause ["OF"] qualifiedName
        unless ← acceptWord "NOWAIT" do skipWords ["SKIP", "LOCKED"]
        locksWithin fuel

/-- Locks on the rows, and a format for them. -/
def locks : Reader Unit := fun tokens => locksWithin (tokens.length + 1) tokens

/-- A query. A change of rows may stand in its place. -/
def query (inner : Inner) : Reader Query := do
  let defined ←
    if ← acceptWord "WITH" then do
      skipWords ["RECURSIVE"]
      List.flatten <$> commaSeparated (commonTable inner)
    else pure []
  if ← acceptWord "INSERT" then return ⟨.other (← insertion inner), defined⟩
  else if ← acceptWord "UPDATE" then return ⟨.other (← update inner), defined⟩
  else
    let body ← body inner
    let sortKeys ← orderBy inner
    let bounds ← rowBounds inner
    clause ["FETCH"] fetchRows
    locks
    return ⟨body, defined ++ sortKeys.map Prod.fst ++ bounds⟩

/-! ## Nesting -/

/-- Readers that nest at most that many levels deep. -/
def nested : Nat → Inner
  | 0 => ⟨fun _ => throw .tooDeep, throw .tooDeep⟩
  | levels + 1 => ⟨exprAbove (nested levels), query (nested levels)⟩

end DashCalc.Sql.Grammar
