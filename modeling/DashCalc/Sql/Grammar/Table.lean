import DashCalc.Sql.Grammar.Operator

/-!
# Tables

The grammar of what rows are taken from: tables with their aliases, functions and queries in their
place, tables turned by `PIVOT` or `UNPIVOT`, and joins.
-/

namespace DashCalc.Sql.Grammar

open Reader

/-! ## Aliases and items -/

/-- An alias, with `AS` or without; then it must not be one of the keywords. -/
def optionalAlias (notAlias : List String) : Reader Bool := do
  let explicit ← acceptWord "AS"
  match ← peek? with
  | some (.word _ keyword) =>
    if explicit || !notAlias.contains keyword then
      let _ ← next?
      return true
    else return false
  | some (.text _ _) =>
    let _ ← next?
    return true
  | _ => if explicit then expected "an identifier after AS" else return false

/-- A column of an alias, possibly with a type. -/
def aliasColumn : Reader Unit := do
  let _ ← identifier
  let _ ← attempt? dataType

/-- Columns of an alias in optional parentheses. -/
def aliasColumns : Reader Unit := do
  if ← acceptSymbol "(" then
    let _ ← commaSeparated aliasColumn
    expectSymbol ")"

/-- The alias of a table, possibly with names for its columns. -/
def tableAlias : Reader Unit := do
  if ← optionalAlias notTableAlias then aliasColumns

/-- A selected item. An unquoted `from` is no column here. -/
def item (inner : Inner) : Reader Item := do
  let word ← peekWord
  match ← starOrExpr inner with
  | .star | .starOf _ => return .star
  | .expr (.name [] column) =>
    if word = "FROM" then failAt (← get) (.wrong ("Expected an expression, found: " ++ column))
    else
      let _ ← optionalAlias notColumnAlias
      return .expr (.name [] column)
  | .expr e =>
    let _ ← optionalAlias notColumnAlias
    return .expr e

/-! ## Tables -/

/-- Joined tables, as they are read: the first one, and whether others follow. -/
structure Tables where
  source : Source
  clauses : List Expr
  /-- Whether they are joined tables in parentheses. -/
  nestedJoin : Bool

def joinCondition (inner : Inner) (natural : Bool) : Reader (List Expr) := do
  if natural then return []
  else if ← acceptWord "ON" then return [← inner.anyExpr]
  else if ← acceptWord "USING" then return (← identifierList).map (.name [])
  else return []

/-- The words of a join that takes a condition; nothing if no join comes next. -/
def joinWords (natural : Bool) : Reader Bool := do
  match ← peekWord with
  | "INNER" | "JOIN" => do
    let _ ← acceptWord "INNER"
    expectWord "JOIN"
    return true
  | "LEFT" | "RIGHT" => do
    let _ ← next?
    unless (← expectOneOf ["OUTER", "SEMI", "ANTI", "JOIN"]) = "JOIN" do expectWord "JOIN"
    return true
  | "ANTI" | "SEMI" => do
    let _ ← next?
    expectWord "JOIN"
    return true
  | "FULL" => do
    let _ ← next?
    let _ ← acceptWord "OUTER"
    expectWord "JOIN"
    return true
  | _ => if natural then expected "a join type after NATURAL" else return false

/-- One join with a table, if one comes next; `table` reads a table and gives its expressions. -/
def join? (inner : Inner) (table : Reader (List Expr)) : Reader (Option (List Expr)) := do
  let _ ← acceptWord "GLOBAL"
  if ← acceptWord "CROSS" then
    let _ ← expectOneOf ["JOIN", "APPLY"]
    return some (← table)
  else if ← acceptWord "OUTER" then
    expectWord "APPLY"
    return some (← table)
  else if ← acceptWord "ASOF" then
    expectWord "JOIN"
    let clauses ← table
    expectWord "MATCH_CONDITION"
    let condition ← parenthesized inner.anyExpr
    return some (clauses ++ condition :: (← joinCondition inner false))
  else
    let natural ← acceptWord "NATURAL"
    if ← joinWords natural then
      let clauses ← table
      return some (clauses ++ (← joinCondition inner natural))
    else return none

/-- A call in front of the values that become columns, possibly with a name. -/
def namedCall (inner : Inner) : Reader Expr := do
  let name ← nextAs "a function identifier" fun
    | .word value _ => some value
    | _ => none
  let e ← call inner name
  clause ["AS"] identifier
  return e

/-- The values that become columns. -/
def pivotValues (inner : Inner) : Reader (List Expr) := do
  if ← acceptWord "ANY" then return (← orderBy inner).map Prod.fst
  else if ← atQuery then return (← inner.query).parts
  else commaSeparated do
    let e ← inner.anyExpr
    clause ["AS"] identifier
    return e

/-- Values that become columns, or columns that become rows, if either comes next. -/
def pivot? (inner : Inner) : Reader (Option (List Expr)) := do
  if ← acceptWord "PIVOT" then
    let clauses ← parenthesized do
      let calls ← commaSeparated (namedCall inner)
      expectWord "FOR"
      let _ ← qualifiedName
      expectWord "IN"
      let values ← parenthesized (pivotValues inner)
      if ← acceptWords ["DEFAULT", "ON", "NULL"] then
        return calls ++ values ++ [← parenthesized inner.anyExpr]
      else return calls ++ values
    tableAlias
    return some clauses
  else if ← acceptWord "UNPIVOT" then
    parenthesized do
      let _ ← identifier
      expectWord "FOR"
      let _ ← identifier
      expectWord "IN"
      let _ ← identifierList
    tableAlias
    return some []
  else return none

/-- A query in parentheses as a table, the opening parenthesis already read. -/
def derivedTable (inner : Inner) : Reader (List Expr) := do
  let query ← inner.query
  expectSymbol ")"
  tableAlias
  return query.parts

/-- The arguments of a table function up to the closing parenthesis. -/
def tableArguments (inner : Inner) : Reader (List Expr) := do
  if ← acceptSymbol ")" then return []
  else
    let arguments ← commaSeparated (argument inner)
    expectSymbol ")"
    return arguments.flatMap Argument.parts

def namedTable (inner : Inner) : Reader Tables := do
  let name ← qualifiedName
  clause ["PARTITION"] identifierList
  let arguments ← if ← acceptSymbol "(" then tableArguments inner else pure []
  skipWords ["WITH", "ORDINALITY"]
  tableAlias
  let tokens ← get
  let hints ←
    if ← acceptWord "WITH" then
      if ← peekSymbol "(" then parenthesized inner.exprs
      else do
        set tokens
        pure []
    else pure []
  let pivots ← many (pivot? inner)
  let relation := if pivots.isEmpty then Relation.table name else .derived
  return ⟨⟨relation, false⟩, arguments ++ hints ++ pivots.flatten, false⟩

/-- What to take where a value is missing or wrong. -/
def jsonFallback : Reader Unit := acceptPhrases <|
  [(["NULL"], nothing), (["ERROR"], nothing), (["DEFAULT"], discard literal)].map
    fun (words, value) => (words, do
      value
      expectWord "ON"
      discard <| expectOneOf ["EMPTY", "ERROR"])

/-- A column taken out of a value, or several out of a value in it; at most `fuel` levels. -/
def jsonColumnWithin : Nat → Reader Unit
  | 0 => exhausted
  | fuel + 1 => do
    if ← acceptWord "NESTED" then
      skipWords ["PATH"]
      let _ ← literal
      expectWord "COLUMNS"
      let _ ← parenthesized (commaSeparated (jsonColumnWithin fuel))
    else
      let _ ← identifier
      if ← acceptWord "FOR" then expectWord "ORDINALITY"
      else
        let _ ← dataType
        skipWords ["EXISTS"]
        expectWord "PATH"
        let _ ← literal
        jsonFallback

/-- The value and the columns that rows are made of, up to the closing parenthesis. -/
def jsonTable (inner : Inner) : Reader (List Expr) := do
  let value ← inner.anyExpr
  expectSymbol ","
  let _ ← literal
  expectWord "COLUMNS"
  let _ ← parenthesized fun tokens =>
    commaSeparated (jsonColumnWithin (tokens.length + 1)) tokens
  expectSymbol ")"
  tableAlias
  return [value]

/-- A column of an opened value. -/
def openedColumn : Reader Unit := do
  let _ ← identifier
  let _ ← dataType
  let _ ← attempt? quotedText
  clause ["AS"] (expectWord "JSON")

/-- The value that is opened, up to the closing parenthesis, and its columns. -/
def openedJson (inner : Inner) : Reader (List Expr) := do
  let value ← inner.anyExpr
  if ← acceptSymbol "," then
    let _ ← literal
  expectSymbol ")"
  clause ["WITH"] (parenthesized (commaSeparated openedColumn))
  tableAlias
  return [value]

/-- Takes this keyword if it comes next with a parenthesis, which is taken too. -/
def acceptCallOf (word : String) : Reader Bool := do
  let tokens ← get
  if ← acceptWord word then
    if ← acceptSymbol "(" then return true
    else
      set tokens
      return false
  else return false

/-- What stands in the place of one table; `inside` reads the joined tables in parentheses. -/
def tableOr (inner : Inner) (inside : Reader Tables) : Reader Tables := do
  let derived (clauses : List Expr) : Tables := ⟨⟨.derived, false⟩, clauses, false⟩
  if ← acceptWord "LATERAL" then
    if ← acceptSymbol "(" then return derived (← derivedTable inner)
    else
      let _ ← qualifiedName
      expectSymbol "("
      let arguments ← tableArguments inner
      tableAlias
      return derived arguments
  else if ← acceptWord "TABLE" then
    let e ← parenthesized inner.anyExpr
    tableAlias
    return derived [e]
  else if ← acceptSymbol "(" then
    match ← attempt? (derivedTable inner) with
    | some clauses => return derived (clauses ++ (← many (pivot? inner)).flatten)
    | none =>
      let tables ← inside
      if tables.source.joined || tables.nestedJoin then
        expectSymbol ")"
        tableAlias
        return { derived tables.clauses with nestedJoin := true }
      else expected "joined table"
  else if ← acceptCallOf "JSON_TABLE" then return derived (← jsonTable inner)
  else if ← acceptCallOf "OPENJSON" then return derived (← openedJson inner)
  else namedTable inner

/-- Tables with their joins; at most `fuel` levels of parentheses. -/
def tablesWithin (inner : Inner) : Nat → Reader Tables
  | 0 => exhausted
  | fuel + 1 => do
    let table := tableOr inner (tablesWithin inner fuel)
    let first ← table
    let joins ← many (join? inner (Tables.clauses <$> table))
    return ⟨⟨first.source.relation, !joins.isEmpty⟩, first.clauses ++ joins.flatten,
      first.nestedJoin⟩

def tables (inner : Inner) : Reader Tables := fun tokens =>
  tablesWithin inner (tokens.length + 1) tokens

def table (inner : Inner) : Reader Tables := tableOr inner (tables inner)

end DashCalc.Sql.Grammar
