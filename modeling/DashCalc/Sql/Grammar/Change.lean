import DashCalc.Sql.Grammar.Table

/-!
# Changes of rows

The grammar of insertions, updates, removals and merges. Of what they are made of, the expressions
are kept.
-/

namespace DashCalc.Sql.Grammar

open Reader

/-! ## Parts of changes -/

def assignment (inner : Inner) : Reader Expr := do
  if ← peekSymbol "(" then
    let _ ← parenthesized qualifiedNames
  else
    let _ ← qualifiedName
  expectSymbol "="
  inner.anyExpr

def assignments (inner : Inner) : Reader (List Expr) := commaSeparated (assignment inner)

/-- Items to give back for changed rows. -/
def returning (inner : Inner) : Reader (List Expr) := do
  return ((← after? "RETURNING" (commaSeparated (item inner))).getD []).flatMap Item.parts

/-- A bound on the number of rows; nothing for all rows. -/
def limit? (inner : Inner) : Reader (Option Expr) := do
  if ← acceptWord "ALL" then return none else return some (← inner.anyExpr)

/-- The partitions that rows belong to. -/
def partition (inner : Inner) : Reader (List Expr) := do
  return (← after? "PARTITION" (parenthesized inner.exprs)).getD []

/-- What to do about rows that are there already. -/
def conflictChoice : Reader Unit := discard <| acceptPhrase [
  (["OR", "REPLACE"], nothing), (["OR", "ROLLBACK"], nothing), (["OR", "ABORT"], nothing),
  (["OR", "FAIL"], nothing), (["OR", "IGNORE"], nothing), (["REPLACE"], nothing)]

/-- A row of values, possibly empty. -/
def row (inner : Inner) : Reader (List Expr) := do
  skipWords ["ROW"]
  parenthesized do
    if ← peekSymbol ")" then return [] else inner.exprs

/-- The ways to store a table in files. -/
def fileFormats : List String :=
  ["AVRO", "JSONFILE", "ORC", "PARQUET", "RCFILE", "SEQUENCEFILE", "TEXTFILE"]

/-- The way a table is stored in files. -/
def fileFormat : Reader Unit := discard (expectAny "fileformat" fileFormats)

/-! ## Changes -/

/-- A change of rows, its first word already read. -/
def update (inner : Inner) : Reader (List Expr) := do
  conflictChoice
  let tables ← tables inner
  expectWord "SET"
  let values ← assignments inner
  skipWords ["FROM"]
  let condition ← after? "WHERE" inner.anyExpr
  return tables.clauses ++ values ++ condition.toList ++ (← returning inner)

/-- A removal of rows, its first word already read. -/
def delete (inner : Inner) : Reader (List Expr) := do
  unless ← acceptWord "FROM" do
    let _ ← qualifiedNames
    expectWord "FROM"
  let sources ← commaSeparated (tables inner)
  let used := (← after? "USING" (commaSeparated (tables inner))).getD []
  let condition ← after? "WHERE" inner.anyExpr
  let items ← returning inner
  let sortKeys ← orderBy inner
  let limit := (← after? "LIMIT" (limit? inner)).getD none
  return (sources ++ used).flatMap Tables.clauses ++ condition.toList ++ items ++
    sortKeys.map Prod.fst ++ limit.toList

/-- What becomes of new rows that are there already, the word `ON` already read. -/
def conflictAction (inner : Inner) : Reader (List Expr) := do
  if ← acceptWord "CONFLICT" then
    if ← acceptWords ["ON", "CONSTRAINT"] then
      let _ ← qualifiedName
    else if ← peekSymbol "(" then
      let _ ← identifierList
    expectWord "DO"
    if ← acceptWord "NOTHING" then return []
    else
      expectWords ["UPDATE", "SET"]
      let values ← assignments inner
      return values ++ (← after? "WHERE" inner.anyExpr).toList
  else
    expectWords ["DUPLICATE", "KEY", "UPDATE"]
    assignments inner

/-- The columns and partitions of new rows, unless a query in parentheses comes next. -/
def insertedColumns (inner : Inner) : Reader (List Expr) := do
  match (← get).take 2 with
  | [.symbol "(", .word _ "SELECT"] => return []
  | _ =>
    optionalIdentifiers true
    partition inner

/-- An insertion of rows, its first word already read. -/
def insertion (inner : Inner) : Reader (List Expr) := do
  conflictChoice
  skipOneOf ["LOW_PRIORITY", "DELAYED", "HIGH_PRIORITY"]
  skipEach ["IGNORE", "OVERWRITE", "INTO", "LOCAL"]
  if ← acceptWord "DIRECTORY" then
    let _ ← plainText
    clause ["STORED", "AS"] fileFormat
    return (← inner.query).parts
  else
    skipWords ["TABLE"]
    let _ ← qualifiedName
    let rows ←
      if ← acceptWords ["DEFAULT", "VALUES"] then pure []
      else do
        let columns ← insertedColumns inner
        pure (columns ++ (← inner.query).parts)
    if ← acceptWord "AS" then
      let _ ← qualifiedName
      optionalIdentifiers false
    let action := (← after? "ON" (conflictAction inner)).getD []
    return rows ++ action ++ (← returning inner)

/-! ## Merging -/

/-- What is done in a case of a merge. An existing row may be changed; otherwise a new one may be
inserted. -/
def mergeAction (inner : Inner) (existing : Bool) : Reader Unit :=
  expectPhrase "UPDATE, DELETE or INSERT in merge clause" <|
    if existing then [
      (["UPDATE"], do
        expectWord "SET"
        discard (assignments inner)),
      (["DELETE"], nothing)]
    else [
      (["INSERT"], do
        optionalIdentifiers true
        expectWord "VALUES"
        discard (commaSeparated (row inner)))]

/-- A case of a merge; nothing at the end of the statement. -/
def mergeCase? (inner : Inner) : Reader (Option Unit) := do
  if (← get).isEmpty || (← peekSymbol ";") then return none
  else
    expectWord "WHEN"
    let matched := !(← acceptWord "NOT")
    expectWord "MATCHED"
    let existing ←
      if matched then pure true
      else do
        let kept ← acceptWords ["BY", "SOURCE"]
        unless kept do skipWords ["BY", "TARGET"]
        pure kept
    clause ["AND"] inner.anyExpr
    expectWord "THEN"
    mergeAction inner existing
    return some ()

/-- A merge of a table into another one, its first word already read. -/
def merge (inner : Inner) : Reader Unit := do
  skipWords ["INTO"]
  let _ ← table inner
  expectWord "USING"
  let _ ← table inner
  expectWord "ON"
  let _ ← inner.anyExpr
  discard (many (mergeCase? inner))

end DashCalc.Sql.Grammar
