import DashCalc.Sql.Grammar.Query

/-!
# Statements on a session

The grammar of transactions, variables, cursors and calls, and of showing what there is. Nothing is
kept of them: that they can be read is all that matters.
-/

namespace DashCalc.Sql.Grammar

open DashCalc (upperName)
open Reader

/-! ## Transactions -/

/-- The phrases that tell how a transaction runs. -/
def modePhrases : List Phrase := [
  (["ISOLATION", "LEVEL"], expectPhrase "isolation level" [
    (["READ", "UNCOMMITTED"], nothing), (["READ", "COMMITTED"], nothing),
    (["REPEATABLE", "READ"], nothing), (["SERIALIZABLE"], nothing)]),
  (["READ", "ONLY"], nothing),
  (["READ", "WRITE"], nothing)]

/-- How a transaction runs: phrases with or without commas between them. -/
def transactionModes : Reader Unit := acceptPhrases <| modePhrases.map fun (words, r) => (words, do
  r
  discard <| many do
    if ← acceptSymbol "," then
      expectPhrase "transaction mode" modePhrases
      return some ()
    else return none)

/-- The end of a transaction, its first word already read. -/
def transactionEnd : Reader Unit := do
  skipOneOf ["TRANSACTION", "WORK"]
  clause ["AND"] do
    skipWords ["NO"]
    expectWord "CHAIN"

/-- The way back to a point of a transaction, the first word already read. -/
def rollback : Reader Unit := do
  transactionEnd
  clause ["TO"] do
    skipWords ["SAVEPOINT"]
    identifier

/-! ## Variables -/

/-- A variable that gets a value, and the word it is written with; that is empty if it is in quotes
or has qualifiers. -/
def variableName : Reader String := do
  if ← acceptWords ["TIME", "ZONE"] then return "TIMEZONE"
  else
    let tokens ← get
    match tokens, ← qualifiedName with
    | .word value keyword :: _, [_] => return if keyword.isEmpty then "" else value
    | _, _ => return ""

/-- The role of a session. -/
def roleChoice : Reader Unit := do
  expectWord "ROLE"
  unless ← acceptWord "NONE" do discard identifier

/-- What a variable is set to. Some variables need no sign in front of their value; `lone` tells
that no word limits what is set. -/
def variableValue (inner : Inner) (name : String) (lone : Bool) : Reader Unit := do
  let values : Reader Unit := discard <| commaSeparated do
    if ← atQuery then discard inner.query else discard inner.anyExpr
  if upperName name = "NAMES" then
    unless ← acceptWord "DEFAULT" do
      let _ ← plainText
      clause ["COLLATE"] plainText
  else if ← acceptSymbol "=" then values
  else if ← acceptWord "TO" then values
  else if upperName name = "TIMEZONE" then discard inner.anyExpr
  else if name = "CHARACTERISTICS" then
    expectWords ["AS", "TRANSACTION"]
    transactionModes
  else if name = "TRANSACTION" && lone then
    unless ← acceptPhrase [(["SNAPSHOT"], discard literal)] do transactionModes
  else expected "equals sign or TO"

/-- Variables and their new values, the first word already read. -/
def assignVariables (inner : Inner) : Reader Unit := do
  let scope ← acceptOneOf ["SESSION", "LOCAL", "HIVEVAR"]
  let assign : Reader Unit := do variableValue inner (← variableName) scope.isNone
  if scope = some "HIVEVAR" then
    expectSymbol ":"
    assign
  else if (← attempt? roleChoice).isNone then assign

/-! ## Showing what there is -/

/-- Which of the shown things are wanted. -/
def shownFilter (inner : Inner) : Reader Unit := do
  unless ← acceptPhrase [
      (["LIKE"], discard plainText),
      (["ILIKE"], discard plainText),
      (["WHERE"], discard inner.anyExpr)] do
    discard (attempt? plainText)

/-- What shown things belong to. -/
def shownOwner : Reader Unit := do
  if (← acceptOneOf ["FROM", "IN"]).isSome then
    match ← acceptOneOf ["ACCOUNT", "DATABASE", "SCHEMA", "TABLE", "VIEW"] with
    | some kind =>
      let next := ((← get).take 2).map Token.keyword
      let unnamed := next = ["STARTS", "WITH"] || next.head? = some "LIMIT"
      unless unnamed && ["DATABASE", "SCHEMA"].contains kind do
        discard (attempt? qualifiedName)
    | none =>
      let _ ← qualifiedName
      if (← acceptOneOf ["FROM", "IN"]).isSome then discard identifier

/-- What shown things belong to, and which and how many of them are wanted. -/
def shownThings (inner : Inner) : Reader Unit := do
  shownOwner
  shownFilter inner
  clause ["STARTS", "WITH"] literal
  clause ["LIMIT"] (limit? inner)
  clause ["FROM"] literal

/-- What is to be shown, the first word already read. What is no known kind of thing is the name of
a variable, and that takes all tokens up to an equals sign. -/
def listing (inner : Inner) : Reader Unit := do
  skipWords ["TERSE"]
  let extended ← acceptWord "EXTENDED"
  let full ← acceptWord "FULL"
  skipEach ["SESSION", "GLOBAL"]
  let external ← acceptWord "EXTERNAL"
  let past : Reader Unit := do
    skipWords ["HISTORY"]
    shownThings inner
  unless ← acceptPhrase [
      (["COLUMNS"], shownThings inner),
      (["FIELDS"], shownThings inner),
      (["TABLES"], if external then shownThings inner else past),
      (["MATERIALIZED", "VIEWS"], shownThings inner),
      (["VIEWS"], shownThings inner),
      (["FUNCTIONS"], shownFilter inner)] do
    if extended || full then
      failAt (← get)
        (.wrong "EXTENDED/FULL are not supported with this type of SHOW query")
    else unless ← acceptPhrase [
        (["CREATE"], do
          let _ ← expectOneOf ["TABLE", "TRIGGER", "FUNCTION", "PROCEDURE", "EVENT", "VIEW"]
          discard qualifiedName),
        (["COLLATION"], shownFilter inner),
        (["VARIABLES"], shownFilter inner),
        (["STATUS"], shownFilter inner),
        (["DATABASES"], past),
        (["SCHEMAS"], past)] do
      modify fun tokens => tokens.dropWhile (· != .symbol "=")

/-! ## Cursors -/

/-- A new cursor, the first word already read. -/
def cursor (inner : Inner) : Reader Unit := do
  let _ ← identifier
  skipWords ["BINARY"]
  skipOneOf ["INSENSITIVE", "ASENSITIVE"]
  unless ← acceptWord "SCROLL" do skipWords ["NO", "SCROLL"]
  expectWord "CURSOR"
  if (← acceptOneOf ["WITH", "WITHOUT"]).isSome then expectWord "HOLD"
  expectWord "FOR"
  discard inner.query

/-- The rows that a cursor moves over, and where they go, the first word already read. -/
def cursorRows : Reader Unit := do
  let allOrSome : Reader Unit := do unless ← acceptWord "ALL" do numberValue
  unless ← acceptPhrase (bare ["NEXT", "PRIOR", "FIRST", "LAST"] ++ [
      (["ABSOLUTE"], numberValue),
      (["RELATIVE"], numberValue),
      (["FORWARD"], allOrSome),
      (["BACKWARD"], allOrSome),
      (["ALL"], nothing)]) do numberValue
  let _ ← expectOneOf ["FROM", "IN"]
  let _ ← identifier
  clause ["INTO"] qualifiedName

/-! ## Calls -/

/-- A call of a procedure, the first word already read. -/
def procedureCall (inner : Inner) : Reader Unit := do
  let name ← qualifiedName
  if ← peekSymbol "(" then discard (call inner (joinNames "." name))

/-- A prepared statement that is run, the first word already read. -/
def execution (inner : Inner) : Reader Unit := do
  let _ ← qualifiedName
  if ← acceptSymbol "(" then
    unless ← acceptSymbol ")" do
      let _ ← inner.exprs
      expectSymbol ")"
  else
    let next ← peek?
    unless next.isNone || next = some (.symbol ";") || (← peekWord) = "USING" do
      discard inner.exprs
  clause ["USING"] inner.exprs

/-- A check of a condition, the first word already read. -/
def assertion (inner : Inner) : Reader Unit := do
  let _ ← inner.anyExpr
  clause ["AS"] inner.anyExpr

end DashCalc.Sql.Grammar
