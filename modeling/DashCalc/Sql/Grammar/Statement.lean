import DashCalc.Sql.Grammar.Administration
import DashCalc.Sql.Grammar.Alteration
import DashCalc.Sql.Grammar.Copy
import DashCalc.Sql.Grammar.Session

/-!
# Statements

A SQL text is a list of statements with semicolons between them. Each statement begins with
keywords of its own. Of statements that are no queries nothing is kept.
-/

namespace DashCalc.Sql.Grammar

open Reader

/-- How many levels of statements, queries and expressions may nest. -/
def depthLimit : Nat := 50

/-- Statements with semicolons between them, up to the end or to a lone `END` behind a statement. -/
def statementsWithin (statement : Reader Statement) : Nat → Reader (List Statement)
  | 0 => exhausted
  | fuel + 1 => do
    let _ ← many do
      if ← acceptSymbol ";" then return some () else return none
    if (← get).isEmpty then return []
    else
      let first ← statement
      if (← get).isEmpty then return [first]
      else if ← peekSymbol ";" then return first :: (← statementsWithin statement fuel)
      else if (← peekWord) = "END" then return [first]
      else expected "end of statement"

def statements (statement : Reader Statement) : Reader (List Statement) := fun tokens =>
  statementsWithin statement (tokens.length + 1) tokens

/-- The statement or table that is to be explained, the first word already read. -/
def explanation (statement : Reader Statement) : Reader Unit := do
  unless ← acceptPhrase [(["QUERY", "PLAN"], nothing), (["ESTIMATE"], nothing)] do
    skipEach ["ANALYZE", "VERBOSE"]
    clause ["FORMAT"] (expectAny "fileformat" ["TEXT", "GRAPHVIZ", "JSON"])
  match ← attempt? statement with
  | some .explanation => failAt (← get) (.wrong "Explain must be root of the plan")
  | some _ => nothing
  | none =>
    skipOneOf ["EXTENDED", "FORMATTED"]
    discard qualifiedName

/-- A statement that is kept under a name, the first word already read. -/
def preparation (statement : Reader Statement) : Reader Unit := do
  let _ ← identifier
  if ← peekSymbol "(" then discard <| parenthesized (commaSeparated dataType)
  expectWord "AS"
  discard statement

/-- The statements that are neither queries nor explanations; `statement` reads one that is nested
in another. -/
def statementPhrases (inner : Inner) (statement : Reader Statement) : List Phrase := [
  (["LOCK", "TABLES"], discard (commaSeparated lockedTable)),
  (["UNLOCK", "TABLES"], nothing),
  (["INSERT"], discard (insertion inner)),
  (["REPLACE"], discard (insertion inner)),
  (["UPDATE"], discard (update inner)),
  (["DELETE"], discard (delete inner)),
  (["MERGE"], merge inner),
  (["CREATE"], creation inner (discard (statements statement))),
  (["ALTER"], alteration inner),
  (["DROP"], drop inner),
  (["TRUNCATE"], truncation inner),
  (["ANALYZE"], analysis inner),
  (["MSCK"], repair),
  (["CACHE"], cache inner),
  (["UNCACHE"], uncaching),
  (["ATTACH"], attachment inner),
  (["PRAGMA"], setting),
  (["KILL"], kill),
  (["FLUSH"], flush),
  (["GRANT"], grant),
  (["REVOKE"], revocation),
  (["COPY"], copy inner),
  (["UNLOAD"], unloading inner),
  (["START"], do
    expectWord "TRANSACTION"
    transactionModes),
  (["BEGIN"], do
    skipOneOf ["TRANSACTION", "WORK"]
    transactionModes),
  (["END"], transactionEnd),
  (["COMMIT"], transactionEnd),
  (["ROLLBACK"], rollback),
  (["SAVEPOINT"], discard identifier),
  (["RELEASE"], do
    skipWords ["SAVEPOINT"]
    discard identifier),
  (["SET"], assignVariables inner),
  (["SHOW"], listing inner),
  (["USE"], discard qualifiedName),
  (["DISCARD"], expectPhrase "ALL, PLANS, SEQUENCES, TEMP or TEMPORARY after DISCARD" <|
    bare ["ALL", "PLANS", "SEQUENCES", "TEMP", "TEMPORARY"]),
  (["DECLARE"], cursor inner),
  (["FETCH"], cursorRows),
  (["CLOSE"], do
    unless ← acceptWord "ALL" do discard identifier),
  (["CALL"], procedureCall inner),
  (["PREPARE"], preparation statement),
  (["EXECUTE"], execution inner),
  (["EXEC"], execution inner),
  (["DEALLOCATE"], do
    skipWords ["PREPARE"]
    discard identifier),
  (["ASSERT"], assertion inner)]

/-- A statement, at most that many levels deep. -/
def statementWithin : Nat → Reader Statement
  | 0 => throw .tooDeep
  | levels + 1 => do
    let inner := nested levels
    let query : Reader Statement := .query <$> inner.query
    if ← peekSymbol "(" then query
    else if ["SELECT", "WITH", "VALUES"].contains (← peekWord) then query
    else if (← acceptOneOf ["EXPLAIN", "DESCRIBE", "DESC"]).isSome then
      explanation (statementWithin levels)
      return .explanation
    else
      expectPhrase "an SQL statement" (statementPhrases inner (statementWithin levels))
      return .other

end DashCalc.Sql.Grammar

namespace DashCalc.Sql

def parse (sql : String) : Except Failure (List Statement) :=
  match scan sql with
  | .error what => .error (.unclosed what)
  | .ok tokens =>
    let statement := Grammar.statementWithin Grammar.depthLimit
    Prod.fst <$> Grammar.statements statement tokens

end DashCalc.Sql
