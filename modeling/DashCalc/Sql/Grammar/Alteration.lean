import DashCalc.Sql.Grammar.Creation

/-!
# Statements that alter and drop

The grammar of altering tables and the like, and of dropping them. Nothing is kept of them: that
they can be read is all that matters.
-/

namespace DashCalc.Sql.Grammar

open Reader

/-! ## Altering tables -/

/-- Values that tell a partition, in parentheses. -/
def partitionValues (inner : Inner) : Reader Unit := discard (parenthesized inner.exprs)

/-- Where a column goes. -/
def columnPosition : Reader Unit := do
  unless ← acceptWord "FIRST" do clause ["AFTER"] identifier

/-- An added constraint, column or partition, the word in front already read. -/
def addition (inner : Inner) : Reader Unit := do
  unless ← tableConstraint inner do
    unlessExists
    if ← acceptPhrase [(["PARTITION"], partitionValues inner)] then
      acceptPhrases [(["PARTITION"], partitionValues inner)]
    else
      skipWords ["COLUMN"]
      columnDefinition inner
      columnPosition

/-- A new name, the word in front already read. -/
def renamed : Reader Unit := do
  unless ← acceptPhrase [(["TO"], discard qualifiedName)] do
    skipWords ["COLUMN"]
    let _ ← identifier
    expectWord "TO"
    discard identifier

/-- What can be switched off, and on as it was before. -/
def switches : List Phrase := [
  (["ROW", "LEVEL", "SECURITY"], nothing),
  (["RULE"], discard identifier),
  (["TRIGGER"], discard identifier)]

/-- What can be switched on. -/
def switchesOn : List Phrase := [
  (["ALWAYS", "RULE"], discard identifier),
  (["ALWAYS", "TRIGGER"], discard identifier),
  (["REPLICA", "RULE"], discard identifier),
  (["REPLICA", "TRIGGER"], discard identifier)] ++ switches

/-- A dropped part of a table, the word in front already read. -/
def removal (inner : Inner) : Reader Unit := do
  unless ← acceptPhrase [
      (["IF", "EXISTS", "PARTITION"], partitionValues inner),
      (["PARTITION"], partitionValues inner),
      (["CONSTRAINT"], do
        skipWords ["IF", "EXISTS"]
        let _ ← identifier
        skipWords ["CASCADE"]),
      (["PRIMARY", "KEY"], nothing)] do
    skipWords ["PROJECTION"]
    unless ← acceptWords ["CLUSTERING", "KEY"] do
      skipWords ["COLUMN"]
      skipWords ["IF", "EXISTS"]
      let _ ← identifier
      skipWords ["CASCADE"]

/-- New partitions in the place of others, the word in front already read. -/
def partitionChange (inner : Inner) : Reader Unit := do
  partitionValues inner
  expectWords ["RENAME", "TO", "PARTITION"]
  partitionValues inner

/-- A column that is defined anew, the word in front already read; with `renames`, under a new
name. -/
def redefinition (inner : Inner) (renames : Bool) : Reader Unit := do
  skipWords ["COLUMN"]
  let _ ← identifier
  if renames then
    let _ ← identifier
  columnNature inner
  columnPosition

/-- A change of a column's rules, the word in front already read. -/
def columnChange (inner : Inner) : Reader Unit := do
  skipWords ["COLUMN"]
  let _ ← identifier
  expectPhrase "SET/DROP NOT NULL, SET DEFAULT, or SET DATA TYPE after ALTER COLUMN" [
    (["SET", "NOT", "NULL"], nothing),
    (["DROP", "NOT", "NULL"], nothing),
    (["SET", "DEFAULT"], discard inner.anyExpr),
    (["DROP", "DEFAULT"], nothing),
    (["SET", "DATA", "TYPE"], discard dataType),
    (["ADD", "GENERATED"], do
      unless ← acceptWord "ALWAYS" do skipWords ["BY", "DEFAULT"]
      expectWords ["AS", "IDENTITY"]
      optionalSequenceOptions)]

/-- One alteration of a table. Some words in front of it have no effect. -/
def tableAlteration (inner : Inner) : Reader Unit := do
  unless ← acceptPhrase [
      (["ADD"], addition inner),
      (["RENAME"], renamed),
      (["DISABLE"], expectPhrase "ROW LEVEL SECURITY, RULE, or TRIGGER after DISABLE" switches),
      (["ENABLE"], expectPhrase
        "ALWAYS, REPLICA, ROW LEVEL SECURITY, RULE, or TRIGGER after ENABLE" switchesOn)] do
    skipWords ["CLEAR", "PROJECTION"]
    skipWords ["MATERIALIZE", "PROJECTION"]
    expectPhrase "ADD, RENAME, PARTITION, SWAP, DROP, or SET TBLPROPERTIES after ALTER TABLE" [
      (["DROP"], removal inner),
      (["PARTITION"], partitionChange inner),
      (["CHANGE"], redefinition inner true),
      (["MODIFY"], redefinition inner false),
      (["ALTER"], columnChange inner),
      (["SWAP"], do
        expectWord "WITH"
        discard qualifiedName),
      (["CLUSTER", "BY"], discard (parenthesized inner.exprs)),
      (["SUSPEND", "RECLUSTER"], nothing),
      (["RESUME", "RECLUSTER"], nothing),
      (["SET", "TBLPROPERTIES"],
        discard <| parenthesized (commaSeparated (namedOption inner)))]

/-- Alterations of a table, the words in front already read. -/
def alteredTable (inner : Inner) : Reader Unit := do
  skipWords ["IF", "EXISTS"]
  skipWords ["ONLY"]
  let _ ← qualifiedName
  onCluster
  let _ ← commaSeparated (tableAlteration inner)
  discard <| acceptPhrase [
    (["LOCATION"], discard identifier), (["SET", "LOCATION"], discard identifier)]

/-- An alteration, its first word already read. -/
def alteration (inner : Inner) : Reader Unit :=
  expectPhrase "one of VIEW or TABLE or INDEX or ROLE or POLICY" [
    (["VIEW"], do
      let _ ← qualifiedName
      optionalIdentifiers false
      options inner ["WITH"]
      expectWord "AS"
      discard inner.query),
    (["TABLE"], alteredTable inner),
    (["INDEX"], do
      let _ ← qualifiedName
      expectWords ["RENAME", "TO"]
      discard qualifiedName),
    (["POLICY"], do
      policyName
      unless ← acceptPhrase [(["RENAME"], do
          expectWord "TO"
          discard identifier)] do
        policyRules inner)]

/-! ## Dropping -/

/-- What becomes of that which depends on something dropped. -/
def dropBehavior : Reader Unit := skipOneOf ["CASCADE", "RESTRICT"]

/-- A parameter of a dropped function: its type, possibly behind its name. -/
def droppedParameter (inner : Inner) : Reader Unit := do
  skipOneOf ["IN", "OUT", "INOUT"]
  if (← dataType) = .custom then
    let _ ← dataType
  unless ← acceptPhrase [(["DEFAULT"], discard inner.anyExpr)] do
    if ← acceptSymbol "=" then discard inner.anyExpr

/-- Dropped functions or procedures, the word in front already read. -/
def droppedFunctions (inner : Inner) : Reader Unit := do
  skipWords ["IF", "EXISTS"]
  let _ ← commaSeparated do
    let _ ← qualifiedName
    if ← acceptSymbol "(" then
      unless ← acceptSymbol ")" do
        let _ ← commaSeparated (droppedParameter inner)
        expectSymbol ")"
  dropBehavior

/-- Dropped things of another kind, the word in front already read. With `lone`, nothing is said
about what depends on them. -/
def droppedThings (lone : Bool) : Reader Unit := do
  skipWords ["IF", "EXISTS"]
  let _ ← qualifiedNames
  let tokens ← get
  let cascades ← acceptWord "CASCADE"
  let restricts ← acceptWord "RESTRICT"
  let purges ← acceptWord "PURGE"
  if cascades && restricts then
    failAt tokens (.wrong "Cannot specify both CASCADE and RESTRICT in DROP")
  else if lone && (cascades || restricts || purges) then
    failAt tokens (.wrong "Cannot specify CASCADE, RESTRICT, or PURGE in DROP ROLE")

/-- A removal of tables or the like, its first word already read. -/
def drop (inner : Inner) : Reader Unit := do
  skipWords ["TEMPORARY"]
  let things := ["TABLE", "VIEW", "INDEX", "SCHEMA", "DATABASE", "SEQUENCE", "STAGE", "TYPE"]
  let what := "TABLE, VIEW, INDEX, ROLE, SCHEMA, DATABASE, FUNCTION, PROCEDURE, STAGE, TRIGGER, " ++
    "SECRET, SEQUENCE, or TYPE after DROP"
  expectPhrase what <| things.map (fun thing => ([thing], droppedThings false)) ++ [
    (["ROLE"], droppedThings true),
    (["FUNCTION"], droppedFunctions inner),
    (["PROCEDURE"], droppedFunctions inner),
    (["POLICY"], do
      skipWords ["IF", "EXISTS"]
      policyName
      dropBehavior),
    (["SECRET"], do
      skipWords ["IF", "EXISTS"]
      let _ ← identifier
      clause ["FROM"] looseIdentifier)]

end DashCalc.Sql.Grammar
