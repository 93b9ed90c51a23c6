import DashCalc.Sql.Grammar.Column

/-!
# Statements on the server

The grammar of rights, of locks and caches, and of what keeps tables in order. Nothing is kept of
them: that they can be read is all that matters.
-/

namespace DashCalc.Sql.Grammar

open Reader

/-! ## Rights -/

/-- The rights that may be limited to some columns. -/
def columnRights : List String := ["INSERT", "REFERENCES", "SELECT", "UPDATE"]

/-- The rights that hold for something as a whole. -/
def wholeRights : List String :=
  ["CONNECT", "CREATE", "DELETE", "EXECUTE", "TEMPORARY", "TRIGGER", "TRUNCATE", "USAGE"]

/-- A right that may be granted. -/
def right : Reader Unit := expectPhrase "a privilege keyword" <|
  bare wholeRights ++ columnRights.map fun word => ([word], optionalIdentifiers false)

/-- Rights, and what they are for. -/
def rights : Reader Unit := do
  if ← acceptWord "ALL" then skipWords ["PRIVILEGES"]
  else discard (commaSeparated right)
  expectWord "ON"
  unless ← acceptPhrase [
      (["ALL", "TABLES", "IN", "SCHEMA"], nothing),
      (["ALL", "SEQUENCES", "IN", "SCHEMA"], nothing)] do
    skipOneOf ["SEQUENCE", "SCHEMA", "TABLE"]
  discard qualifiedNames

/-- Who granted a right. -/
def grantor : Reader Unit :=
  clause ["GRANTED", "BY"] (insist "the name behind GRANTED BY" identifier)

/-- Rights that are granted, the first word already read. -/
def grant : Reader Unit := do
  rights
  expectWord "TO"
  let _ ← identifiers
  skipWords ["WITH", "GRANT", "OPTION"]
  grantor

/-- Rights that are taken back, the first word already read. -/
def revocation : Reader Unit := do
  rights
  expectWord "FROM"
  let _ ← identifiers
  grantor
  let tokens ← get
  let cascades ← acceptWord "CASCADE"
  let restricts ← acceptWord "RESTRICT"
  if cascades && restricts then
    failAt tokens (.wrong "Cannot specify both CASCADE and RESTRICT in REVOKE")

/-! ## Locks, connections and caches -/

/-- A table that is locked, possibly under another name. -/
def lockedTable : Reader Unit := do
  let _ ← identifier
  let _ ← optionalAlias ["READ", "WRITE", "LOW_PRIORITY"]
  expectPhrase "an lock type in LOCK TABLES" [
    (["READ"], skipWords ["LOCAL"]),
    (["WRITE"], nothing),
    (["LOW_PRIORITY", "WRITE"], nothing)]

/-- Tables that are flushed and locked. Words without a meaning here are passed over, and the first
token that is no word is taken and ends them. -/
def flushedTablesWithin : Nat → Reader Unit
  | 0 => exhausted
  | fuel + 1 => do
    let tokens ← get
    match ← next? with
    | some (.word value keyword) =>
      if keyword = "WITH" then skipWords ["READ", "LOCK"]
      else if keyword = "FOR" then skipWords ["EXPORT"]
      else if (Token.word value keyword).isPlainWord then
        set tokens
        discard qualifiedNames
      flushedTablesWithin fuel
    | _ => nothing

/-- What is flushed, the first word already read. -/
def flush : Reader Unit := do
  skipOneOf ["NO_WRITE_TO_BINLOG", "LOCAL"]
  expectPhrase ("BINARY LOGS, ENGINE LOGS, ERROR LOGS, GENERAL LOGS, HOSTS, LOGS, PRIVILEGES, " ++
    "OPTIMIZER_COSTS, RELAY LOGS [FOR CHANNEL channel], SLOW LOGS, STATUS, USER_RESOURCES") [
    (["BINARY", "LOGS"], nothing),
    (["ENGINE", "LOGS"], nothing),
    (["ERROR", "LOGS"], nothing),
    (["GENERAL", "LOGS"], nothing),
    (["HOSTS"], nothing),
    (["PRIVILEGES"], nothing),
    (["OPTIMIZER_COSTS"], nothing),
    (["RELAY", "LOGS"],
      clause ["FOR", "CHANNEL"] (insist "the name behind FOR CHANNEL" qualifiedName)),
    (["SLOW", "LOGS"], nothing),
    (["STATUS"], nothing),
    (["USER_RESOURCES"], nothing),
    (["LOGS"], nothing),
    (["TABLES"], fun tokens => flushedTablesWithin (tokens.length + 1) tokens)]

/-- A connection or query that is ended, the first word already read. -/
def kill : Reader Unit := do
  skipOneOf ["CONNECTION", "QUERY"]
  discard wholeNumber

/-- The query that fills a cached table; nothing at the end. -/
def cachedQuery (inner : Inner) : Reader Unit := do
  match ← peek? with
  | none => nothing
  | some (.word _ _) =>
    skipWords ["AS"]
    discard inner.query
  | _ => expected "a QUERY statement"

/-- A table that is kept in a cache, the first word already read. -/
def cache (inner : Inner) : Reader Unit := do
  unless ← acceptWord "TABLE" do
    let _ ← qualifiedName
    expectWord "TABLE"
  let _ ← qualifiedName
  options inner ["OPTIONS"]
  cachedQuery inner

/-- A table that is no longer kept in a cache, the first word already read. -/
def uncaching : Reader Unit := do
  expectWord "TABLE"
  skipWords ["IF", "EXISTS"]
  discard qualifiedName

/-! ## Keeping tables in order -/

/-- A table that statistics are made of, the first word already read. -/
def analysis (inner : Inner) : Reader Unit := do
  expectWord "TABLE"
  let _ ← qualifiedName
  acceptPhrases [
    (["PARTITION"], discard (parenthesized inner.exprs)),
    (["NOSCAN"], nothing),
    (["FOR"], do
      expectWord "COLUMNS"
      discard (attempt? identifiers)),
    (["CACHE"], expectWord "METADATA"),
    (["COMPUTE"], expectWord "STATISTICS")]

/-- Tables that are emptied, the first word already read. -/
def truncation (inner : Inner) : Reader Unit := do
  skipEach ["TABLE", "ONLY"]
  let _ ← qualifiedNames
  let _ ← partition inner
  onCluster

/-- A table whose partitions are repaired, the first word already read. -/
def repair : Reader Unit := do
  skipWords ["REPAIR"]
  expectWord "TABLE"
  let _ ← qualifiedName
  discard <| attempt? do
    skipOneOf ["ADD", "DROP", "SYNC"]
    expectWord "PARTITIONS"

/-- A database in a file, the first word already read. -/
def attachment (inner : Inner) : Reader Unit := do
  skipWords ["DATABASE"]
  let _ ← inner.anyExpr
  expectWord "AS"
  discard identifier

/-- A setting of the server and its value, the first word already read. -/
def setting : Reader Unit := do
  let value : Reader Unit := do
    match ← peek? with
    | some (.text _ _) => discard next?
    | _ => numberValue
  let _ ← qualifiedName
  if ← peekSymbol "(" then parenthesized value
  else if ← acceptSymbol "=" then value

end DashCalc.Sql.Grammar
