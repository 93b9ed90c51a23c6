import DashCalc.Sql.Grammar.Column

/-!
# Statements that create

The grammar of creating tables, views, indices and the like. Nothing is kept of them: that they can
be read is all that matters. Statements that hold others are read in `Statement`.
-/

namespace DashCalc.Sql.Grammar

open Reader

/-- The words that leave alone what is there already. -/
def unlessExists : Reader Unit := skipWords ["IF", "NOT", "EXISTS"]

/-- A name that may be missing what follows a period: takes the first token that is no identifier,
and everything in front of it. -/
def looseNameWithin : Nat → Reader Unit
  | 0 => exhausted
  | fuel + 1 => do
    match ← attempt? identifier with
    | some _ => if ← acceptSymbol "." then looseNameWithin fuel
    | none => discard next?

/-- A name, or the tokens up to the first one that does not fit into a name, which is taken too. -/
def looseName : Reader Unit := fun tokens => looseNameWithin (tokens.length + 1) tokens

/-! ## How a table is stored -/

/-- How the parts of a row are set apart in a file. What begins like such a part and goes on
differently ends them. -/
def delimitersWithin : Nat → Reader Unit
  | 0 => nothing
  | fuel + 1 => do
    let part (words : List String) (more : Reader Unit) : Reader Unit := do
      if ← acceptPhrase [(words, do discard identifier; more)] then delimitersWithin fuel
    discard <| acceptPhrase [
      (["FIELDS"], part ["TERMINATED", "BY"] (clause ["ESCAPED", "BY"] identifier)),
      (["COLLECTION"], part ["ITEMS", "TERMINATED", "BY"] nothing),
      (["MAP"], part ["KEYS", "TERMINATED", "BY"] nothing),
      (["LINES"], part ["TERMINATED", "BY"] nothing),
      (["NULL"], part ["DEFINED", "AS"] nothing)]

/-- How the rows of a table are written. -/
def rowFormat : Reader Unit := do
  expectWord "FORMAT"
  unless ← acceptPhrase [(["SERDE"], discard plainText)] do
    skipWords ["DELIMITED"]
    fun tokens => delimitersWithin (tokens.length + 1) tokens

/-- How and where a table is stored. -/
def storage (inner : Inner) : Reader Unit := acceptPhrases [
  (["ROW"], rowFormat),
  (["STORED"], do
    expectWord "AS"
    if ← acceptWord "INPUTFORMAT" then
      let _ ← inner.anyExpr
      expectWord "OUTPUTFORMAT"
      discard inner.anyExpr
    else fileFormat),
  (["LOCATION"], discard plainText),
  (["WITH", "SERDEPROPERTIES"], discard <| parenthesized (commaSeparated (namedOption inner)))]

/-- The columns that tell the partitions of a table apart. -/
def partitionColumns (inner : Inner) : Reader Unit :=
  clause ["PARTITIONED", "BY"] (parenthesized (commaSeparated (columnDefinition inner)))

/-! ## Tables and views -/

/-- A word, keyword or not. -/
def anyWord : Reader Unit := nextAs "identifier" fun
  | .word _ _ => some ()
  | _ => none

/-- The expressions that the rows of a table are sorted by. -/
def tableOrder (inner : Inner) : Reader Unit := do
  if ← acceptSymbol "(" then
    unless ← acceptSymbol ")" do
      let _ ← inner.exprs
      expectSymbol ")"
  else discard inner.anyExpr

/-- The options behind the columns of a table, in this order. -/
def tableOptions (inner : Inner) : Reader Unit := do
  options inner ["WITH"]
  options inner ["TBLPROPERTIES"]
  clause ["ENGINE"] do
    expectSymbol "="
    anyWord
    if ← peekSymbol "(" then discard identifierList
  clause ["AUTO_INCREMENT"] do
    let _ ← acceptSymbol "="
    discard (wholeNumberOf 32)
  clause ["ORDER", "BY"] (tableOrder inner)
  clause ["DEFAULT", "CHARSET"] do
    expectSymbol "="
    anyWord
  clause ["COLLATE"] do
    expectSymbol "="
    anyWord
  clause ["ON", "COMMIT"] <|
    expectPhrase "one of DELETE ROWS, PRESERVE ROWS or DROP" [
      (["DELETE", "ROWS"], nothing), (["PRESERVE", "ROWS"], nothing), (["DROP"], nothing)]
  skipWords ["STRICT"]
  clause ["COMMENT"] do
    let _ ← acceptSymbol "="
    discard quotedText

/-- A new table, the words in front already read. -/
def newTable (inner : Inner) : Reader Unit := do
  unlessExists
  let _ ← qualifiedName
  onCluster
  if (← acceptOneOf ["LIKE", "ILIKE"]).isSome then looseName
  clause ["CLONE"] looseName
  tableElements inner
  skipWords ["WITHOUT", "ROWID"]
  partitionColumns inner
  storage inner
  tableOptions inner
  if ← acceptWord "AS" then discard inner.query
  else if (← peekWord) = "SELECT" then discard inner.query

/-- A new table whose rows are kept elsewhere, the words in front already read. -/
def newExternalTable (inner : Inner) : Reader Unit := do
  expectWord "TABLE"
  unlessExists
  let _ ← qualifiedName
  tableElements inner
  partitionColumns inner
  storage inner
  options inner ["TBLPROPERTIES"]

/-- A new table that a module keeps, the word in front already read. -/
def newVirtualTable : Reader Unit := do
  expectWord "TABLE"
  unlessExists
  let _ ← qualifiedName
  expectWord "USING"
  let _ ← identifier
  optionalIdentifiers false

/-- A new view, the words in front already read. -/
def newView (inner : Inner) : Reader Unit := do
  let _ ← qualifiedName
  optionalIdentifiers true
  options inner ["WITH"]
  clause ["CLUSTER"] do
    expectWord "BY"
    optionalIdentifiers false
  expectWord "AS"
  discard inner.query

/-- A new index, the words in front already read. -/
def newIndex (inner : Inner) : Reader Unit := do
  skipWords ["CONCURRENTLY"]
  if ← acceptWords ["IF", "NOT", "EXISTS"] then
    let _ ← qualifiedName
    expectWord "ON"
  else unless ← acceptWord "ON" do
    let _ ← qualifiedName
    expectWord "ON"
  let _ ← qualifiedName
  clause ["USING"] identifier
  let _ ← parenthesized (commaSeparated (sortKey inner))
  clause ["INCLUDE"] identifierList
  nullsDistinct
  clause ["WHERE"] inner.anyExpr

/-! ## Rights and secrets -/

/-- Whom a policy is for, and the conditions it sets. -/
def policyRules (inner : Inner) : Reader Unit := do
  clause ["TO"] identifiers
  clause ["USING"] (parenthesized inner.anyExpr)
  clause ["WITH", "CHECK"] (parenthesized inner.anyExpr)

/-- A policy and its table. -/
def policyName : Reader Unit := do
  let _ ← identifier
  expectWord "ON"
  discard qualifiedName

/-- A new policy, the word in front already read. -/
def newPolicy (inner : Inner) : Reader Unit := do
  policyName
  clause ["AS"] (expectOneOf ["PERMISSIVE", "RESTRICTIVE"])
  clause ["FOR"] (expectOneOf ["ALL", "SELECT", "INSERT", "UPDATE", "DELETE"])
  policyRules inner

/-- The next token, taken whatever it is; tells whether it is an identifier. -/
def looseIdentifier : Reader Bool := do
  match ← attempt? identifier with
  | some _ => return true
  | none =>
    let _ ← next?
    return false

/-- A new secret, the word in front already read. -/
def newSecret : Reader Unit := do
  unlessExists
  unless ← peekSymbol "(" do
    let stored ←
      if ← acceptWord "IN" then looseIdentifier
      else do
        let _ ← looseIdentifier
        pure false
    unless stored do clause ["IN"] looseIdentifier
  parenthesized do
    expectWord "TYPE"
    let _ ← identifier
    if ← acceptSymbol "," then
      discard <| commaSeparated do
        let _ ← identifier
        identifier

/-! ## Other things -/

/-- A new extension, the word in front already read. -/
def newExtension : Reader Unit := do
  unlessExists
  let _ ← identifier
  clause ["WITH"] do
    clause ["SCHEMA"] identifier
    clause ["VERSION"] identifier
    skipWords ["CASCADE"]

/-- A new schema, the word in front already read. -/
def newSchema : Reader Unit := do
  unlessExists
  unless ← acceptPhrase [(["AUTHORIZATION"], discard identifier)] do
    let _ ← qualifiedName
    clause ["AUTHORIZATION"] identifier

/-- A new database, the word in front already read. -/
def newDatabase : Reader Unit := do
  unlessExists
  let _ ← qualifiedName
  acceptPhrases [(["LOCATION"], discard plainText), (["MANAGEDLOCATION"], discard plainText)]

/-- New roles, the word in front already read. -/
def newRoles : Reader Unit := do
  unlessExists
  let _ ← qualifiedNames
  skipWords ["WITH"]

/-- A new sequence, the word in front already read. -/
def newSequence : Reader Unit := do
  unlessExists
  let _ ← qualifiedName
  clause ["AS"] dataType
  sequenceOptions
  clause ["OWNED", "BY"] qualifiedName

/-- The attributes of a new type up to the closing parenthesis; a comma may stand behind the last
one. -/
def attributesWithin : Nat → Reader Unit
  | 0 => exhausted
  | fuel + 1 => do
    let _ ← identifier
    let _ ← dataType
    clause ["COLLATE"] qualifiedName
    let goesOn ← acceptSymbol ","
    unless ← acceptSymbol ")" do
      if goesOn then attributesWithin fuel
      else expected "',' or ')' after attribute definition"

/-- A new type, the word in front already read. -/
def newType : Reader Unit := do
  let _ ← qualifiedName
  expectWord "AS"
  if ← acceptWord "ENUM" then
    expectSymbol "("
    unless ← acceptSymbol ")" do
      let _ ← identifiers
      expectSymbol ")"
  else if ← acceptSymbol "(" then
    unless ← acceptSymbol ")" do
      fun tokens => attributesWithin (tokens.length + 1) tokens

/-- The parameters of a new procedure up to the closing parenthesis; any of them may be left
out. -/
def parametersWithin : Nat → Reader Unit
  | 0 => exhausted
  | fuel + 1 => do
    if (← peek?).any fun token => token matches .word _ _ then
      let _ ← identifier
      discard dataType
    let goesOn ← acceptSymbol ","
    unless ← acceptSymbol ")" do
      if goesOn then parametersWithin fuel
      else expected "',' or ')' after parameter definition"

/-- A new procedure, the word in front already read; `body` reads its statements. -/
def newProcedure (body : Reader Unit) : Reader Unit := do
  let _ ← qualifiedName
  if ← acceptSymbol "(" then
    unless ← acceptSymbol ")" do
      fun tokens => parametersWithin (tokens.length + 1) tokens
  expectWords ["AS", "BEGIN"]
  body
  expectWord "END"

/-- A creation, its first word already read; `body` reads the statements of a procedure. -/
def creation (inner : Inner) (body : Reader Unit) : Reader Unit := do
  let replaces ← acceptWords ["OR", "REPLACE"]
  skipWords ["OR", "ALTER"]
  skipEach ["LOCAL", "GLOBAL", "TRANSIENT"]
  skipOneOf ["TEMP", "TEMPORARY"]
  unless ← acceptPhrase [
      (["TABLE"], newTable inner),
      (["MATERIALIZED"], do
        expectWord "VIEW"
        newView inner),
      (["VIEW"], newView inner),
      (["POLICY"], newPolicy inner),
      (["EXTERNAL"], newExternalTable inner),
      (["SECRET"], newSecret)] do
    if replaces then
      expected "[EXTERNAL] TABLE or [MATERIALIZED] VIEW or FUNCTION after CREATE OR REPLACE"
    else expectPhrase "an object type after CREATE" [
      (["EXTENSION"], newExtension),
      (["INDEX"], newIndex inner),
      (["UNIQUE", "INDEX"], newIndex inner),
      (["VIRTUAL"], newVirtualTable),
      (["SCHEMA"], newSchema),
      (["DATABASE"], newDatabase),
      (["ROLE"], newRoles),
      (["SEQUENCE"], newSequence),
      (["TYPE"], newType),
      (["PROCEDURE"], newProcedure body)]

end DashCalc.Sql.Grammar
