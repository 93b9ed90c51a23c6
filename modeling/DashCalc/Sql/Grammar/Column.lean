import DashCalc.Sql.Grammar.Query

/-!
# Columns of tables

The grammar of the columns and constraints that a table is defined with, and of the options that
tables and sequences take. Nothing is kept of them: that they can be read is all that matters.
-/

namespace DashCalc.Sql.Grammar

open Reader

/-! ## Options -/

/-- A group of servers that a statement is for. -/
def onCluster : Reader Unit := clause ["ON", "CLUSTER"] identifier

/-- An option and its value. -/
def namedOption (inner : Inner) : Reader Unit := do
  let _ ← identifier
  expectSymbol "="
  discard inner.anyExpr

/-- Options in parentheses behind these keywords; tells whether the keywords come next. -/
def acceptOptions (inner : Inner) (words : List String) : Reader Bool := acceptPhrase
  [(words, discard <| parenthesized (commaSeparated (namedOption inner)))]

/-- Options in parentheses behind these keywords, if they come next. -/
def options (inner : Inner) (words : List String) : Reader Unit :=
  discard (acceptOptions inner words)

/-- How the numbers of a sequence go on, in this order. -/
def sequenceOptions : Reader Unit := do
  clause ["INCREMENT"] do
    skipWords ["BY"]
    signedNumber
  unless ← acceptPhrase [(["MINVALUE"], signedNumber)] do skipWords ["NO", "MINVALUE"]
  unless ← acceptPhrase [(["MAXVALUE"], signedNumber)] do skipWords ["NO", "MAXVALUE"]
  clause ["START"] do
    skipWords ["WITH"]
    signedNumber
  clause ["CACHE"] signedNumber
  unless ← acceptWords ["NO", "CYCLE"] do skipWords ["CYCLE"]

/-- The options of a sequence in optional parentheses. -/
def optionalSequenceOptions : Reader Unit := do
  if ← peekSymbol "(" then parenthesized sequenceOptions

/-! ## References -/

/-- What becomes of rows that refer to a row that changes. -/
def referenceAction : Reader Unit := do
  let what := "one of RESTRICT, CASCADE, SET NULL, NO ACTION or SET DEFAULT"
  match ← expectAny what ["RESTRICT", "CASCADE", "SET", "NO"] with
  | "SET" => discard (expectOneOf ["NULL", "DEFAULT"])
  | "NO" => expectWord "ACTION"
  | _ => nothing

/-- What becomes of rows that refer to a row that is deleted or changed, each told once at most. -/
def referenceActions : Reader Unit := do
  if ← acceptPhrase [(["ON", "DELETE"], referenceAction)] then
    clause ["ON", "UPDATE"] referenceAction
  else if ← acceptPhrase [(["ON", "UPDATE"], referenceAction)] then
    clause ["ON", "DELETE"] referenceAction

/-- The aspects of when a constraint holds: whether the check can be put off, whether it is at
first, and whether it is made. -/
inductive Aspect
  | deferrable | initially | enforced
  deriving DecidableEq

/-- The phrase that settles each aspect of when a constraint holds. -/
def aspectPhrases : List (Aspect × Phrase) := [
  (.deferrable, ["NOT", "DEFERRABLE"], nothing),
  (.deferrable, ["DEFERRABLE"], nothing),
  (.initially, ["INITIALLY"], discard (expectOneOf ["DEFERRED", "IMMEDIATE"])),
  (.enforced, ["ENFORCED"], nothing),
  (.enforced, ["NOT", "ENFORCED"], nothing)]

/-- When a constraint holds, among what these phrases tell; at most `fuel` aspects. -/
def characteristicsWithin : Nat → List (Aspect × Phrase) → Reader Unit
  | 0, _ => nothing
  | fuel + 1, phrases => do
    discard <| acceptPhrase <| phrases.map fun (aspect, words, r) => (words, do
      r
      characteristicsWithin fuel (phrases.filter fun phrase => phrase.1 ≠ aspect))

/-- When a constraint holds; each aspect is settled once at most. -/
def characteristics : Reader Unit := characteristicsWithin 3 aspectPhrases

/-! ## Columns -/

/-- A computed value, and whether it is stored. -/
def computedValue (inner : Inner) : Reader Unit := do
  let _ ← parenthesized inner.anyExpr
  unless ← acceptWord "STORED" do skipWords ["VIRTUAL"]

/-- What a column is generated from, the word in front already read; tells whether it is known. -/
def generatedValue (inner : Inner) : Reader Bool := do
  if ← acceptPhrase [
      (["ALWAYS", "AS", "IDENTITY"], optionalSequenceOptions),
      (["BY", "DEFAULT", "AS", "IDENTITY"], optionalSequenceOptions)] then return true
  else if ← acceptWords ["ALWAYS", "AS"] then
    if ← peekSymbol "(" then
      computedValue inner
      return true
    else return false
  else return false

/-- A property of a column; tells whether there is one. Some words are taken that tell of none. -/
def columnProperty (inner : Inner) : Reader Bool := do
  if ← acceptPhrase [
      (["CHARACTER", "SET"], discard qualifiedName),
      (["NOT", "NULL"], nothing),
      (["COMMENT"], discard quotedText),
      (["NULL"], nothing),
      (["DEFAULT"], discard inner.anyExpr),
      (["PRIMARY", "KEY"], characteristics),
      (["UNIQUE"], characteristics),
      (["REFERENCES"], do
        let _ ← qualifiedName
        optionalIdentifiers false
        referenceActions
        characteristics),
      (["CHECK"], discard <| parenthesized inner.anyExpr),
      (["AUTO_INCREMENT"], nothing)] then return true
  else
    skipEach ["AUTOINCREMENT", "ASC", "DESC"]
    if ← acceptPhrase [(["ON", "UPDATE"], discard inner.anyExpr)] then return true
    else if ← acceptWord "GENERATED" then generatedValue inner
    else if ← acceptPhrase [(["AS"], computedValue inner)] then return true
    else
      skipWords ["IDENTITY"]
      return false

/-- A property of a column, possibly with a name; nothing if there is none. -/
def namedProperty? (inner : Inner) : Reader (Option Unit) := do
  if ← acceptWord "CONSTRAINT" then
    let _ ← identifier
    if ← columnProperty inner then return some ()
    else expected "constraint details after CONSTRAINT <name>"
  else if ← columnProperty inner then return some ()
  else if ← acceptPhrase [(["COLLATE"], discard qualifiedName)] then return some ()
  else return none

def columnDefinition (inner : Inner) : Reader Unit := do
  let _ ← identifier
  let _ ← dataType
  clause ["COLLATE"] qualifiedName
  discard (many (namedProperty? inner))

/-- The type of a column that is defined anew, and its properties. -/
def columnNature (inner : Inner) : Reader Unit := do
  let _ ← dataType
  discard <| many do
    if ← columnProperty inner then return some () else return none

/-! ## Constraints -/

/-- How an index is kept, if that is told. -/
def indexKind : List Phrase := [(["USING"], discard (expectOneOf ["BTREE", "HASH"]))]

/-- The columns of an index, possibly with a name and a kind in front. -/
def indexColumns : Reader Unit := do
  let _ ← attempt? identifier
  let _ ← acceptPhrase indexKind
  discard identifierList

/-- The columns of a key, the options of its index, and when the constraint holds. -/
def keyColumns : Reader Unit := do
  indexColumns
  acceptPhrases (indexKind ++ [(["COMMENT"], discard plainText)])
  characteristics

/-- Whether nulls count as distinct, if that is told. -/
def nullsDistinct : Reader Unit := clause ["NULLS"] do
  skipWords ["NOT"]
  expectWord "DISTINCT"

/-- The constraints of a table that may have a name. -/
def constraintPhrases (inner : Inner) : List Phrase := [
  (["UNIQUE"], do
    skipOneOf ["KEY", "INDEX"]
    nullsDistinct
    keyColumns),
  (["PRIMARY"], do
    expectWord "KEY"
    keyColumns),
  (["FOREIGN"], do
    expectWord "KEY"
    let _ ← identifierList
    expectWord "REFERENCES"
    let _ ← qualifiedName
    let _ ← identifierList
    referenceActions
    characteristics),
  (["CHECK"], discard <| parenthesized inner.anyExpr)]

/-- The indices of a table. -/
def indexPhrases : List Phrase :=
  let index : Reader Unit := do
    unless (← peekWord) = "USING" do discard (attempt? identifier)
    let _ ← acceptPhrase indexKind
    discard identifierList
  let search : Reader Unit := do
    skipOneOf ["KEY", "INDEX"]
    let _ ← attempt? identifier
    discard identifierList
  [(["INDEX"], index), (["KEY"], index), (["FULLTEXT"], search), (["SPATIAL"], search)]

/-- A constraint of a table, possibly with a name, or an index; tells whether there is one. -/
def tableConstraint (inner : Inner) : Reader Bool := do
  if ← acceptWord "CONSTRAINT" then
    let _ ← identifier
    expectPhrase "PRIMARY, UNIQUE, FOREIGN, or CHECK" (constraintPhrases inner)
    return true
  else acceptPhrase (constraintPhrases inner ++ indexPhrases)

/-- A column or a constraint of a table; the name of a column is a word. -/
def tableElement (inner : Inner) : Reader Unit := do
  unless ← tableConstraint inner do
    match ← peek? with
    | some (.word _ _) => columnDefinition inner
    | _ => expected "column name or constraint definition"

/-- The columns and constraints of a table in optional parentheses. -/
def tableElements (inner : Inner) : Reader Unit := do
  if ← acceptSymbol "(" then
    unless ← acceptSymbol ")" do
      let _ ← commaSeparated (tableElement inner)
      expectSymbol ")"

end DashCalc.Sql.Grammar
