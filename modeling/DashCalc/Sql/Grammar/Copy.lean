import DashCalc.Sql.Grammar.Column

/-!
# Copying rows

The grammar of copying rows between tables and files. Nothing is kept of it: that it can be read is
all that matters.
-/

namespace DashCalc.Sql.Grammar

open Reader

/-- A text of one byte. -/
def singleByte : Reader Unit := do
  let tokens ← get
  let text ← plainText
  unless text.utf8ByteSize = 1 do
    failAt tokens (.wrong ("Expect a char, found \x22" ++ text ++ "\x22"))

/-- The options in parentheses. -/
def copyOptions : List Phrase :=
  let choice := skipOneOf ["TRUE", "FALSE"]
  let columns := discard identifierList
  [
    (["FORMAT"], discard identifier),
    (["FREEZE"], choice),
    (["DELIMITER"], singleByte),
    (["NULL"], discard plainText),
    (["HEADER"], choice),
    (["QUOTE"], singleByte),
    (["ESCAPE"], singleByte),
    (["FORCE_QUOTE"], columns),
    (["FORCE_NOT_NULL"], columns),
    (["FORCE_NULL"], columns),
    (["ENCODING"], discard plainText)]

/-- Takes phrases as long as they come next and can be read to their end. -/
def attemptPhrases (phrases : List Phrase) : Reader Unit :=
  discard <| many (attempt? (expectPhrase "option" phrases))

/-- The options of rows with separators. -/
def separatorOptions : List Phrase :=
  let byte : Reader Unit := do
    skipWords ["AS"]
    singleByte
  [
    (["HEADER"], nothing),
    (["QUOTE"], byte),
    (["ESCAPE"], byte),
    (["FORCE", "NOT", "NULL"], discard identifiers),
    (["FORCE", "QUOTE"], discard identifiers)]

/-- The options without parentheses. -/
def looseOptions : List Phrase := [
  (["BINARY"], nothing),
  (["DELIMITER"], do
    skipWords ["AS"]
    singleByte),
  (["NULL"], do
    skipWords ["AS"]
    discard plainText),
  (["CSV"], attemptPhrases separatorOptions)]

/-- What follows the rows that stand in the text itself: a backslash and a period end them. -/
def afterRows : List Token → List Token
  | [] => []
  | .symbol "\\" :: .symbol "." :: rest => rest
  | .symbol "\\" :: _ :: rest => afterRows rest
  | _ :: rest => afterRows rest

/-- Rows that are copied into a table or out of one, the first word already read. -/
def copy (inner : Inner) : Reader Unit := do
  if ← acceptSymbol "(" then
    let _ ← inner.query
    expectSymbol ")"
    expectWord "TO"
  else
    let _ ← qualifiedName
    optionalIdentifiers false
    discard (expectAny "FROM or TO" ["FROM", "TO"])
  let inline ← acceptWord "STDIN"
  unless inline do
    unless ← acceptPhrase [(["STDOUT"], nothing), (["PROGRAM"], discard plainText)] do
      discard plainText
  skipWords ["WITH"]
  if ← acceptSymbol "(" then
    let _ ← commaSeparated (expectPhrase "option" copyOptions)
    expectSymbol ")"
  attemptPhrases looseOptions
  if inline then
    expectSymbol ";"
    modify afterRows

/-- The rows of a query that are written to files, the first word already read. -/
def unloading (inner : Inner) : Reader Unit := do
  let _ ← parenthesized inner.query
  expectWord "TO"
  let _ ← identifier
  options inner ["WITH"]

end DashCalc.Sql.Grammar
