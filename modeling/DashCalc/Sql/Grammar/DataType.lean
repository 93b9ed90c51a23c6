import DashCalc.Sql.Grammar.Basic

/-!
# Data types

A data type is read where SQL names one, and in front of a text that is written with its type. What
it is does not matter further; only intervals, which go on with a value of their own, and names that
are no known type are told apart.
-/

namespace DashCalc.Sql.Grammar

open Reader

/-- What is told apart among data types. -/
inductive DataType
  | known | interval | custom
  deriving DecidableEq

/-- Types that consist of a word. -/
def bareTypes : List String := [
  "BOOLEAN", "BOOL", "REAL", "FLOAT4", "FLOAT32", "FLOAT64", "FLOAT8", "INT16", "INT32", "INT64",
  "INT128", "INT256", "UINT8", "UINT16", "UINT32", "UINT64", "UINT128", "UINT256", "TINYBLOB",
  "MEDIUMBLOB", "LONGBLOB", "UUID", "DATE", "DATE32", "JSON", "JSONB", "REGCLASS", "TEXT",
  "TINYTEXT", "MEDIUMTEXT", "LONGTEXT", "BYTEA", "TRIGGER"]

/-- Types with an optional number in parentheses. -/
def measuredTypes : List String := [
  "FLOAT", "CLOB", "BINARY", "VARBINARY", "BLOB", "BYTES", "DATETIME", "TIMESTAMPTZ", "TIMETZ",
  "STRING"]

/-- Integer types, which may be unsigned. -/
def integerTypes : List String := [
  "TINYINT", "INT2", "SMALLINT", "MEDIUMINT", "INT", "INT4", "INT8", "INTEGER", "BIGINT"]

/-- Decimal types, with a precision and a scale. -/
def decimalTypes : List String := ["NUMERIC", "DECIMAL", "DEC", "BIGNUMERIC", "BIGDECIMAL"]

/-- Reads what stands in optional parentheses. -/
def optionallyParenthesized {α : Type} (r : Reader α) : Reader Unit := do
  if ← acceptSymbol "(" then
    let _ ← r
    expectSymbol ")"

/-- A number in optional parentheses. -/
def optionalPrecision : Reader Unit := optionallyParenthesized wholeNumber

/-- One or two numbers in optional parentheses. -/
def optionalScale : Reader Unit := optionallyParenthesized do
  let _ ← wholeNumber
  if ← acceptSymbol "," then
    let _ ← wholeNumber

/-- The length of a text type in optional parentheses. -/
def optionalLength : Reader Unit := optionallyParenthesized do
  unless ← acceptWord "MAX" do
    let _ ← wholeNumber
    let _ ← acceptOneOf ["CHARACTERS", "OCTETS"]

/-- With or without a time zone. -/
def optionalTimeZone : Reader Unit := do
  if (← acceptOneOf ["WITH", "WITHOUT"]).isSome then expectWords ["TIME", "ZONE"]

/-- A value of an enumeration, possibly with its number. -/
def enumValue : Reader Unit := do
  let _ ← plainText
  if ← acceptSymbol "=" then signedNumber

/-- A text in single quotes. -/
def quotedText : Reader String := nextAs "a string" fun
  | .text .single value => some value
  | _ => none

/-- What may stand between the parentheses behind the name of an unknown type, up to the closing
one. -/
def modifiersWithin : Nat → Reader Unit
  | 0 => exhausted
  | fuel + 1 => do
    let tokens ← get
    let unfit : Reader Unit := failAt tokens (.expected "type modifiers")
    match ← next? with
    | some (.symbol symbol) =>
      if symbol = ")" then return
      else if symbol = "," then modifiersWithin fuel
      else unfit
    | some (.text .single _) | some (.word _ _) | some (.number _ _) => modifiersWithin fuel
    | _ => unfit

/-- The rest of a type whose first word is known; nothing if the word begins no type. -/
def typeOfWord (word : String) : Option (Reader Unit) :=
  if bareTypes.contains word then some (return)
  else if measuredTypes.contains word then some optionalPrecision
  else if integerTypes.contains word then some do
    optionalPrecision
    let _ ← acceptWord "UNSIGNED"
  else if decimalTypes.contains word then some optionalScale
  else match word with
  | "DOUBLE" => some do
    let _ ← acceptWord "PRECISION"
  | "VARCHAR" | "NVARCHAR" => some optionalLength
  | "CHAR" | "CHARACTER" => some do
    if ← acceptWord "VARYING" then optionalLength
    else if ← acceptWords ["LARGE", "OBJECT"] then optionalPrecision
    else optionalLength
  | "BIT" => some do
    let _ ← acceptWord "VARYING"
    optionalPrecision
  | "TIMESTAMP" | "TIME" => some do
    optionalPrecision
    optionalTimeZone
  | "FIXEDSTRING" => some do
    let _ ← parenthesized wholeNumber
  | "DATETIME64" => some <| parenthesized do
    let _ ← wholeNumber
    if ← acceptSymbol "," then
      let _ ← plainText
  | "ENUM" | "ENUM8" | "ENUM16" => some do
    let _ ← parenthesized (commaSeparated enumValue)
  | "SET" => some do
    let _ ← parenthesized (commaSeparated quotedText)
  | _ => none

/-- Brackets behind a type, which make it an array. -/
def arrayMark? : Reader (Option Unit) := do
  if ← acceptSymbol "[" then
    expectSymbol "]"
    return some ()
  else return none

/-- Closes an angle bracket. A double bracket closes two, of which the second is then `owed` to the
type around; an owed one needs no token. -/
def closeAngle (owed : Bool) : Reader Bool := do
  if owed then return false
  else if ← acceptSymbol ">" then return false
  else if ← acceptSymbol ">>" then return true
  else expected ">"

/-- A data type, and whether it closed an angle bracket too many. -/
def dataTypeWithin : Nat → Reader (DataType × Bool)
  | 0 => exhausted
  | fuel + 1 => do
    let tokens ← get
    match ← next? with
    | some (.word _ keyword) =>
      let (type, owed) : DataType × Bool ←
        if keyword = "INTERVAL" then pure (DataType.interval, false)
        else if keyword = "ARRAY" then do
          expectSymbol "<"
          let (_, owed) ← dataTypeWithin fuel
          pure (DataType.known, ← closeAngle owed)
        else match typeOfWord keyword with
          | some rest => do
            rest
            pure (DataType.known, false)
          | none => do
            set tokens
            let _ ← qualifiedName
            if ← acceptSymbol "(" then
              fun tokens => modifiersWithin (tokens.length + 1) tokens
            pure (DataType.custom, false)
      let marks ← many arrayMark?
      return (if marks.isEmpty then type else .known, owed)
    | _ => failAt tokens (.expected "a data type name")

def dataType : Reader DataType := fun tokens => do
  let ((type, owed), rest) ← dataTypeWithin (tokens.length + 1) tokens
  if owed then throw (.malformed (.wrong "unmatched > in data type") rest.length)
  else return (type, rest)

end DashCalc.Sql.Grammar
