import DashCalc.Sql.Grammar.Call

/-!
# Operands

What may stand beside an operator: literals, names, calls, parentheses and the notations that begin
with a keyword. No keyword is reserved altogether: where the notation of a keyword does not fit, the
word is read once more as an ordinary name or call. Only for a few words that is not done.
-/

namespace DashCalc.Sql.Grammar

open Reader

/-- Binding strengths of operators; a higher one binds tighter. -/
structure Strength where
  or : Nat := 5
  and : Nat := 10
  not : Nat := 15
  arrow : Nat := 16
  is : Nat := 17
  like : Nat := 19
  comparison : Nat := 20
  bitOr : Nat := 21
  bitXor : Nat := 22
  bitAnd : Nat := 23
  xor : Nat := 24
  sum : Nat := 30
  product : Nat := 40
  timeZone : Nat := 41
  cast : Nat := 50

/-- The binding strengths of this grammar. -/
def strength : Strength := {}

/-! ## Notations that begin with a keyword -/

/-- A conversion to a type, the word `CAST` already read. -/
def castForm (inner : Inner) : Reader Expr := parenthesized do
  let e ← inner.anyExpr
  expectWord "AS"
  let _ ← dataType
  if ← acceptWord "FORMAT" then
    let _ ← literal
    if ← acceptWords ["AT", "TIME", "ZONE"] then
      let _ ← literal
  return .other "Cast" [e]

/-- A conversion to a type or a character set. -/
def convertForm (inner : Inner) : Reader Expr := parenthesized do
  let e ← inner.anyExpr
  if ← acceptWord "USING" then
    let _ ← qualifiedName
  else
    expectSymbol ","
    let _ ← dataType
    if ← acceptWords ["CHARACTER", "SET"] then
      let _ ← qualifiedName
  return .other "Convert" [e]

/-- Whether a query has rows. -/
def existsForm (inner : Inner) : Reader Expr := do
  return .other "Exists" (← parenthesized inner.query).parts

/-- A part of a date. -/
def extractForm (inner : Inner) : Reader Expr := parenthesized do
  let _ ← datePart
  expectWord "FROM"
  return .other "Extract" [← inner.anyExpr]

/-- Rounding up or down, possibly to a part of a date or to a number of places; neither is kept. -/
def roundingForm (inner : Inner) (name : String) : Reader Expr := parenthesized do
  let e ← inner.anyExpr
  if ← acceptWord "TO" then
    let _ ← datePart
  else if ← acceptSymbol "," then
    match ← literal with
    | .number _ => pure ()
    | _ => failAt [] (.wrong "Scale field can only be of number type")
  return .builtin name [e] []

/-- The place of a text in another one. -/
def positionForm (inner : Inner) : Reader Expr := parenthesized do
  let part ← inner.expr strength.comparison
  expectWord "IN"
  return .other "Position" [part, ← inner.anyExpr]

/-- A part of a text. -/
def substringForm (inner : Inner) : Reader Expr := parenthesized do
  let e ← inner.anyExpr
  let start ←
    if ← acceptSymbol "," then some <$> inner.anyExpr else after? "FROM" inner.anyExpr
  let length ←
    if ← acceptSymbol "," then some <$> inner.anyExpr else after? "FOR" inner.anyExpr
  return .builtin "SUBSTRING" (e :: (start.toList ++ length.toList)) []

/-- A text with a part replaced. -/
def overlayForm (inner : Inner) : Reader Expr := parenthesized do
  let e ← inner.anyExpr
  expectWord "PLACING"
  let what ← inner.anyExpr
  expectWord "FROM"
  let start ← inner.anyExpr
  let length ← after? "FOR" inner.anyExpr
  return .other "Overlay" ([e, what, start] ++ length.toList)

/-- A text without characters at its ends; the characters to remove are not kept. -/
def trimForm (inner : Inner) : Reader Expr := parenthesized do
  let _ ← acceptOneOf ["BOTH", "LEADING", "TRAILING"]
  let e ← inner.anyExpr
  if ← acceptWord "FROM" then return .builtin "TRIM" [← inner.anyExpr] [e]
  else
    let _ ← acceptSymbol ","
    return .builtin "TRIM" [e] []

/-- A search in the text of some columns. -/
def matchForm : Reader Expr := do
  let columns ← identifierList
  expectWord "AGAINST"
  parenthesized do
    let _ ← literal
    if ← acceptWords ["IN", "NATURAL", "LANGUAGE", "MODE"] then
      let _ ← acceptWords ["WITH", "QUERY", "EXPANSION"]
    else unless ← acceptWords ["IN", "BOOLEAN", "MODE"] do
      let _ ← acceptWords ["WITH", "QUERY", "EXPANSION"]
  return .other "MatchAgainst" (columns.map (.name []))

/-- A distinction of cases, the word `CASE` already read. -/
def caseForm (inner : Inner) : Reader Expr := do
  let operand ← if (← peekWord) = "WHEN" then pure none else some <$> inner.anyExpr
  let branch : Reader (Expr × Expr) := do
    let condition ← inner.anyExpr
    expectWord "THEN"
    return (condition, ← inner.anyExpr)
  expectWord "WHEN"
  let first ← branch
  let more ← many (after? "WHEN" branch)
  let otherwise ← after? "ELSE" inner.anyExpr
  expectWord "END"
  return .branches operand (first :: more) otherwise

/-- A negation, or a negated test whether a query has rows. -/
def notForm (inner : Inner) : Reader Expr := do
  if ← acceptWord "EXISTS" then existsForm inner
  else return .unary "NOT" (← inner.expr strength.not)

/-- The items of a list in square brackets, the opening one already read. -/
def bracketedItems (inner : Inner) : Reader Expr := do
  if ← acceptSymbol "]" then return .other "Array" []
  else
    let items ← inner.exprs
    expectSymbol "]"
    return .other "Array" items

/-- A function of the current time, with or without arguments. -/
def timeForm (inner : Inner) (name : String) : Reader Expr := do
  if ← acceptSymbol "(" then
    let (arguments, clauses) ← arguments inner
    return .call name arguments clauses none
  else return .call name [] [] none

/-- The notation that a keyword begins. `name` is the word as it was written and `rest` what comes
behind it. -/
def keywordForm (inner : Inner) (name keyword : String) (rest : List Token) :
    Option (Reader Expr) :=
  match keyword with
  | "TRUE" => some (return .literal (.bool true))
  | "FALSE" => some (return .literal (.bool false))
  | "NULL" => some (return .literal .null)
  | "CURRENT_TIMESTAMP" | "CURRENT_TIME" | "CURRENT_DATE" | "LOCALTIME" | "LOCALTIMESTAMP" =>
    some (timeForm inner name)
  | "CASE" => some (caseForm inner)
  | "CONVERT" => some (convertForm inner)
  | "CAST" | "TRY_CAST" | "SAFE_CAST" => some (castForm inner)
  | "EXISTS" => some (existsForm inner)
  | "EXTRACT" => some (extractForm inner)
  | "CEIL" => some (roundingForm inner "CEIL")
  | "FLOOR" => some (roundingForm inner "FLOOR")
  | "POSITION" =>
    if rest.head? = some (.symbol "(") then some do
      match ← attempt? (positionForm inner) with
      | some e => return e
      | none => call inner name
    else none
  | "SUBSTRING" => some (substringForm inner)
  | "OVERLAY" => some (overlayForm inner)
  | "TRIM" => some (trimForm inner)
  | "INTERVAL" => some (interval inner)
  | "ARRAY" =>
    if rest.head? = some (.symbol "[") then some do
      expectSymbol "["
      bracketedItems inner
    else if rest.head? = some (.symbol "(") then some do
      return .callOfQuery name (← parenthesized inner.query).parts
    else none
  | "NOT" => some (notForm inner)
  | "MATCH" => some matchForm
  | _ => none

/-- Keywords that are not read as a name where their notation does not fit. -/
def reservedForms : List String := ["EXISTS", "INTERVAL", "STRUCT", "TRIM"]

/-! ## Names, calls and parentheses -/

/-- Whether a text with a character set in front stands here. -/
def atIntroduced (rest : List Token) : Bool :=
  match rest with
  | .text _ _ :: _ => true
  | .special .hex _ :: _ => true
  | _ => false

/-- A column or a call; `name` is its first word, already read. -/
def nameOrCall (inner : Inner) (name : String) : Reader Expr := do
  let rest ← get
  if name.startsWith "_" && atIntroduced rest then
    let _ ← next?
    return .other "IntroducedString" []
  else
    let (parts, _) ← moreParts false (rest.length + 1)
    if ← peekSymbol "(" then call inner name
    else return .ofParts name parts

/-- What a word begins, and whether a collation may follow: not where the notation of the word did
not fit. -/
def wordOperand (inner : Inner) (name keyword : String) : Reader (Expr × Bool) := fun rest =>
  match keywordForm inner name keyword rest with
  | none => ((·, true) <$> nameOrCall inner name) rest
  | some form =>
    if reservedForms.contains keyword then ((·, true) <$> form) rest
    else orElseFirst ((·, true) <$> form) ((·, false) <$> nameOrCall inner name) rest

/-- A query, an expression or several in parentheses, the opening one already read; possibly with
the name of a component behind it. -/
def parenthesisOperand (inner : Inner) : Reader Expr := do
  let e ←
    if ← atQuery then pure (Expr.other "Subquery" (← inner.query).parts)
    else match ← inner.exprs with
      | [e] => pure (.nested e)
      | items => pure (.tuple items)
  expectSymbol ")"
  if ← acceptSymbol "." then
    let tokens ← get
    match ← next? with
    | some (.word _ _) => return .other "CompositeAccess" [e]
    | found =>
      let shown := (found.map Token.shown).getD endShown
      failAt tokens (.wrong ("Expected identifier, found: " ++ shown))
  else return e

/-- A call in braces behind the word `FN`, the opening brace already read. -/
def bracedCall (inner : Inner) : Reader Expr := do
  let tokens ← get
  let found? ← attempt? do
    expectWord "FN"
    let name ← qualifiedName
    call inner (name.head?.getD "")
  match found? with
  | some e =>
    expectSymbol "\x7d"
    return e
  | none => failAt (.symbol "\x7b" :: tokens) (.expected "an expression")

/-- A text with its type in front. -/
def typedText (inner : Inner) : Reader Expr := do
  match ← dataType with
  | .interval => interval inner
  | .custom => expected "a data type name"
  | .known =>
    let _ ← plainText
    return .other "TypedString" []

/-- An operand other than a text with its type, and whether a collation may follow. -/
def untypedOperand (inner : Inner) : Reader (Expr × Bool) := do
  let tokens ← get
  let unfit : Reader Expr := failAt tokens (.expected "an expression")
  match ← next? with
  | some (.word name keyword) => wordOperand inner name keyword
  | some (.symbol symbol) => (·, true) <$>
    match symbol with
    | "(" => parenthesisOperand inner
    | "[" => bracketedItems inner
    | "-" => return .unary "-" (← inner.expr strength.product)
    | "+" => return .unary "+" (← inner.expr strength.product)
    | ":" | "@" => return .literal (.other (symbol ++ (← placeholderName)))
    | "\x7b" => bracedCall inner
    | _ => unfit
  | some (.special .escaped _) => (·, true) <$> unfit
  | some token => (·, true) <$>
    match token.literal? with
    | some value => return .literal value
    | none => unfit
  | none => (·, true) <$> unfit

def operand (inner : Inner) : Reader Expr := do
  match ← attempt? (typedText inner) with
  | some e => return e
  | none =>
    let (e, collatable) ← untypedOperand inner
    if !collatable then return e
    else if ← acceptWord "COLLATE" then
      let _ ← qualifiedName
      return .other "Collate" [e]
    else return e

end DashCalc.Sql.Grammar
