import DashCalc.Sql.Grammar.Operand

/-!
# Operators

An expression is an operand, followed by operators with their right operands as long as the
operators bind tighter than the place asks for. Operators of one strength group from the left.
-/

namespace DashCalc.Sql.Grammar

open Reader

/-- Operators between two operands: how they are written, their strength and their canonical
form. -/
def binaryOperators : List (String × Nat × String) := [
  ("=", strength.comparison, "="), ("==", strength.comparison, "="),
  ("<=>", strength.comparison, "<=>"), ("<>", strength.comparison, "<>"),
  ("!=", strength.comparison, "<>"), ("<", strength.comparison, "<"),
  ("<=", strength.comparison, "<="), (">", strength.comparison, ">"),
  (">=", strength.comparison, ">="), ("~", strength.comparison, "~"),
  ("~*", strength.comparison, "~*"), ("!~", strength.comparison, "!~"),
  ("!~*", strength.comparison, "!~*"), ("~~", strength.comparison, "~~"),
  ("~~*", strength.comparison, "~~*"), ("!~~", strength.comparison, "!~~"),
  ("!~~*", strength.comparison, "!~~*"), ("|", strength.bitOr, "|"), ("^", strength.bitXor, "^"),
  ("&", strength.bitAnd, "&"), ("+", strength.sum, "+"), ("-", strength.sum, "-"),
  ("*", strength.product, "*"), ("/", strength.product, "/"), ("%", strength.product, "%"),
  ("||", strength.product, "||"), ("->", strength.arrow, "->"), ("->>", strength.arrow, "->>"),
  ("@>", strength.arrow, "@>"), ("<@", strength.arrow, "<@"), ("@?", strength.arrow, "@?"),
  ("@@", strength.arrow, "@@")]

/-- Symbols that have a strength but no use between operands here, apart from a cast and an
access. -/
def boundSymbols : List (String × Nat) := [
  ("<<", strength.bitXor), (">>", strength.bitXor), ("::", strength.cast), ("!", strength.cast),
  ("[", strength.cast), ("&&", strength.cast), ("^@", strength.cast)]

/-- The names under which symbols without a use between operands are reported. -/
def infixName (symbol : String) : String :=
  match symbol with
  | "<<" => "ShiftLeft"
  | ">>" => "ShiftRight"
  | "!" => "ExclamationMark"
  | "&&" => "Overlap"
  | "^@" => "CaretAt"
  | other => other

/-- Operators written as words between two operands. -/
def wordOperators : List (String × Nat) := [
  ("AND", strength.and), ("OR", strength.or), ("XOR", strength.xor)]

/-- Tests that `NOT` may stand before. -/
def negatableTests : List (String × Nat) := [
  ("IN", strength.comparison), ("BETWEEN", strength.comparison), ("LIKE", strength.like),
  ("ILIKE", strength.like), ("RLIKE", strength.like), ("REGEXP", strength.like),
  ("SIMILAR", strength.like)]

/-- How tightly the operator at the front of the tokens binds; zero if there is none. -/
def strengthAt (tokens : List Token) : Nat :=
  match tokens with
  | .symbol symbol :: _ =>
    match binaryOperators.lookup symbol with
    | some (strength, _) => strength
    | none => (boundSymbols.lookup symbol).getD 0
  | .word _ keyword :: rest =>
    match keyword with
    | "NOT" => (negatableTests.lookup ((rest.head?.map Token.keyword).getD "")).getD 0
    | "AT" =>
      if (rest.take 2).map Token.keyword = ["TIME", "ZONE"] then strength.timeZone else 0
    | "IS" => strength.is
    | "DIV" => strength.product
    | "OPERATOR" => strength.comparison
    | _ => ((wordOperators ++ negatableTests).lookup keyword).getD 0
  | _ => 0

/-- Comparisons that may be made with any or all of several values. -/
def quantifiable : List String := ["=", "<>", "<", "<=", ">", ">="]

/-- The right side of an operator whose symbol is already read: an operand, or any or all of the
values in parentheses. -/
def rightSide (inner : Inner) (operator : String) (level : Nat) (left : Expr) : Reader Expr := do
  let behind ← get
  match ← acceptOneOf ["ANY", "ALL", "SOME"] with
  | none => return .binary operator left (← inner.expr level)
  | some quantifier =>
    let tokens ← get
    expectSymbol "("
    let right ←
      if ← atQuery then do
        set tokens
        inner.expr level
      else do
        let right ← inner.expr level
        expectSymbol ")"
        pure right
    if quantifiable.contains operator then
      return .other (if quantifier = "ALL" then "AllOp" else "AnyOp") [left, right]
    else failAt (.symbol operator :: behind) (.wrong
      ("Expected one of [=, >, <, =>, =<, !=] as comparison operator, found: " ++ operator))

/-- What follows `IS`. -/
def isTest (inner : Inner) (left : Expr) : Reader Expr := do
  let tokens ← get
  let negated ← acceptWord "NOT"
  match ← acceptOneOf ["NULL", "TRUE", "FALSE", "UNKNOWN"] with
  | some "NULL" => return .unary (if negated then "IS NOT NULL" else "IS NULL") left
  | some "TRUE" => return .other (if negated then "IsNotTrue" else "IsTrue") [left]
  | some "FALSE" => return .other (if negated then "IsNotFalse" else "IsFalse") [left]
  | some "UNKNOWN" => return .other (if negated then "IsNotUnknown" else "IsUnknown") [left]
  | _ =>
    if ← acceptWords ["DISTINCT", "FROM"] then
      let right ← inner.anyExpr
      return .other (if negated then "IsNotDistinctFrom" else "IsDistinctFrom") [left, right]
    else
      failAt tokens (.expected "[NOT] NULL or TRUE|FALSE or [NOT] DISTINCT FROM after IS")

/-- A membership test behind `IN`. -/
def inTest (inner : Inner) (negated : Bool) (left : Expr) : Reader Expr := do
  if ← acceptWord "UNNEST" then
    return .other "InUnnest" [left, ← parenthesized inner.anyExpr]
  else parenthesized do
    if ← atQuery then return .other "InSubquery" (left :: (← inner.query).parts)
    else return .among (if negated then "NOT IN" else "IN") left (← inner.exprs)

/-- A test that may be negated. -/
def negatableTest (inner : Inner) (left : Expr) : Reader Expr := do
  let negated ← acceptWord "NOT"
  let tokens ← get
  let escape : Reader Unit := do
    let _ ← after? "ESCAPE" plainText
  let pattern : Reader Expr := inner.expr strength.like
  match ← next? with
  | some (.word _ "REGEXP") => do
    let _ ← acceptWord "RLIKE"
    return .other "RLike" [left, ← pattern]
  | some (.word _ "RLIKE") => return .other "RLike" [left, ← pattern]
  | some (.word _ "IN") => inTest inner negated left
  | some (.word _ "BETWEEN") => do
    let low ← inner.expr strength.comparison
    expectWord "AND"
    let high ← inner.expr strength.comparison
    return .among (if negated then "NOT BETWEEN" else "BETWEEN") left [low, high]
  | some (.word _ "LIKE") => do
    let _ ← acceptWord "ANY"
    let right ← pattern
    escape
    return .binary (if negated then "NOT LIKE" else "LIKE") left right
  | some (.word _ "ILIKE") => do
    let _ ← acceptWord "ANY"
    let right ← pattern
    escape
    return .other "ILike" [left, right]
  | some (.word _ "SIMILAR") => do
    expectWord "TO"
    let right ← pattern
    escape
    return .other "SimilarTo" [left, right]
  | _ => failAt tokens (.expected "IN or BETWEEN after NOT")

/-- One or more keys in brackets behind an expression, the first bracket already read. -/
def accessKeys (inner : Inner) : Reader (List Expr) := do
  let key : Reader Expr := do
    let key ← inner.anyExpr
    expectSymbol "]"
    return key
  let first ← key
  let more ← many do
    if ← acceptSymbol "[" then return some (← key) else return none
  return first :: more

/-- The right operand of `DIV`, which takes all that follows. -/
def divisor (inner : Inner) : Reader Expr := insist "the right operand of DIV" inner.anyExpr

/-- The operator at the front with its right side, `level` being its strength. -/
def operatorStep (inner : Inner) (level : Nat) (left : Expr) : Reader Expr := do
  let tokens ← get
  match ← peek? with
  | some (.symbol symbol) =>
    let _ ← next?
    match binaryOperators.lookup symbol with
    | some (_, operator) => rightSide inner operator level left
    | none =>
      if symbol = "::" then
        let _ ← dataType
        return .other "Cast" [left]
      else if symbol = "[" then return .other "MapAccess" (left :: (← accessKeys inner))
      else failAt tokens (.wrong ("No infix parser for token " ++ infixName symbol))
  | some (.word _ keyword) =>
    if keyword = "DIV" then
      let _ ← next?
      return .binary "DIV" left (← divisor inner)
    else if (wordOperators.lookup keyword).isSome then
      let _ ← next?
      rightSide inner keyword level left
    else if keyword = "IS" then
      let _ ← next?
      isTest inner left
    else if keyword = "AT" then
      expectWords ["AT", "TIME", "ZONE"]
      return .other "AtTimeZone" [left, ← inner.expr level]
    else if keyword = "OPERATOR" then
      failAt tokens (.wrong "No infix parser for token OPERATOR")
    else negatableTest inner left
  | _ => failAt tokens (.wrong "No infix parser for token EOF")

/-- The expression that begins with `left` and goes on with at most `fuel` operators, each binding
tighter than the level. -/
def operatorsWithin (inner : Inner) (level : Nat) : Nat → Expr → Reader Expr
  | 0, left => return left
  | fuel + 1, left => do
    let next := strengthAt (← get)
    if next ≤ level then return left
    else operatorsWithin inner level fuel (← operatorStep inner next left)

/-- An expression up to the first operator that binds no tighter than the level. -/
def exprAbove (inner : Inner) (level : Nat) : Reader Expr := do
  let left ← operand inner
  operatorsWithin inner level (← get).length left

end DashCalc.Sql.Grammar
