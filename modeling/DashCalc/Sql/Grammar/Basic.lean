import DashCalc.Sql.Expr
import DashCalc.Sql.Keyword
import DashCalc.Sql.Scan

/-!
# Readers of tokens

A reader takes tokens from the front of a list and gives what they stand for, or fails. There are
three ways to fail, and they differ in who may recover: `attempt?` gives up on malformed text
without taking a token, but passes the other two on. Malformed text comes with the reason and with
the number of tokens from the one that does not fit. A phrase is a reader behind the words that
announce it, and a table of phrases is a choice between them.
-/

namespace DashCalc.Sql

/-- Why a token does not fit. -/
inductive Mismatch
  /-- Something else was to come. -/
  | expected (what : String)
  /-- It is wrong for another reason. -/
  | wrong (why : String)
  deriving DecidableEq

/-- Why a text cannot be read. -/
inductive Failure
  /-- A quote or a comment is not closed. -/
  | unclosed (what : Unclosed)
  /-- The tokens do not fit the grammar; the first one that does not is followed to the end by
  `left - 1` others, and zero stands for the end itself. -/
  | malformed (why : Mismatch) (left : Nat)
  /-- They nest deeper than the grammar allows. -/
  | tooDeep
  /-- Something that has to follow cannot be read; no alternative is tried after that. -/
  | abrupt (what : String)
  deriving DecidableEq

namespace Grammar

/-- Reads from the front of a list of tokens. -/
abbrev Reader (α : Type) := StateT (List Token) (Except Failure) α

namespace Reader

variable {α β : Type}

/-- Fails at the first of these tokens. -/
def failAt (tokens : List Token) (why : Mismatch) : Reader α := throw (.malformed why tokens.length)

/-- Fails at the next token. -/
def expected (what : String) : Reader α := fun tokens =>
  .error (.malformed (.expected what) tokens.length)

/-- Fails because no further step is allowed. What counts its steps is allowed more of them than
there are tokens. -/
def exhausted : Reader α := expected "no further step"

/-- The next token, taken; nothing at the end. -/
def next? : Reader (Option Token) := fun tokens => .ok (tokens.head?, tokens.tail)

/-- The next token, left in place. -/
def peek? : Reader (Option Token) := fun tokens => .ok (tokens.head?, tokens)

/-- What the next token stands for, which is taken. -/
def nextAs (what : String) (meaning : Token → Option α) : Reader α := fun tokens =>
  match tokens.head?.bind meaning with
  | some a => .ok (a, tokens.tail)
  | none => .error (.malformed (.expected what) tokens.length)

/-- The keyword that the next token spells. -/
def peekWord : Reader String := do return ((← peek?).map Token.keyword).getD ""

/-- Whether the next token is this symbol. -/
def peekSymbol (symbol : String) : Reader Bool := do return (← peek?) == some (.symbol symbol)

/-- Takes these keywords if they come next, one after the other. -/
def acceptWords (words : List String) : Reader Bool := fun tokens =>
  if (tokens.take words.length).map Token.keyword = words then
    .ok (true, tokens.drop words.length)
  else .ok (false, tokens)

/-- Takes this keyword if it comes next. -/
def acceptWord (word : String) : Reader Bool := acceptWords [word]

/-- Takes the next token if it spells one of these keywords. -/
def acceptOneOf (words : List String) : Reader (Option String) := do
  let word ← peekWord
  if words.contains word then
    let _ ← next?
    return some word
  else return none

/-- Takes this symbol if it comes next. -/
def acceptSymbol (symbol : String) : Reader Bool := fun tokens =>
  if tokens.head? = some (.symbol symbol) then .ok (true, tokens.tail) else .ok (false, tokens)

/-- Takes this keyword, which must come next. -/
def expectWord (word : String) : Reader Unit :=
  nextAs word fun token => if token.keyword = word then some () else none

/-- Takes these keywords, which must come next. -/
def expectWords : List String → Reader Unit
  | [] => return ()
  | word :: rest => do
    expectWord word
    expectWords rest

/-- Takes one of these keywords, which must come next; `what` says so. -/
def expectAny (what : String) (words : List String) : Reader String :=
  nextAs what fun token => if words.contains token.keyword then some token.keyword else none

/-- Takes one of these keywords, which must come next. -/
def expectOneOf (words : List String) : Reader String :=
  expectAny ("one of " ++ joinNames " or " words) words

/-- Takes this symbol, which must come next. -/
def expectSymbol (symbol : String) : Reader Unit :=
  nextAs symbol fun token => if token = .symbol symbol then some () else none

/-- What the reader gives, or nothing and all tokens in place if they do not fit. -/
def attempt? (r : Reader α) : Reader (Option α) := fun tokens =>
  match r tokens with
  | .ok (a, rest) => .ok (some a, rest)
  | .error (.malformed _ _) => .ok (none, tokens)
  | .error failure => .error failure

/-- What the first reader gives, or the second one if the first fails; if both fail, the first
failure stands. -/
def orElseFirst (first second : Reader α) : Reader α := fun tokens =>
  match first tokens with
  | .ok read => .ok read
  | .error (.abrupt what) => .error (.abrupt what)
  | .error failure =>
    match second tokens with
    | .ok read => .ok read
    | .error (.abrupt what) => .error (.abrupt what)
    | .error _ => .error failure

/-- What the reader gives; it fails abruptly if it fails. -/
def insist (what : String) (r : Reader α) : Reader α := fun tokens =>
  match r tokens with
  | .ok read => .ok read
  | .error _ => .error (.abrupt what)

def parenthesized (r : Reader α) : Reader α := do
  expectSymbol "("
  let a ← r
  expectSymbol ")"
  return a

/-- Reads if this keyword comes next. -/
def after? (word : String) (r : Reader α) : Reader (Option α) := do
  if ← acceptWord word then return some (← r) else return none

/-- Takes these keywords if they come next. -/
def skipWords (words : List String) : Reader Unit := discard (acceptWords words)

/-- Takes one of these keywords if it comes next. -/
def skipOneOf (words : List String) : Reader Unit := discard (acceptOneOf words)

/-- Takes each of these keywords where it comes next, in this order. -/
def skipEach : List String → Reader Unit
  | [] => return ()
  | word :: rest => do
    skipWords [word]
    skipEach rest

/-- Reads past what stands behind these keywords, if they come next. -/
def clause (words : List String) (r : Reader α) : Reader Unit := do
  if ← acceptWords words then discard r

/-- One or more items with a separator between them; at most `fuel` items. -/
def separatedWithin (separator : String) (item : Reader α) : Nat → Reader (List α)
  | 0 => exhausted
  | fuel + 1 => do
    let first ← item
    if ← acceptSymbol separator then
      return first :: (← separatedWithin separator item fuel)
    else return [first]

/-- One or more items with commas between them. -/
def commaSeparated (item : Reader α) : Reader (List α) := fun tokens =>
  separatedWithin "," item (tokens.length + 1) tokens

/-- Reads again and again until nothing comes; at most `fuel` times. -/
def manyWithin (item? : Reader (Option α)) : Nat → Reader (List α)
  | 0 => return []
  | fuel + 1 => do
    match ← item? with
    | some first => return first :: (← manyWithin item? fuel)
    | none => return []

/-- Reads again and again until nothing comes. -/
def many (item? : Reader (Option α)) : Reader (List α) := fun tokens =>
  manyWithin item? (tokens.length + 1) tokens

/-- Keywords, and what is read behind them. -/
abbrev Phrase := List String × Reader Unit

/-- Takes the first of these phrases that comes next; tells whether one does. -/
def acceptPhrase : List Phrase → Reader Bool
  | [] => return false
  | (words, r) :: rest => do
    if ← acceptWords words then
      r
      return true
    else acceptPhrase rest

/-- Takes the first of these phrases that comes next; one of them must. -/
def expectPhrase (what : String) (phrases : List Phrase) : Reader Unit := do
  unless ← acceptPhrase phrases do expected what

/-- Takes these phrases again and again, in any order, until none comes next. -/
def acceptPhrases (phrases : List Phrase) : Reader Unit := discard <| many do
  if ← acceptPhrase phrases then return some () else return none

/-- Reads nothing: what stands behind a phrase that has no more than its keywords. -/
def nothing : Reader Unit := return ()

/-- Phrases that have no more than one keyword each. -/
def bare (words : List String) : List Phrase := words.map fun word => ([word], nothing)

end Reader

open Reader

/-! ## Names and literals -/

/-- An identifier: any word, or a text in quotes. -/
def identifier : Reader String := nextAs "identifier" fun
  | .word value _ => some value
  | .text _ value => some value
  | _ => none

/-- A name with periods between its parts. -/
def qualifiedName : Reader (List String) := fun tokens =>
  separatedWithin "." identifier (tokens.length + 1) tokens

def identifiers : Reader (List String) := commaSeparated identifier

def qualifiedNames : Reader (List (List String)) := commaSeparated qualifiedName

def identifierList : Reader (List String) := parenthesized identifiers

/-- Identifiers in optional parentheses; with `mayBeEmpty`, there may be none between them. -/
def optionalIdentifiers (mayBeEmpty : Bool) : Reader Unit := do
  if ← acceptSymbol "(" then
    let isEmpty ← if mayBeEmpty then acceptSymbol ")" else pure false
    unless isEmpty do
      let _ ← identifiers
      expectSymbol ")"

/-- A text, or a word without a meaning of its own. -/
def plainText : Reader String := nextAs "literal string" fun
  | .text _ value => some value
  | .word value keyword => if (Token.word value keyword).isPlainWord then some value else none
  | _ => none

/-- A number of at most that many bits, written in digits alone. -/
def wholeNumberOf (bits : Nat) : Reader Nat := nextAs "literal int" fun
  | .number text _ =>
    (if text.toList.all Char.isDigit then text.toNat? else none).filter (· < Nat.pow 2 bits)
  | _ => none

/-- A number of at most 64 bits, written in digits alone. -/
def wholeNumber : Reader Nat := wholeNumberOf 64

/-- The name behind a colon or an at sign. -/
def placeholderName : Reader String := nextAs "placeholder" fun
  | .word value _ => some value
  | .number text false => some text
  | _ => none

def literal : Reader Literal := do
  match ← peek? with
  | some (.symbol symbol) =>
    if symbol = ":" || symbol = "@" then
      let _ ← next?
      return .other (symbol ++ (← placeholderName))
    else expected "a value"
  | some (.word _ _) => nextAs "a concrete value" Token.literal?
  | _ => nextAs "a value" Token.literal?

/-- A number, or a placeholder for one. -/
def numberValue : Reader Unit := do
  match ← peek? with
  | some (.symbol _) => discard literal
  | _ => nextAs "literal number" fun
    | .number _ _ | .placeholder _ => some ()
    | _ => none

/-- A number or a placeholder, possibly with a sign. -/
def signedNumber : Reader Unit := do
  unless ← acceptSymbol "+" do
    let _ ← acceptSymbol "-"
  numberValue

end Grammar

end DashCalc.Sql
