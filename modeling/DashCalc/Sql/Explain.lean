import DashCalc.Sql.Grammar.Basic

/-!
# Why a SQL text was not read

A failure is explained by what was to come, what came instead, and where that stands: its line and
its column, both counted from one.
-/

namespace DashCalc.Sql

open DashCalc (Text)

/-- Where a character stands. -/
structure Place where
  line : Nat
  column : Nat
  deriving DecidableEq

def Place.behind (front : Text) : Place where
  line := front.count '\n' + 1
  column := (front.reverse.takeWhile (· ≠ '\n')).length + 1

/-- The place from which that many characters of the text are left. -/
def Place.ofLeft (sql : String) (left : Nat) : Place :=
  .behind (sql.toList.take (sql.toList.length - left))

/-- A place as part of an explanation. -/
def Place.shown (p : Place) : String :=
  " at Line: " ++ toString p.line ++ ", Column: " ++ toString p.column

/-- What is not closed, and where it begins. -/
def Unclosed.explain (sql : String) : Unclosed → String
  | text left => "Unterminated string literal" ++ (Place.ofLeft sql left).shown
  | name left => "Expected close delimiter '\x60' before EOF." ++ (Place.ofLeft sql left).shown
  | escaped left => "Unterminated encoded string literal" ++ (Place.ofLeft sql left).shown
  | comment => "Unexpected EOF while in a multi-line comment" ++ (Place.ofLeft sql 0).shown

/-- The token that is followed by `left - 1` others, and its place; nothing at the end. -/
def tokenAt (sql : String) (left : Nat) : Option (Token × Place) :=
  match scanFrom sql.toList with
  | .error _ => none
  | .ok tokens =>
    if left = 0 then none
    else tokens[tokens.length - left]?.map fun (token, left) => (token, .ofLeft sql left)

def Mismatch.explain (found : Option (Token × Place)) : Mismatch → String
  | expected what =>
    "Expected: " ++ what ++ ", found: " ++
      match found with
      | some (token, place) => token.shown ++ place.shown
      | none => endShown
  | wrong why => why ++ ((found.map fun (_, place) => place.shown).getD "")

def Failure.explain (sql : String) : Failure → String
  | unclosed what => what.explain sql
  | malformed why left => why.explain (tokenAt sql left)
  | tooDeep => "recursion limit exceeded"
  | abrupt what => what ++ " cannot be read"

end DashCalc.Sql
