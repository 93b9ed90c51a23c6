/-!
# Tokens of SQL

A SQL text is a list of tokens; blanks and comments between them are dropped. A word keeps the text
it stands for and, unless it was quoted, its spelling as a keyword.
-/

namespace DashCalc.Sql

/-- The two kinds of quotes around a text. -/
inductive Quote
  | single | double
  deriving DecidableEq

/-- Literals with a letter in front of the quote. -/
inductive Special
  | national
  | hex
  | bytes (quote : Quote)
  | escaped
  deriving DecidableEq

/-- A token. -/
inductive Token
  /-- An identifier or keyword; `keyword` is the word in upper case, or empty if it is quoted. -/
  | word (value keyword : String)
  /-- A number; a long one has an `L` behind its digits. -/
  | number (text : String) (long : Bool)
  | text (quote : Quote) (value : String)
  | special (kind : Special) (value : String)
  | placeholder (text : String)
  | symbol (text : String)
  /-- A character that belongs to no token. -/
  | stray (c : Char)
  deriving DecidableEq

namespace Token

/-- The keyword a token spells; empty for all that is not an unquoted word. -/
def keyword : Token → String
  | word _ keyword => keyword
  | _ => ""

end Token

/-- A text in quotes. -/
def Quote.shown (quote : Quote) (value : String) : String :=
  match quote with
  | .single => "'" ++ value ++ "'"
  | .double => "\"" ++ value ++ "\""

/-- A literal with a letter in front, as SQL writes it. -/
def Special.shown (kind : Special) (value : String) : String :=
  match kind with
  | .national => "N" ++ Quote.single.shown value
  | .hex => "X" ++ Quote.single.shown value
  | .bytes quote => "B" ++ quote.shown value
  | .escaped => "E" ++ Quote.single.shown value

/-- A token as SQL writes it. -/
def Token.shown : Token → String
  | word value keyword => if keyword.isEmpty then "\x60" ++ value ++ "\x60" else value
  | number digits long => if long then digits ++ "L" else digits
  | text quote value => quote.shown value
  | special kind value => kind.shown value
  | placeholder written => written
  | symbol written => if written = "!=" then "<>" else written
  | stray c => String.singleton c

/-- How the end of a text is spoken of. -/
def endShown : String := "EOF"

end DashCalc.Sql
