import DashCalc.Toml.Document
import DashCalc.Toml.Quoted
import DashCalc.Toml.Scalar

/-!
# Reading TOML

`Toml.parse` reads a document: lines with headers or fields, comments and blank lines. Arrays and
tables in braces may go over several lines.
-/

namespace DashCalc.Toml

open DashCalc (Text)

/-! ## Between the parts -/

/-- Removes the blanks that may stand within a line. -/
def skipBlanks (t : Text) : Text := t.dropWhile fun c => c = ' ' || c = '\t'

/-- Removes blanks, line ends and comments; nothing if a control character stands there. -/
def skipGaps (inComment : Bool) : Text → Option Text
  | [] => some []
  | c :: rest =>
    if c = '\n' then skipGaps false rest
    else if c = '\r' then if rest.head? = some '\n' then skipGaps false rest else none
    else if inComment then if isControl c then none else skipGaps true rest
    else if c = ' ' || c = '\t' then skipGaps false rest
    else if c = '#' then skipGaps true rest
    else some (c :: rest)

/-- Whether nothing but a comment follows in the line. -/
def atLineEnd (t : Text) : Bool :=
  match skipBlanks t with
  | [] => true
  | c :: rest => c = '#' || atNewline (c :: rest)

/-! ## Names -/

/-- What names without quotes consist of. -/
def isNameChar (c : Char) : Bool := c.isAlphanum || c = '_' || c = '-'

def name (t : Text) : Option (String × Text) :=
  match t with
  | '\x22' :: rest => (basicText rest).map fun (text, rest) => (String.ofList text, rest)
  | '\x27' :: rest => (literalText rest).map fun (text, rest) => (String.ofList text, rest)
  | _ =>
    match t.span isNameChar with
    | ([], _) => none
    | (word, rest) => some (String.ofList word, rest)

/-- A name, or several with points between them. -/
def path (t : Text) : Option (Path × Text) := do
  let (first, rest) ← name (skipBlanks t)
  match skipBlanks rest with
  | '.' :: more =>
    if _h : more.length < t.length then do
      let (p, rest) ← path more
      some (⟨first :: p.parents, p.last⟩, rest)
    else none
  | rest => some (⟨[], first⟩, rest)
termination_by t.length

/-! ## Values -/

/-- The items of an array, the opening bracket already read. A comma may follow the last one. -/
def items (value : Text → Option (Value × Text)) (t : Text) : Option (List Value × Text) := do
  match ← skipGaps false t with
  | ']' :: rest => some ([], rest)
  | start => do
    let (v, rest) ← value start
    match ← skipGaps false rest with
    | ']' :: rest => some ([v], rest)
    | ',' :: rest =>
      if _h : rest.length < t.length then do
        let (vs, rest) ← items value rest
        some (v :: vs, rest)
      else none
    | _ => none
termination_by t.length

def pair (value : Text → Option (Value × Text)) (t : Text) :
    Option ((Path × Value) × Text) := do
  let (p, rest) ← path t
  match skipBlanks rest with
  | '=' :: rest => do
    let (v, rest) ← value (skipBlanks rest)
    some ((p, v), rest)
  | _ => none

/-- The fields of a table in braces, the opening one already read. A comma may follow the last
one. -/
def pairs (value : Text → Option (Value × Text)) (t : Text) :
    Option (List (Path × Value) × Text) := do
  match ← skipGaps false t with
  | '\x7d' :: rest => some ([], rest)
  | start => do
    let (first, rest) ← pair value start
    match ← skipGaps false rest with
    | '\x7d' :: rest => some ([first], rest)
    | ',' :: rest =>
      if _h : rest.length < t.length then do
        let (more, rest) ← pairs value rest
        some (first :: more, rest)
      else none
    | _ => none
termination_by t.length

/-- A value with at most `nesting` nested arrays and tables. -/
def value (nesting : Nat) (t : Text) : Option (Value × Text) :=
  match t with
  | '\x22' :: _ | '\x27' :: _ =>
    (quotedText t).map fun (text, rest) => (.str (String.ofList text), rest)
  | '[' :: rest =>
    match nesting with
    | 0 => none
    | nesting + 1 => (items (value nesting) rest).map fun (vs, rest) => (.arr vs, rest)
  | '\x7b' :: rest =>
    match nesting with
    | 0 => none
    | nesting + 1 => do
      let (fields, rest) ← pairs (value nesting) rest
      some (.table (← tableOf fields), rest)
  | _ =>
    let (run, rest) := scalarRun t
    (scalar? run).map (·, rest)

/-- How many arrays and tables may be nested in a value. -/
def nestingLimit : Nat := 80

/-! ## Lines -/

def line (t : Text) : Option (Line × Text) :=
  match t with
  | '[' :: '[' :: rest => do
    let (p, rest) ← path rest
    match rest with
    | ']' :: ']' :: rest => some (.nextHeader p, rest)
    | _ => none
  | '[' :: rest => do
    let (p, rest) ← path rest
    match rest with
    | ']' :: rest => some (.header p, rest)
    | _ => none
  | _ => (pair (value nestingLimit) t).map fun ((p, v), rest) => (.field p v, rest)

/-- The lines of a document. -/
def lines (t : Text) : Option (List Line) := do
  match ← skipGaps false t with
  | [] => some []
  | start => do
    let (first, rest) ← line start
    if !atLineEnd rest then none
    else if _h : rest.length < t.length then do
      let more ← lines rest
      some (first :: more)
    else none
termination_by t.length

/-- The table of a document. A byte order mark at the start plays no part. -/
def parse (text : String) : Option Table := do
  let t := match text.toList with
    | '\ufeff' :: rest => rest
    | t => t
  tableOfLines (← lines t)

end DashCalc.Toml
