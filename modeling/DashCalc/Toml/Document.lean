import DashCalc.Toml.Basic

/-!
# Building TOML tables

A document comes as a list of lines: headers of tables and fields. A table may be named by one
header only, and a field be given once. Tables also come into being because they lie on the way to
another one; those that arise from the dotted name of a field are extended by further fields, and
those that arise from a header get a header of their own at most once.
-/

namespace DashCalc.Toml

/-- How a table came into being. -/
inductive Origin
  /-- It has a header. -/
  | header
  /-- A header names a table in it. -/
  | implied
  /-- A field with a dotted name lies in it. -/
  | dotted
  deriving DecidableEq

/-- What a name stands for while a document is being read. -/
inductive Item
  | value (v : Value)
  | table (origin : Origin) (fields : List (String × Item))
  /-- Tables that headers in double brackets began, the first one first. -/
  | tables (all : List (List (String × Item)))

/-- The fields of a table that is being read. -/
abbrev Fields := List (String × Item)

namespace Fields

/-- Gives a name another item; a new name comes at the end. -/
def put (name : String) (item : Item) : Fields → Fields
  | [] => [(name, item)]
  | (other, held) :: rest =>
    if other = name then (name, item) :: rest else (other, held) :: put name item rest

/-- Changes the last of several tables. -/
def changeLast (change : Fields → Option Fields) : List Fields → Option (List Fields)
  | [] => none
  | [fields] => (change fields).map ([·])
  | fields :: rest => (changeLast change rest).map (fields :: ·)

/-- Changes the table that the names lead to, on the way to a header. Missing tables are made; of
tables in double brackets the last one counts. -/
def changeAt (change : Fields → Option Fields) : List String → Fields → Option Fields
  | [], fields => change fields
  | name :: path, fields =>
    match fields.lookup name with
    | none => do
      let inner ← changeAt change path []
      some (put name (.table .implied inner) fields)
    | some (.table origin inner) => do
      let inner ← changeAt change path inner
      some (put name (.table origin inner) fields)
    | some (.tables all) => do
      let all ← changeLast (changeAt change path) all
      some (put name (.tables all) fields)
    | some (.value _) => none

/-- Begins the table of a header. -/
def openTable (name : String) (fields : Fields) : Option Fields :=
  match fields.lookup name with
  | none => some (put name (.table .header []) fields)
  | some (.table .implied inner) => some (put name (.table .header inner) fields)
  | some _ => none

/-- Begins one more table of a header in double brackets. -/
def appendTable (name : String) (fields : Fields) : Option Fields :=
  match fields.lookup name with
  | none => some (put name (.tables [[]]) fields)
  | some (.tables all) => some (put name (.tables (all ++ [[]])) fields)
  | some _ => none

/-- Adds a field. The last table on the way to it must come from dotted names alone. -/
def addAt (name : String) (v : Value) : List String → Fields → Option Fields
  | [], fields =>
    match fields.lookup name with
    | none => some (put name (.value v) fields)
    | some _ => none
  | parent :: path, fields =>
    match fields.lookup parent with
    | none => do
      let inner ← addAt name v path []
      some (put parent (.table .dotted inner) fields)
    | some (.table .dotted inner) => do
      let inner ← addAt name v path inner
      some (put parent (.table .dotted inner) fields)
    | some (.table .implied inner) =>
      if path.isEmpty then none
      else do
        let inner ← addAt name v path inner
        some (put parent (.table .implied inner) fields)
    | some _ => none

def add (path : Path) (v : Value) (fields : Fields) : Option Fields :=
  addAt path.last v path.parents fields

end Fields

mutual

/-- The value that an item ends up as. -/
def Item.toValue : Item → Value
  | .value v => v
  | .table _ fields => .table (toTable fields)
  | .tables all => .arr (toTables all)

def toTable : List (String × Item) → Table
  | [] => []
  | (name, item) :: rest => (name, item.toValue) :: toTable rest

def toTables : List (List (String × Item)) → List Value
  | [] => []
  | fields :: rest => .table (toTable fields) :: toTables rest

end

/-- The table of some fields, if they fit together. -/
def tableOf (fields : List (Path × Value)) : Option Table :=
  (fields.foldlM (fun (table : Fields) (path, v) => table.add path v) []).map toTable

/-- A line of a document. -/
inductive Line
  | header (path : Path)
  | nextHeader (path : Path)
  | field (path : Path) (v : Value)

/-- A document that is being read: its fields, and the table that fields are added to. -/
structure Document where
  root : Fields := []
  current : List String := []

/-- Takes a line. -/
def Document.take (d : Document) : Line → Option Document
  | .header path => do
    let root ← d.root.changeAt (Fields.openTable path.last) path.parents
    some ⟨root, path.parents ++ [path.last]⟩
  | .nextHeader path => do
    let root ← d.root.changeAt (Fields.appendTable path.last) path.parents
    some ⟨root, path.parents ++ [path.last]⟩
  | .field path v => do
    let root ← d.root.changeAt (Fields.add path v) d.current
    some { d with root }

/-- The table that the lines of a document make, if they fit together. -/
def tableOfLines (lines : List Line) : Option Table :=
  (lines.foldlM Document.take {}).map fun d => toTable d.root

end DashCalc.Toml
