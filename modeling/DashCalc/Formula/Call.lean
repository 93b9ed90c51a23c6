import DashCalc.Catalog.Basic
import DashCalc.Formula.Pieces
import DashCalc.Formula.Reference

/-!
# Calls of a formula in SQL

A call is a name and a list of arguments, each a trimmed text. What it becomes in SQL depends on
the canonical name of the function:

* a rank takes sort keys and partitions and becomes a window over them;
* a least-aggregated computation becomes an aggregate, windowed if it has partitions;
* a computation over partitions is always windowed;
* a membership test keeps only the tested value;
* a chain of conditions becomes nested two-branch conditions;
* any other call keeps its arguments.

A name outside the catalogue keeps its spelling and its arguments.
-/

namespace DashCalc.Formula

open DashCalc (Text)

/-- The families of functions that are written differently in SQL. -/
inductive Strategy
  | rank | leastAggregated | windowed | membership | ifElse | passThrough
  deriving DecidableEq

/-- The family of a canonical name; the first test that holds decides. -/
def Strategy.ofKey (key : String) : Strategy :=
  let name := Text.upper key.toList
  if Text.hasInfix "RANK".toList name then .rank
  else if Catalog.isLeastAggregated key then .leastAggregated
  else if "OVER".toList.isSuffixOf name then .windowed
  else if name = "IN".toList || name = "NOTIN".toList then .membership
  else if name = "IFELSE".toList then .ifElse
  else .passThrough

/-- The separator between arguments in SQL. -/
def commaBlank : Text := ", ".toList

/-- Whether an argument is a list in square brackets. -/
def isBracketed (argument : Text) : Bool :=
  argument.head? = some '[' && argument.getLast? = some ']'

/-- The items of a bracketed list; an argument without brackets is a list of one item. -/
def listItems (argument : Text) : List Text :=
  let inside := if isBracketed argument then (argument.drop 1).dropLast else argument
  (pieces inside).filter fun item => !item.isEmpty

/-- A plain name consists of letters, numbers, underscores and dots and does not start with an
ASCII digit. -/
def isPlainName (item : Text) : Bool :=
  item.all (fun c => Text.isAlphanumeric c || c = '_' || c = '.') &&
    !(item.head?.any Char.isDigit)

/-- A partition entry; a plain name is put in backticks so that its dots do not divide it. -/
def partitionItem (item : Text) : Text :=
  if isPlainName item then backtick :: (item ++ [backtick]) else item

/-- A window over partitions and sort keys; an empty clause is left out. -/
def windowClause (partitions sortKeys : List Text) : Text :=
  let byPartition :=
    if partitions.isEmpty then []
    else ["PARTITION BY ".toList ++ Text.joinWith commaBlank partitions]
  let bySortKey :=
    if sortKeys.isEmpty then [] else ["ORDER BY ".toList ++ Text.joinWith commaBlank sortKeys]
  "OVER (".toList ++ Text.joinWith [' '] (byPartition ++ bySortKey) ++ [')']

def plainCall (name : Text) (arguments : List Text) : Text :=
  name ++ '(' :: (Text.joinWith commaBlank arguments ++ [')'])

/-- A rank: the sort keys come first, then the partitions; a third argument is dropped. -/
def rankCall (key : Text) (arguments : List Text) : Text :=
  let sortKeys := (arguments[0]?.map listItems).getD []
  let partitions := ((arguments[1]?.map listItems).getD []).map partitionItem
  key ++ "() ".toList ++ windowClause partitions sortKeys

/-- The arguments before the first bracketed list and the items of that list, if there is one. -/
def splitAtList (arguments : List Text) : List Text × Option (List Text) :=
  match arguments.span fun a => !isBracketed a with
  | (before, list :: _) => (before, some (listItems list))
  | (before, []) => (before, none)

/-- A computation with an optional list of partitions. The arguments before the list stay, those
after it are dropped. With `always`, the call is windowed even without partitions and keeps one
argument when it has no list. -/
def windowedCall (always : Bool) (key : Text) (arguments : List Text) : Text :=
  let (kept, partitions) : List Text × List Text :=
    match splitAtList arguments with
    | (before, some items) => (before, items.map partitionItem)
    | (before, none) => (if always then before.take 1 else before, [])
  let call := plainCall key kept
  if partitions.isEmpty && !always then call else call ++ ' ' :: windowClause partitions []

/-- A chain of conditions and results, closed by what holds otherwise, as nested conditions with
two branches each; without a closing argument the last branch is `NULL`. -/
def foldIfElse : List Text → Text
  | [] => "NULL".toList
  | [otherwise] => otherwise
  | condition :: result :: rest =>
    "ifelse(".toList ++ condition ++ commaBlank ++ result ++ commaBlank ++ foldIfElse rest ++ [')']

/-- The call of a catalogue function in the way of its family. -/
def Strategy.render (strategy : Strategy) (key : Text) (arguments : List Text) : Text :=
  match strategy with
  | rank => rankCall key arguments
  | leastAggregated => windowedCall false key arguments
  | windowed => windowedCall true key arguments
  | membership => plainCall key (arguments.take 1)
  | ifElse => foldIfElse arguments
  | passThrough => plainCall key arguments

def renderCall (name : Text) (arguments : List Text) : Text :=
  match Catalog.keyFor (String.ofList name) with
  | some key => (Strategy.ofKey key).render key.toList arguments
  | none => plainCall name arguments

end DashCalc.Formula
