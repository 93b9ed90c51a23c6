import DashCalc.Node.Basic

/-!
# Walking a tree

`Node.nodes` lists a tree and all trees below it, a node before its parts: the arguments of a call
come before its window, and in a window the sort keys before the partitions and these before the
offsets of the frame. `Node.columns` lists the columns that are referred to, in that order and with
repetitions.
-/

namespace DashCalc.Node

open Sql (Bound Frame Window)

mutual

/-- The tree and all trees below it. -/
def nodes : Node → List Node
  | binary id operator left right => binary id operator left right :: (nodes left ++ nodes right)
  | unary id operator operand => unary id operator operand :: nodes operand
  | call id aggregate name arguments window =>
    call id aggregate name arguments window :: (nodesOfList arguments ++ nodesOfWindow? window)
  | list id items => list id items :: nodesOfList items
  | branches id operand cases otherwise =>
    branches id operand cases otherwise ::
      (nodesOf? operand ++ nodesOfCases cases ++ nodesOf? otherwise)
  | column id table name => [column id table name]
  | number id digits => [number id digits]
  | text id value => [text id value]
  | bool id value => [bool id value]
  | null id => [null id]
  | star id => [star id]

def nodesOfList : List Node → List Node
  | [] => []
  | n :: ns => nodes n ++ nodesOfList ns

def nodesOf? : Option Node → List Node
  | none => []
  | some n => nodes n

def nodesOfCases : List (Node × Node) → List Node
  | [] => []
  | (condition, result) :: cases => nodes condition ++ nodes result ++ nodesOfCases cases

def nodesOfWindow? : Option (Window (SortKey Node) Node) → List Node
  | none => []
  | some ⟨sortKeys, partitions, frame⟩ =>
    nodesOfKeys sortKeys ++ nodesOfList partitions ++ nodesOfFrame? frame

def nodesOfKeys : List (SortKey Node) → List Node
  | [] => []
  | ⟨_, expr, _⟩ :: keys => nodes expr ++ nodesOfKeys keys

def nodesOfFrame? : Option (Frame Node) → List Node
  | none => []
  | some ⟨_, start, stop⟩ => nodesOfBound start ++ nodesOfBound? stop

def nodesOfBound : Bound Node → List Node
  | .currentRow => []
  | .preceding offset => nodesOf? offset
  | .following offset => nodesOf? offset

def nodesOfBound? : Option (Bound Node) → List Node
  | none => []
  | some bound => nodesOfBound bound

end

/-- The columns that a tree refers to. -/
def columns (n : Node) : List String := n.nodes.filterMap column?

end DashCalc.Node
