import DashCalc.Node.Walk

/-!
# What a cost is made of

To cost a tree is to go through its steps from left to right: calls, references, and the places
where the nesting gets deeper or shallower. A call is one level around its arguments and its
window, a sort key one more around itself. After a sort key or a partition that is a call or a
column, that call or column is met again.
-/

namespace DashCalc.Cost

open Sql (Bound Frame Window)

/-- One step through a tree. -/
inductive Step
  | call (id : NodeId) (aggregate : Bool) (name : String)
  | reference (name : String)
  | deeper
  | shallower
  /-- A call that was met just before as an entry of a window. -/
  | callAgain (id : NodeId) (aggregate : Bool) (name : String)
  /-- A column that was met just before as an entry of a window. -/
  | referenceAgain (name : String)
  deriving DecidableEq

/-- The step that meets an entry of a window again. -/
def again : Node → List Step
  | .call id aggregate name _ _ => [.callAgain id aggregate name]
  | .column _ table name => [.referenceAgain (Node.columnAlias table name)]
  | _ => []

mutual

/-- The steps through a tree. -/
def steps : Node → List Step
  | .binary _ _ left right => steps left ++ steps right
  | .unary _ _ operand => steps operand
  | .call id aggregate name arguments window =>
    .call id aggregate name :: .deeper ::
      (stepsOfList arguments ++ stepsOfWindow? window ++ [.shallower])
  | .column _ table name => [.reference (Node.columnAlias table name)]
  | .list _ items => stepsOfList items
  | .branches _ operand cases otherwise =>
    stepsOf? operand ++ stepsOfCases cases ++ stepsOf? otherwise
  | .number _ _ => []
  | .text _ _ => []
  | .bool _ _ => []
  | .null _ => []
  | .star _ => []

def stepsOfList : List Node → List Step
  | [] => []
  | n :: ns => steps n ++ stepsOfList ns

def stepsOf? : Option Node → List Step
  | none => []
  | some n => steps n

def stepsOfCases : List (Node × Node) → List Step
  | [] => []
  | (condition, result) :: cases => steps condition ++ steps result ++ stepsOfCases cases

def stepsOfWindow? : Option (Window (SortKey Node) Node) → List Step
  | none => []
  | some ⟨sortKeys, partitions, frame⟩ =>
    stepsOfKeys sortKeys ++ stepsOfPartitions partitions ++ stepsOfFrame? frame

def stepsOfKeys : List (SortKey Node) → List Step
  | [] => []
  | ⟨_, expr, _⟩ :: keys =>
    .deeper :: (steps expr ++ .shallower :: (again expr ++ stepsOfKeys keys))

def stepsOfPartitions : List Node → List Step
  | [] => []
  | n :: ns => steps n ++ again n ++ stepsOfPartitions ns

def stepsOfFrame? : Option (Frame Node) → List Step
  | none => []
  | some ⟨_, start, stop⟩ => stepsOfBound start ++ stepsOfBound? stop

def stepsOfBound : Bound Node → List Step
  | .currentRow => []
  | .preceding offset => stepsOf? offset
  | .following offset => stepsOf? offset

def stepsOfBound? : Option (Bound Node) → List Step
  | none => []
  | some bound => stepsOfBound bound

end

end DashCalc.Cost
