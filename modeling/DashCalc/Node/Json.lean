import DashCalc.Json.Decode
import DashCalc.Node.Basic

/-!
# Trees as JSON

A node is an object with its id, its kind under `type`, and its parts; absent parts are left out.
`Node.ofJson?` reads that format. Fields it does not know are ignored. A node is always an object;
the smaller records around nodes may also be arrays of their fields in order.
-/

namespace DashCalc

open Sql (Bound Direction Frame Window)

def Sql.Direction.name : Direction → String
  | ascending => "ASC"
  | descending => "DESC"

def Sql.Direction.ofName? (name : String) : Option Direction :=
  [.ascending, .descending].find? fun d => d.name == name

namespace Node

def jsonOfId (id : NodeId) : Json := .int id.toNat

mutual

def toJson : Node → Json
  | binary id operator left right => .obj [
      ("id", jsonOfId id), ("type", .str "binary_expr"), ("operator", .str operator),
      ("left", toJson left), ("right", toJson right)]
  | unary id operator operand => .obj [
      ("id", jsonOfId id), ("type", .str "unary_expr"), ("operator", .str operator),
      ("expr", toJson operand)]
  | call id aggregate name arguments window => .obj ([
      ("id", jsonOfId id), ("type", .str (if aggregate then "aggr_func" else "function")),
      ("name", .str name), ("args", .arr (listToJson arguments))] ++ overToJson window)
  | column id table name => .obj ([
      ("id", jsonOfId id), ("type", .str "column_ref")] ++ Json.fieldIf "table" .str table ++
      [("column", .str name)])
  | number id digits => .obj [
      ("id", jsonOfId id), ("type", .str "number"), ("value", .str digits)]
  | text id value => .obj [
      ("id", jsonOfId id), ("type", .str "string"), ("value", .str value)]
  | bool id value => .obj [
      ("id", jsonOfId id), ("type", .str "bool"), ("value", .bool value)]
  | null id => .obj [("id", jsonOfId id), ("type", .str "null")]
  | star id => .obj [("id", jsonOfId id), ("type", .str "star")]
  | list id items => .obj [
      ("id", jsonOfId id), ("type", .str "expr_list"), ("items", .arr (listToJson items))]
  | branches id operand cases otherwise => .obj ([
      ("id", jsonOfId id), ("type", .str "case")] ++ partToJson "operand" operand ++
      [("when_clauses", .arr (casesToJson cases))] ++ partToJson "else_result" otherwise)

def listToJson : List Node → List Json
  | [] => []
  | n :: ns => toJson n :: listToJson ns

def partToJson (name : String) : Option Node → List (String × Json)
  | none => []
  | some n => [(name, toJson n)]

def casesToJson : List (Node × Node) → List Json
  | [] => []
  | (condition, result) :: cases =>
    .obj [("condition", toJson condition), ("result", toJson result)] :: casesToJson cases

def overToJson : Option (Window (SortKey Node) Node) → List (String × Json)
  | none => []
  | some ⟨sortKeys, partitions, frame⟩ => [("over", .obj ([
      ("order_by", .arr (keysToJson sortKeys)), ("partition_by", .arr (listToJson partitions))] ++
      frameToJson frame))]

def keysToJson : List (SortKey Node) → List Json
  | [] => []
  | ⟨id, expr, direction⟩ :: keys =>
    .obj [("id", jsonOfId id), ("expr", toJson expr), ("direction", .str direction.name)] ::
      keysToJson keys

def frameToJson : Option (Frame Node) → List (String × Json)
  | none => []
  | some ⟨units, start, stop⟩ => [("frame", .obj ([
      ("units", .str units), ("start", boundToJson start)] ++ stopToJson stop))]

/-- One end of a frame; `null` is an unbounded one. -/
def boundToJson : Bound Node → Json
  | .currentRow => .obj [("bound", .str "current_row")]
  | .preceding offset => .obj [("bound", .str "preceding"), ("offset", offsetToJson offset)]
  | .following offset => .obj [("bound", .str "following"), ("offset", offsetToJson offset)]

def offsetToJson : Option Node → Json
  | none => .null
  | some n => toJson n

/-- The second end of a frame as a field. -/
def stopToJson : Option (Bound Node) → List (String × Json)
  | none => []
  | some bound => [("end", boundToJson bound)]

end

/-- The kinds of nodes, in the order of their numbers. -/
def kinds : List String := [
  "binary_expr", "unary_expr", "aggr_func", "function", "column_ref", "number", "string", "bool",
  "null", "star", "expr_list", "case"]

/-- One of several names, given as it is or by its number. -/
def namedOrNumbered? (names : List String) : Json → Option String
  | .str name => if names.contains name then some name else none
  | .int n => if 0 ≤ n then names[n.toNat]? else none
  | _ => none

/-- The kind of a node: its name or its number. -/
def kindOfJson? : Json → Option String := namedOrNumbered? kinds

/-- A choice without parts: its name, or an object with nothing under that name. -/
def choiceOfJson? : Json → Option String
  | .str name => some name
  | .obj [(name, .null)] => some name
  | .obj [(name, .obj [])] => some name
  | _ => none

/-- The kinds of bounds, in the order of their numbers. -/
def boundKinds : List String := ["current_row", "preceding", "following"]

def idOfJson? (j : Json) : Option NodeId := (j.natBits? 32).map UInt32.ofNat

section Parts

variable (node : Json → Option Node)

/-- A condition and its result. -/
def caseOfJson? (j : Json) : Option (Node × Node) := do
  let fields ← j.record? 2 ["condition", "result"]
  let condition ← Json.field? node "condition" fields
  return (condition, ← Json.field? node "result" fields)

def keyOfJson? (j : Json) : Option (SortKey Node) := do
  let fields ← j.record? 3 ["id", "expr", "direction"]
  let id ← Json.field? idOfJson? "id" fields
  let expr ← Json.field? node "expr" fields
  let name ← Json.field? choiceOfJson? "direction" fields
  return ⟨id, expr, ← Direction.ofName? name⟩

/-- The bound of a kind with an offset, `null` if there is none. -/
def boundOfKind? (kind : String) (offset : Json) : Option (Bound Node) :=
  match kind with
  | "current_row" =>
    match offset with
    | .null => some .currentRow
    | _ => none
  | "preceding" => return .preceding (← Json.nullable? node offset)
  | "following" => return .following (← Json.nullable? node offset)
  | _ => none

/-- One end of a frame. An array holds its kind, by name or by number, and its offset. -/
def boundOfJson? : Json → Option (Bound Node)
  | .obj fields => do
    let kind ← Json.field? choiceOfJson? "bound" fields
    boundOfKind? node kind ((fields.lookup "offset").getD .null)
  | .arr [kind, offset] => do boundOfKind? node (← namedOrNumbered? boundKinds kind) offset
  | _ => none

def frameOfJson? (j : Json) : Option (Frame Node) := do
  let fields ← j.record? 2 ["units", "start", "end"]
  let units ← Json.field? Json.text? "units" fields
  let start ← Json.field? (boundOfJson? node) "start" fields
  return ⟨units, start, ← Json.optional? (boundOfJson? node) "end" fields⟩

def windowOfJson? (j : Json) : Option (Window (SortKey Node) Node) := do
  let fields ← j.record? 2 ["order_by", "partition_by", "frame"]
  let sortKeys ← Json.field? (Json.list? (keyOfJson? node)) "order_by" fields
  let partitions ← Json.field? (Json.list? node) "partition_by" fields
  return ⟨sortKeys, partitions, ← Json.optional? (frameOfJson? node) "frame" fields⟩

/-- A node of a kind from the fields of its object. -/
def ofFields? (id : NodeId) (kind : String) (fields : List (String × Json)) : Option Node :=
  match kind with
  | "binary_expr" => do
    let operator ← Json.field? Json.text? "operator" fields
    let left ← Json.field? node "left" fields
    return binary id operator left (← Json.field? node "right" fields)
  | "unary_expr" => do
    let operator ← Json.field? Json.text? "operator" fields
    return unary id operator (← Json.field? node "expr" fields)
  | "aggr_func" => callOfFields? true
  | "function" => callOfFields? false
  | "column_ref" => do
    let table ← Json.optional? Json.text? "table" fields
    return column id table (← Json.field? Json.text? "column" fields)
  | "number" => return number id (← Json.field? Json.text? "value" fields)
  | "string" => return text id (← Json.field? Json.text? "value" fields)
  | "bool" => return bool id (← Json.field? Json.bool? "value" fields)
  | "null" => some (null id)
  | "star" => some (star id)
  | "expr_list" => return list id (← Json.field? (Json.list? node) "items" fields)
  | "case" => do
    let operand ← Json.optional? node "operand" fields
    let cases ← Json.field? (Json.list? (caseOfJson? node)) "when_clauses" fields
    return branches id operand cases (← Json.optional? node "else_result" fields)
  | _ => none
where
  /-- A call from the fields of its object. -/
  callOfFields? (aggregate : Bool) : Option Node := do
    let name ← Json.field? Json.text? "name" fields
    let arguments ← Json.field? (Json.list? node) "args" fields
    return call id aggregate name arguments (← Json.optional? (windowOfJson? node) "over" fields)

end Parts

/-- A node of at most that many nested objects. -/
def ofJsonWithin? : Nat → Json → Option Node
  | height + 1, .obj fields => do
    let id ← Json.field? idOfJson? "id" fields
    let kind ← Json.field? kindOfJson? "type" fields
    ofFields? (ofJsonWithin? height) id kind fields
  | _, _ => none

/-- The node that a JSON value describes. -/
def ofJson? (j : Json) : Option Node := ofJsonWithin? j.height j

end Node

end DashCalc
