import DashCalc.Node.Json
import DashCalc.Proofs.Json.Records

/-!
# Reading written trees

What was written of a tree is read as the tree itself (`Node.ofJson?_toJson`), in whichever order
the fields of its objects come (`Node.respects_ofJson?`).

A tree is read with as much height as its value has, one less for each object on the way down. So
both are proved for trees of any height, assuming of the parts of a node that they are read right
with the height that is left.
-/

namespace DashCalc.Node

open Json (Respects Same SameFields)
open Sql (Bound Direction Frame Window)

/-! ## The order of fields -/

theorem respects_namedOrNumbered? (names : List String) : Respects (namedOrNumbered? names) := by
  intro j j' same
  cases same <;> rfl

theorem respects_idOfJson? : Respects idOfJson? := fun _ _ same =>
  congrArg (Option.map UInt32.ofNat) (Json.respects_natBits? 32 same)

theorem choiceOfJson?_of_two (first second : String × Json) (fields : List (String × Json)) :
    choiceOfJson? (.obj (first :: second :: fields)) = none := by
  unfold choiceOfJson?
  split <;> simp_all

/-- An object stands for a choice only if it has a single field, and that has no other order. -/
theorem respects_choiceOfJson? : Respects choiceOfJson? := by
  intro j j' same
  cases same with
  | refl => rfl
  | arr => rfl
  | @obj fields fields' distinct distinct' same =>
    have length := SameFields.length_eq same distinct distinct'
    match fields, fields', length with
    | [], [], _ => rfl
    | _ :: _ :: _, _ :: _ :: _, _ => rw [choiceOfJson?_of_two, choiceOfJson?_of_two]
    | [(name, j)], [(name', j')], _ =>
      obtain ⟨rfl, content⟩ := SameFields.single same
      clear distinct distinct' same
      cases content with
      | refl => rfl
      | arr => rfl
      | @obj content content' distinct distinct' same =>
        have length := SameFields.length_eq same distinct distinct'
        clear distinct distinct' same
        match content, content', length with
        | [], [], _ => rfl
        | _ :: _, _ :: _, _ => rfl

section Parts

variable {node : Json → Option Node} (h : Respects node)
include h

theorem respects_caseOfJson? : Respects (caseOfJson? node) :=
  .record fun fields fields' same => by simp only [h.field? same]

theorem respects_keyOfJson? : Respects (keyOfJson? node) :=
  .record fun fields fields' same => by
    simp only [h.field? same, respects_idOfJson?.field? same, respects_choiceOfJson?.field? same]

theorem respects_boundOfKind? (kind : String) : Respects (boundOfKind? node kind) := by
  intro j j' same
  unfold boundOfKind?
  split
  · cases same <;> rfl
  · rw [h.nullable? same]
  · rw [h.nullable? same]
  · rfl

theorem respects_boundOfJson? : Respects (boundOfJson? node) := by
  intro j j' same
  cases same with
  | refl => rfl
  | obj distinct distinct' same =>
    have offset := SameFields.getD same "offset" .null
    simp only [boundOfJson?, respects_choiceOfJson?.field? same,
      respects_boundOfKind? h _ offset]
  | arr items =>
    cases items with
    | nil => rfl
    | cons kind items =>
      cases items with
      | nil => rfl
      | cons offset items =>
        cases items with
        | cons => rfl
        | nil =>
          simp only [boundOfJson?, respects_namedOrNumbered? boundKinds kind,
            respects_boundOfKind? h _ offset]

theorem respects_frameOfJson? : Respects (frameOfJson? node) :=
  .record fun fields fields' same => by
    simp only [Json.respects_text?.field? same, (respects_boundOfJson? h).field? same,
      (respects_boundOfJson? h).optional? same]

theorem respects_windowOfJson? : Respects (windowOfJson? node) :=
  .record fun fields fields' same => by
    simp only [(respects_keyOfJson? h).list?.field? same, h.list?.field? same,
      (respects_frameOfJson? h).optional? same]

theorem ofFields?_same (id : NodeId) (kind : String) {fields fields' : List (String × Json)}
    (same : SameFields fields fields') :
    ofFields? node id kind fields' = ofFields? node id kind fields := by
  simp only [ofFields?, ofFields?.callOfFields?, h.field? same, h.optional? same,
    Json.respects_text?.field? same, Json.respects_text?.optional? same,
    Json.respects_bool?.field? same, h.list?.field? same,
    (respects_caseOfJson? h).list?.field? same, (respects_windowOfJson? h).optional? same]

end Parts

theorem respects_ofJsonWithin? : ∀ h : Nat, Respects (ofJsonWithin? h) := by
  intro h
  induction h with
  | zero => exact fun _ _ _ => rfl
  | succ h ih =>
    intro j j' same
    cases same with
    | refl => rfl
    | arr => rfl
    | obj distinct distinct' same =>
      simp only [ofJsonWithin?, respects_idOfJson?.field? same,
        (respects_namedOrNumbered? kinds).field? same, kindOfJson?, ofFields?_same ih _ _ same]

/-- The order of fields makes no difference to the tree that is read. -/
theorem respects_ofJson? : Respects ofJson? := by
  intro j j' same
  unfold ofJson?
  rw [same.height_eq]
  exact respects_ofJsonWithin? j.height same

/-! ## Parts as they are written

Lists are written item by item, and what may be left out is a field if it is there.
-/

def jsonOfCase (c : Node × Node) : Json :=
  .obj [("condition", c.1.toJson), ("result", c.2.toJson)]

def jsonOfKey (key : SortKey Node) : Json :=
  .obj [("id", jsonOfId key.id), ("expr", key.expr.toJson), ("direction", .str key.direction.name)]

def jsonOfFrame (frame : Frame Node) : Json :=
  .obj (("units", .str frame.units) :: ("start", boundToJson frame.start) ::
    Json.fieldIf "end" boundToJson frame.stop)

def jsonOfWindow (window : Window (SortKey Node) Node) : Json :=
  .obj (("order_by", .arr (window.sortKeys.map jsonOfKey)) ::
    ("partition_by", .arr (window.partitions.map toJson)) ::
    Json.fieldIf "frame" jsonOfFrame window.frame)

theorem listToJson_eq_map (ns : List Node) : listToJson ns = ns.map toJson := by
  induction ns with
  | nil => rfl
  | cons n ns ih => rw [listToJson, ih, List.map_cons]

theorem casesToJson_eq_map (cases : List (Node × Node)) :
    casesToJson cases = cases.map jsonOfCase := by
  induction cases with
  | nil => rfl
  | cons c cases ih =>
    rw [casesToJson, ih, List.map_cons]
    rfl

theorem keysToJson_eq_map (keys : List (SortKey Node)) : keysToJson keys = keys.map jsonOfKey := by
  induction keys with
  | nil => rfl
  | cons key keys ih =>
    rw [keysToJson, ih, List.map_cons]
    rfl

theorem partToJson_eq (name : String) (part : Option Node) :
    partToJson name part = Json.fieldIf name toJson part := by
  cases part <;> rfl

theorem stopToJson_eq (stop : Option (Bound Node)) :
    stopToJson stop = Json.fieldIf "end" boundToJson stop := by
  cases stop <;> rfl

theorem frameToJson_eq (frame : Option (Frame Node)) :
    frameToJson frame = Json.fieldIf "frame" jsonOfFrame frame := by
  cases frame with
  | none => rfl
  | some frame => rw [frameToJson, stopToJson_eq]; rfl

theorem overToJson_eq (window : Option (Window (SortKey Node) Node)) :
    overToJson window = Json.fieldIf "over" jsonOfWindow window := by
  cases window with
  | none => rfl
  | some window =>
    rw [overToJson, frameToJson_eq, keysToJson_eq_map, listToJson_eq_map]
    rfl

/-! ## What was written -/

theorem idOfJson?_jsonOfId (id : NodeId) : idOfJson? (jsonOfId id) = some id := by
  have below : (id.toNat : Int) < Nat.pow 2 32 := Int.ofNat_lt.2 id.toNat_lt
  unfold idOfJson? jsonOfId Json.natBits?
  dsimp only
  rw [if_pos (Bool.and_eq_true_iff.2
    ⟨decide_eq_true (Int.natCast_nonneg _), decide_eq_true below⟩)]
  exact congrArg some UInt32.ofNat_toNat

theorem field?_jsonOfId (id : NodeId) (fields : List (String × Json)) :
    Json.field? idOfJson? "id" (("id", jsonOfId id) :: fields) = some id := by
  rw [Json.field?_cons_self, idOfJson?_jsonOfId]

theorem ofName?_name (direction : Direction) :
    Direction.ofName? direction.name = some direction := by
  cases direction <;> rfl

theorem toJson_ne_null (n : Node) : n.toJson ≠ .null := by
  cases n <;> simp [toJson]

theorem boundToJson_ne_null (bound : Bound Node) : boundToJson bound ≠ .null := by
  cases bound <;> simp [boundToJson]

/-! What was written of a part of a tree is read back if trees of its height are. -/

section Parts

variable {node : Json → Option Node} {h : Nat}
  (reads : ∀ n : Node, n.toJson.height ≤ h → node n.toJson = some n)
include reads

theorem list?_toJson (ns : List Node) (low : (Json.arr (ns.map toJson)).height ≤ h) :
    Json.list? node (.arr (ns.map toJson)) = some ns :=
  Json.list?_map fun n hn => reads n (Json.height_le_of_item low (List.mem_map_of_mem hn))

theorem optional?_toJson (name : String) (part : Option Node) {fields : List (String × Json)}
    (low : (Json.obj fields).height ≤ h + 1) (found : fields.lookup name = part.map toJson) :
    Json.optional? node name fields = some part :=
  Json.optional?_of_lookup found toJson_ne_null fun n hmem =>
    reads n (Json.height_le_of_field low name hmem)

theorem caseOfJson?_jsonOfCase (c : Node × Node) (low : (jsonOfCase c).height ≤ h + 1) :
    caseOfJson? node (jsonOfCase c) = some c := by
  obtain ⟨condition, result⟩ := c
  have hcondition := reads condition (Json.height_le_of_field low "condition" (by simp))
  have hresult := reads result (Json.height_le_of_field low "result" (by simp))
  simp [caseOfJson?, jsonOfCase, Json.record?, Json.field?_cons_of_ne, hcondition, hresult]

theorem list?_jsonOfCase (cases : List (Node × Node))
    (low : (Json.arr (cases.map jsonOfCase)).height ≤ h) :
    Json.list? (caseOfJson? node) (.arr (cases.map jsonOfCase)) = some cases :=
  Json.list?_map fun c hc => caseOfJson?_jsonOfCase reads c
    (Nat.le_succ_of_le (Json.height_le_of_item low (List.mem_map_of_mem hc)))

theorem keyOfJson?_jsonOfKey (key : SortKey Node) (low : (jsonOfKey key).height ≤ h + 1) :
    keyOfJson? node (jsonOfKey key) = some key := by
  obtain ⟨id, expr, direction⟩ := key
  have hexpr := reads expr (Json.height_le_of_field low "expr" (by simp))
  rw [keyOfJson?, jsonOfKey, Json.record?, Option.bind_eq_bind, Option.bind_some, field?_jsonOfId]
  simp [Json.field?_cons_of_ne, hexpr, choiceOfJson?, ofName?_name]

theorem list?_jsonOfKey (keys : List (SortKey Node))
    (low : (Json.arr (keys.map jsonOfKey)).height ≤ h) :
    Json.list? (keyOfJson? node) (.arr (keys.map jsonOfKey)) = some keys :=
  Json.list?_map fun key hkey => keyOfJson?_jsonOfKey reads key
    (Nat.le_succ_of_le (Json.height_le_of_item low (List.mem_map_of_mem hkey)))

theorem nullable?_offsetToJson (offset : Option Node) (low : (offsetToJson offset).height ≤ h) :
    Json.nullable? node (offsetToJson offset) = some offset := by
  cases offset with
  | none => rfl
  | some n =>
    rw [offsetToJson, Json.nullable?_of_ne (toJson_ne_null n), reads n low]
    rfl

theorem boundOfJson?_boundToJson (bound : Bound Node)
    (low : (boundToJson bound).height ≤ h + 1) :
    boundOfJson? node (boundToJson bound) = some bound := by
  -- an offset is looked up as it is, also where it is `null`
  have offset {kind : String} {offset : Option Node}
      (low : (Json.obj [("bound", .str kind), ("offset", offsetToJson offset)]).height ≤ h + 1) :
      Json.nullable? node (offsetToJson offset) = some offset :=
    nullable?_offsetToJson reads _ (Json.height_le_of_field low "offset" (by simp))
  cases bound with
  | currentRow => simp [boundOfJson?, boundToJson, choiceOfJson?, List.lookup_cons, boundOfKind?]
  | preceding _ =>
    simp [boundOfJson?, boundToJson, choiceOfJson?, List.lookup_cons, boundOfKind?, offset low]
  | following _ =>
    simp [boundOfJson?, boundToJson, choiceOfJson?, List.lookup_cons, boundOfKind?, offset low]

theorem frameOfJson?_jsonOfFrame (frame : Frame Node) (low : (jsonOfFrame frame).height ≤ h + 1) :
    frameOfJson? node (jsonOfFrame frame) = some frame := by
  obtain ⟨units, start, stop⟩ := frame
  have hstart := boundOfJson?_boundToJson reads start
    (Nat.le_succ_of_le (Json.height_le_of_field low "start" (by simp)))
  have hstop : Json.optional? (boundOfJson? node) "end" _ = some stop :=
    Json.optional?_of_lookup (by simp [List.lookup_cons, Json.lookup_fieldIf]) boundToJson_ne_null
      fun bound hmem => boundOfJson?_boundToJson reads bound
        (Nat.le_succ_of_le (Json.height_le_of_field low "end" hmem))
  simp [frameOfJson?, jsonOfFrame, Json.record?, Json.field?_cons_of_ne, Json.text?, hstart, hstop]

theorem windowOfJson?_jsonOfWindow (window : Window (SortKey Node) Node)
    (low : (jsonOfWindow window).height ≤ h + 1) :
    windowOfJson? node (jsonOfWindow window) = some window := by
  obtain ⟨sortKeys, partitions, frame⟩ := window
  have hkeys := list?_jsonOfKey reads sortKeys
    (Json.height_le_of_field low "order_by" (by simp))
  have hpartitions := list?_toJson reads partitions
    (Json.height_le_of_field low "partition_by" (by simp))
  have hframe : Json.optional? (frameOfJson? node) "frame" _ = some frame :=
    Json.optional?_of_lookup (by simp [List.lookup_cons, Json.lookup_fieldIf])
      (fun _ => Json.noConfusion) fun frame hmem => frameOfJson?_jsonOfFrame reads frame
        (Nat.le_succ_of_le (Json.height_le_of_field low "frame" hmem))
  simp [windowOfJson?, jsonOfWindow, Json.record?, Json.field?_cons_of_ne, hkeys, hpartitions,
    hframe]

theorem optional?_jsonOfWindow (window : Option (Window (SortKey Node) Node))
    {fields : List (String × Json)} (low : (Json.obj fields).height ≤ h + 1)
    (found : fields.lookup "over" = window.map jsonOfWindow) :
    Json.optional? (windowOfJson? node) "over" fields = some window :=
  Json.optional?_of_lookup found (fun _ => Json.noConfusion) fun window hmem =>
    windowOfJson?_jsonOfWindow reads window
      (Nat.le_succ_of_le (Json.height_le_of_field low "over" hmem))

end Parts

theorem optional?_text {text : Option String} {name : String} {fields : List (String × Json)}
    (found : fields.lookup name = text.map .str) :
    Json.optional? Json.text? name fields = some text :=
  Json.optional?_of_lookup found (fun _ => Json.noConfusion) fun _ _ => rfl

theorem ofJsonWithin?_obj (h : Nat) (id : NodeId) {kind : String} (known : kind ∈ kinds)
    (fields : List (String × Json)) :
    ofJsonWithin? (h + 1) (.obj (("id", jsonOfId id) :: ("type", .str kind) :: fields)) =
      ofFields? (ofJsonWithin? h) id kind
        (("id", jsonOfId id) :: ("type", .str kind) :: fields) := by
  rw [ofJsonWithin?, field?_jsonOfId]
  simp [Json.field?_cons_of_ne, kindOfJson?, namedOrNumbered?, known]

theorem ofFields?_call (node : Json → Option Node) (id : NodeId) (aggregate : Bool)
    (fields : List (String × Json)) :
    ofFields? node id (if aggregate then "aggr_func" else "function") fields =
      ofFields?.callOfFields? node id fields aggregate := by
  cases aggregate <;> rfl

/-- With as much height as it needs, a tree is read back. -/
theorem ofJsonWithin?_toJson (h : Nat) : ∀ n : Node, n.toJson.height ≤ h →
    ofJsonWithin? h n.toJson = some n := by
  induction h with
  | zero =>
    intro n low
    cases n <;> simp [toJson, Json.height] at low
  | succ h reads =>
    intro n low
    cases n with
    | binary id operator left right =>
      rw [toJson] at low ⊢
      have hleft := reads left (Json.height_le_of_field low "left" (by simp))
      have hright := reads right (Json.height_le_of_field low "right" (by simp))
      rw [ofJsonWithin?_obj h id (by simp [kinds])]
      simp [ofFields?, Json.field?_cons_of_ne, Json.text?, hleft, hright]
    | unary id operator operand =>
      rw [toJson] at low ⊢
      have hoperand := reads operand (Json.height_le_of_field low "expr" (by simp))
      rw [ofJsonWithin?_obj h id (by simp [kinds])]
      simp [ofFields?, Json.field?_cons_of_ne, Json.text?, hoperand]
    | call id aggregate name arguments window =>
      rw [toJson, overToJson_eq, listToJson_eq_map] at low ⊢
      simp only [List.cons_append, List.nil_append] at low ⊢
      have harguments := list?_toJson reads arguments
        (Json.height_le_of_field low "args" (by simp))
      have hwindow := optional?_jsonOfWindow reads window low
        (by simp [List.lookup_cons, Json.lookup_fieldIf])
      have known : (if aggregate then "aggr_func" else "function") ∈ kinds := by
        cases aggregate <;> simp [kinds]
      rw [ofJsonWithin?_obj h id known, ofFields?_call]
      simp [ofFields?.callOfFields?, Json.field?_cons_of_ne, Json.text?, harguments, hwindow]
    | column id table name =>
      have htable (kind : Json) : Json.optional? Json.text? "table" (("id", jsonOfId id) ::
          ("type", kind) :: (Json.fieldIf "table" .str table ++ [("column", .str name)])) =
          some table :=
        optional?_text (by simp [List.lookup_cons, List.lookup_append, Json.lookup_fieldIf])
      rw [toJson]
      simp only [List.cons_append, List.nil_append]
      rw [ofJsonWithin?_obj h id (by simp [kinds])]
      simp [ofFields?, Json.field?_cons_of_ne, Json.field?_fieldIf_append, Json.text?, htable]
    | number id digits =>
      rw [toJson, ofJsonWithin?_obj h id (by simp [kinds])]
      simp [ofFields?, Json.field?_cons_of_ne, Json.text?]
    | text id value =>
      rw [toJson, ofJsonWithin?_obj h id (by simp [kinds])]
      simp [ofFields?, Json.field?_cons_of_ne, Json.text?]
    | bool id value =>
      rw [toJson, ofJsonWithin?_obj h id (by simp [kinds])]
      simp [ofFields?, Json.field?_cons_of_ne, Json.bool?]
    | null id =>
      rw [toJson, ofJsonWithin?_obj h id (by simp [kinds])]
      simp [ofFields?]
    | star id =>
      rw [toJson, ofJsonWithin?_obj h id (by simp [kinds])]
      simp [ofFields?]
    | list id items =>
      rw [toJson, listToJson_eq_map] at low ⊢
      have hitems := list?_toJson reads items (Json.height_le_of_field low "items" (by simp))
      rw [ofJsonWithin?_obj h id (by simp [kinds])]
      simp [ofFields?, Json.field?_cons_of_ne, hitems]
    | branches id operand cases otherwise =>
      rw [toJson, partToJson_eq, casesToJson_eq_map, partToJson_eq] at low ⊢
      simp only [List.cons_append, List.nil_append, List.append_assoc] at low ⊢
      have hcases := list?_jsonOfCase reads cases
        (Json.height_le_of_field low "when_clauses" (by simp))
      have hoperand := optional?_toJson reads "operand" operand low
        (by simp [List.lookup_cons, List.lookup_append, Json.lookup_fieldIf])
      have hotherwise := optional?_toJson reads "else_result" otherwise low
        (by simp [List.lookup_cons, List.lookup_append, Json.lookup_fieldIf])
      rw [ofJsonWithin?_obj h id (by simp [kinds])]
      simp [ofFields?, Json.field?_cons_of_ne, Json.field?_fieldIf_append, hcases, hoperand,
        hotherwise]

/-- **Reading undoes writing.** What was written of a tree is read as the tree itself, in whichever
order its fields come; and if whatever was read is written anew, it is read as the same again. -/
theorem ofJson?_toJson :
    (∀ n : Node, ofJson? n.toJson = some n) ∧
      (∀ (n : Node) (j : Json), Same n.toJson j → ofJson? j = some n) ∧
      ∀ j : Json, ((ofJson? j).map toJson).bind ofJson? = ofJson? j := by
  have back (n : Node) : ofJson? n.toJson = some n :=
    ofJsonWithin?_toJson n.toJson.height n (Nat.le_refl _)
  refine ⟨back, fun n j same => (respects_ofJson? same).trans (back n), fun j => ?_⟩
  cases ofJson? j with
  | none => rfl
  | some n => exact back n

/-- `SUM(sales) OVER (PARTITION BY region ORDER BY orders.day DESC ROWS BETWEEN UNBOUNDED PRECEDING
AND 1 FOLLOWING)`. -/
def runningTotal : Node :=
  .call 0 true "SUM" [.column 1 none "sales"] (some
    ⟨[⟨2, .column 3 (some "orders") "day", .descending⟩], [.column 4 none "region"],
      some ⟨"ROWS", .preceding none, some (.following (some (.number 5 "1")))⟩⟩)

/-- A window is read back, also if the fields of its call come the other way round. -/
theorem ofJson?_toJson_runningTotal : ∃ fields, runningTotal.toJson = .obj fields ∧
    ofJson? (.obj fields) = some runningTotal ∧ ofJson? (.obj fields.reverse) = some runningTotal :=
  ⟨_, rfl, ofJson?_toJson.1 runningTotal, ofJson?_toJson.2.1 runningTotal _
    (.of_perm (by decide) (List.reverse_perm _).symm)⟩

/-- Kinds may be given by number, what is absent as `null`; unknown fields are ignored. -/
example : ofJson? (.obj [("note", .bool true), ("type", .int 4), ("table", .null),
    ("column", .str "sales"), ("id", .int 7)]) = some (.column 7 none "sales") := by
  rfl

end DashCalc.Node
