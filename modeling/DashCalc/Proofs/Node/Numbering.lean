import DashCalc.Node.OfSql
import DashCalc.Node.Walk
import Mathlib.Data.List.Nodup
import Mathlib.Data.List.Range

/-!
# The numbering of trees

`Node.places` lists the nodes and the sort keys of a tree, each before its parts. The ids of a tree
that is built are the ids that were free before, without gaps and in the order of its places
(`Node.numbers_ofExpr`). So no two places of a tree share an id, and a walk through its nodes meets
growing ids and leaves out those of the sort keys (`Node.numbered_ofSql`).
-/

namespace DashCalc

open Sql (Argument Bound Direction Expr Frame Literal Over Window)

namespace Node

/-! ## Places -/

/-- A place of a tree that has an id. -/
inductive Place
  | node (n : Node)
  | key (k : SortKey Node)

namespace Place

def id : Place → NodeId
  | node n => n.id
  | key k => k.id

def node? : Place → Option Node
  | node n => some n
  | key _ => none

def key? : Place → Option (SortKey Node)
  | node _ => none
  | key k => some k

end Place

mutual

/-- The nodes and the sort keys of a tree, each before its parts. -/
def places : Node → List Place
  | binary id operator left right =>
    .node (binary id operator left right) :: (places left ++ places right)
  | unary id operator operand => .node (unary id operator operand) :: places operand
  | call id aggregate name arguments window =>
    .node (call id aggregate name arguments window) ::
      (placesOfList arguments ++ placesOfWindow? window)
  | list id items => .node (list id items) :: placesOfList items
  | branches id operand cases otherwise =>
    .node (branches id operand cases otherwise) ::
      (placesOf? operand ++ placesOfCases cases ++ placesOf? otherwise)
  | column id table name => [.node (column id table name)]
  | number id digits => [.node (number id digits)]
  | text id value => [.node (text id value)]
  | bool id value => [.node (bool id value)]
  | null id => [.node (null id)]
  | star id => [.node (star id)]

def placesOfList : List Node → List Place
  | [] => []
  | n :: ns => places n ++ placesOfList ns

def placesOf? : Option Node → List Place
  | none => []
  | some n => places n

def placesOfCases : List (Node × Node) → List Place
  | [] => []
  | (condition, result) :: cases => places condition ++ places result ++ placesOfCases cases

def placesOfWindow? : Option (Window (SortKey Node) Node) → List Place
  | none => []
  | some ⟨sortKeys, partitions, frame⟩ =>
    placesOfKeys sortKeys ++ placesOfList partitions ++ placesOfFrame? frame

def placesOfKeys : List (SortKey Node) → List Place
  | [] => []
  | ⟨id, expr, direction⟩ :: keys =>
    .key ⟨id, expr, direction⟩ :: (places expr ++ placesOfKeys keys)

def placesOfFrame? : Option (Frame Node) → List Place
  | none => []
  | some ⟨_, start, stop⟩ => placesOfBound start ++ placesOfBound? stop

def placesOfBound : Bound Node → List Place
  | .currentRow => []
  | .preceding offset => placesOf? offset
  | .following offset => placesOf? offset

def placesOfBound? : Option (Bound Node) → List Place
  | none => []
  | some bound => placesOfBound bound

end

mutual

/-- The nodes among the places are the nodes of a walk, in its order. -/
theorem nodes_eq : ∀ n : Node, n.nodes = n.places.filterMap Place.node?
  | binary _ _ left right => by
    simp [nodes, places, Place.node?, nodes_eq left, nodes_eq right]
  | unary _ _ operand => by simp [nodes, places, Place.node?, nodes_eq operand]
  | call _ _ _ arguments window => by
    simp [nodes, places, Place.node?, nodesOfList_eq arguments, nodesOfWindow?_eq window]
  | list _ items => by simp [nodes, places, Place.node?, nodesOfList_eq items]
  | branches _ operand cases otherwise => by
    simp [nodes, places, Place.node?, nodesOf?_eq operand, nodesOfCases_eq cases,
      nodesOf?_eq otherwise]
  | column _ _ _ => rfl
  | number _ _ => rfl
  | text _ _ => rfl
  | bool _ _ => rfl
  | null _ => rfl
  | star _ => rfl

theorem nodesOfList_eq : ∀ ns : List Node,
    nodesOfList ns = (placesOfList ns).filterMap Place.node?
  | [] => rfl
  | n :: ns => by simp [nodesOfList, placesOfList, nodes_eq n, nodesOfList_eq ns]

theorem nodesOf?_eq : ∀ n : Option Node, nodesOf? n = (placesOf? n).filterMap Place.node?
  | none => rfl
  | some n => nodes_eq n

theorem nodesOfCases_eq : ∀ cases : List (Node × Node),
    nodesOfCases cases = (placesOfCases cases).filterMap Place.node?
  | [] => rfl
  | (condition, result) :: cases => by
    simp [nodesOfCases, placesOfCases, nodes_eq condition, nodes_eq result, nodesOfCases_eq cases]

theorem nodesOfWindow?_eq : ∀ w : Option (Window (SortKey Node) Node),
    nodesOfWindow? w = (placesOfWindow? w).filterMap Place.node?
  | none => rfl
  | some ⟨sortKeys, partitions, frame⟩ => by
    simp [nodesOfWindow?, placesOfWindow?, nodesOfKeys_eq sortKeys, nodesOfList_eq partitions,
      nodesOfFrame?_eq frame]

theorem nodesOfKeys_eq : ∀ keys : List (SortKey Node),
    nodesOfKeys keys = (placesOfKeys keys).filterMap Place.node?
  | [] => rfl
  | ⟨_, expr, _⟩ :: keys => by
    rw [nodesOfKeys, placesOfKeys, List.filterMap_cons_none rfl, List.filterMap_append,
      nodes_eq expr, nodesOfKeys_eq keys]

theorem nodesOfFrame?_eq : ∀ frame : Option (Frame Node),
    nodesOfFrame? frame = (placesOfFrame? frame).filterMap Place.node?
  | none => rfl
  | some ⟨_, start, stop⟩ => by
    simp [nodesOfFrame?, placesOfFrame?, nodesOfBound_eq start, nodesOfBound?_eq stop]

theorem nodesOfBound_eq : ∀ bound : Bound Node,
    nodesOfBound bound = (placesOfBound bound).filterMap Place.node?
  | .currentRow => rfl
  | .preceding offset => nodesOf?_eq offset
  | .following offset => nodesOf?_eq offset

theorem nodesOfBound?_eq : ∀ bound : Option (Bound Node),
    nodesOfBound? bound = (placesOfBound? bound).filterMap Place.node?
  | none => rfl
  | some bound => nodesOfBound_eq bound

end

end Node

/-! ## Taking ids -/

/-- The ids with the numbers from the first up to the last, the last one excluded. -/
def idsBetween (first last : Nat) : List NodeId :=
  (List.range' first (last - first)).map UInt32.ofNat

theorem idsBetween_append {first middle last : Nat} (h : first ≤ middle) (h' : middle ≤ last) :
    idsBetween first middle ++ idsBetween middle last = idsBetween first last := by
  obtain ⟨m, rfl⟩ := Nat.exists_eq_add_of_le h
  obtain ⟨n, rfl⟩ := Nat.exists_eq_add_of_le h'
  unfold idsBetween
  rw [← List.map_append, Nat.add_sub_cancel_left, Nat.add_sub_cancel_left, Nat.add_assoc,
    Nat.add_sub_cancel_left, List.range'_append_1]

/-- Whether what is built has the ids that building takes, in their order, behind some taken
before. -/
def Numbers {α : Type} (build : Lowering α) (before : List NodeId) (ids : α → List NodeId) : Prop :=
  ∀ first, first ≤ (build.run first).2 ∧
    ∀ a, (build.run first).1 = .ok a → ids a = before ++ idsBetween first (build.run first).2

namespace Numbers

variable {α β : Type} {before : List NodeId} {ids : α → List NodeId}

theorem pure {a : α} (h : ids a = before) : Numbers (pure a) before ids := by
  intro first
  refine ⟨Nat.le_refl first, ?_⟩
  rintro _ ⟨⟩
  show ids a = before ++ idsBetween first first
  rw [h, idsBetween, Nat.sub_self]
  exact (List.append_nil before).symm

theorem throw (kind : String) : Numbers (throw kind) before ids :=
  fun first => ⟨Nat.le_refl first, nofun⟩

theorem fresh : Numbers Node.fresh [] ([·]) := by
  intro first
  refine ⟨Nat.le_succ first, ?_⟩
  rintro _ ⟨⟩
  show [UInt32.ofNat first] = idsBetween first (first + 1)
  rw [idsBetween, Nat.add_sub_cancel_left]
  rfl

/-- One part after the other: the ids of the first come before those of the second. -/
theorem bind {build : Lowering β} {next : β → Lowering α} {part : β → List NodeId}
    (h : Numbers build [] part) (h' : ∀ b, Numbers (next b) (before ++ part b) ids) :
    Numbers (build >>= next) before ids := by
  intro first
  obtain ⟨hle, hpart⟩ := h first
  rw [Lowering.run_bind]
  cases hb : build.run first with
  | mk result middle =>
    rw [hb] at hle hpart
    cases result with
    | error kind => exact ⟨hle, nofun⟩
    | ok b =>
      obtain ⟨hle', hnext⟩ := h' b middle
      refine ⟨hle.trans hle', fun a ha => ?_⟩
      rw [hnext a ha, hpart b rfl, List.nil_append, List.append_assoc, idsBetween_append hle hle']

/-- One id and what comes next. -/
theorem fresh_bind {next : NodeId → Lowering α}
    (h : ∀ id, Numbers (next id) (before ++ [id]) ids) : Numbers (Node.fresh >>= next) before ids :=
  fresh.bind h

end Numbers

namespace Node

open Numbers (fresh_bind)

/-- The ids of the places that a part of a tree has. -/
def idsIn {α : Type} (placesIn : α → List Place) (a : α) : List NodeId :=
  (placesIn a).map Place.id

theorem numbers_ofLiteral (value : Literal) : Numbers (ofLiteral value) [] (idsIn places) := by
  cases value with
  | other shown => exact .throw _
  | _ => exact fresh_bind fun id => .pure rfl

mutual

/-- A tree that is built has the ids that building takes, in the order of its places. -/
theorem numbers_ofExpr : ∀ e : Expr, Numbers (ofExpr e) [] (idsIn places)
  | .nested inner => numbers_ofExpr inner
  | .name _ _ => fresh_bind fun _ => .pure rfl
  | .literal value => numbers_ofLiteral value
  | .binary _ left right =>
    fresh_bind fun _ => (numbers_ofExpr left).bind fun _ => (numbers_ofExpr right).bind fun _ =>
      .pure (by simp [idsIn, places, Place.id, Node.id])
  | .unary _ operand =>
    fresh_bind fun _ => (numbers_ofExpr operand).bind fun _ =>
      .pure (by simp [idsIn, places, Place.id, Node.id])
  | .among _ tested values =>
    fresh_bind fun _ => (numbers_ofExpr tested).bind fun _ => fresh_bind fun _ =>
      (numbers_ofExprs values).bind fun _ =>
        .pure (by simp [idsIn, places, Place.id, Node.id])
  | .tuple items =>
    fresh_bind fun _ => (numbers_ofExprs items).bind fun _ =>
      .pure (by simp [idsIn, places, Place.id, Node.id])
  | .call _ arguments _ window =>
    fresh_bind fun _ => (numbers_ofArguments arguments).bind fun _ =>
      (numbers_ofOver? window).bind fun _ =>
        .pure (by simp [idsIn, places, Place.id, Node.id])
  | .callOfQuery _ _ => fresh_bind fun _ => .throw _
  | .builtin _ arguments _ =>
    fresh_bind fun _ => (numbers_ofExprs arguments).bind fun _ =>
      .pure (by simp [idsIn, places, placesOfWindow?, Place.id, Node.id])
  | .branches operand cases otherwise =>
    fresh_bind fun _ => (numbers_ofExpr? operand).bind fun _ =>
      (numbers_ofCases cases).bind fun _ => (numbers_ofExpr? otherwise).bind fun _ =>
        .pure (by simp [idsIn, places, Place.id, Node.id])
  | .other _ _ => .throw _

theorem numbers_ofExprs : ∀ es : List Expr, Numbers (ofExprs es) [] (idsIn placesOfList)
  | [] => .pure rfl
  | e :: es =>
    (numbers_ofExpr e).bind fun _ => (numbers_ofExprs es).bind fun _ =>
      .pure (by simp [idsIn, placesOfList])

theorem numbers_ofExpr? : ∀ e : Option Expr, Numbers (ofExpr? e) [] (idsIn placesOf?)
  | none => .pure rfl
  | some e => (numbers_ofExpr e).bind fun _ => .pure rfl

theorem numbers_ofArguments : ∀ arguments : List (Argument Expr),
    Numbers (ofArguments arguments) [] (idsIn placesOfList)
  | [] => .pure rfl
  | argument :: arguments =>
    (numbers_ofArgument argument).bind fun _ => (numbers_ofArguments arguments).bind fun _ =>
      .pure (by simp [idsIn, placesOfList])

theorem numbers_ofArgument : ∀ argument : Argument Expr,
    Numbers (ofArgument argument) [] (idsIn places)
  | .expr e => numbers_ofExpr e
  | .star => fresh_bind fun _ => .pure rfl
  | .starOf _ => .throw _

theorem numbers_ofCases : ∀ cases : List (Expr × Expr),
    Numbers (ofCases cases) [] (idsIn placesOfCases)
  | [] => .pure rfl
  | (condition, result) :: cases =>
    (numbers_ofExpr condition).bind fun _ => (numbers_ofExpr result).bind fun _ =>
      (numbers_ofCases cases).bind fun _ => .pure (by simp [idsIn, placesOfCases])

theorem numbers_ofOver? : ∀ window : Option (Over (Expr × Direction) Expr),
    Numbers (ofOver? window) [] (idsIn placesOfWindow?)
  | none => .pure rfl
  | some (.named _) => .throw _
  | some (.window ⟨sortKeys, partitions, frame⟩) =>
    (numbers_ofSortKeys sortKeys).bind fun _ => (numbers_ofExprs partitions).bind fun _ =>
      (numbers_ofFrame? frame).bind fun _ => .pure (by simp [idsIn, placesOfWindow?])

theorem numbers_ofSortKeys : ∀ keys : List (Expr × Direction),
    Numbers (ofSortKeys keys) [] (idsIn placesOfKeys)
  | [] => .pure rfl
  | (e, _) :: keys =>
    fresh_bind fun _ => (numbers_ofExpr e).bind fun _ => (numbers_ofSortKeys keys).bind fun _ =>
      .pure (by simp [idsIn, placesOfKeys, Place.id])

theorem numbers_ofFrame? : ∀ frame : Option (Frame Expr),
    Numbers (ofFrame? frame) [] (idsIn placesOfFrame?)
  | none => .pure rfl
  | some ⟨_, start, stop⟩ =>
    (numbers_ofBound start).bind fun _ => (numbers_ofBound? stop).bind fun _ =>
      .pure (by simp [idsIn, placesOfFrame?])

theorem numbers_ofBound : ∀ bound : Bound Expr,
    Numbers (ofBound bound) [] (idsIn placesOfBound)
  | .currentRow => .pure rfl
  | .preceding offset => (numbers_ofExpr? offset).bind fun _ => .pure rfl
  | .following offset => (numbers_ofExpr? offset).bind fun _ => .pure rfl

theorem numbers_ofBound? : ∀ bound : Option (Bound Expr),
    Numbers (ofBound? bound) [] (idsIn placesOfBound?)
  | none => .pure rfl
  | some bound => (numbers_ofBound bound).bind fun _ => .pure rfl

end

/-! ## Reading with one counter -/

/-- Building a tree takes ids without going back, and the tree has those it takes. -/
theorem numbers_ofSql (sql : String) (first : Nat) : first ≤ (ofSql sql first).2 ∧
    ∀ n, (ofSql sql first).1 = .ok n →
      n.places.map Place.id = idsBetween first (ofSql sql first).2 := by
  unfold ofSql
  cases Sql.parse sql with
  | error failure => exact ⟨Nat.le_refl first, nofun⟩
  | ok statements =>
    dsimp only
    cases selected statements with
    | error misshape => exact ⟨Nat.le_refl first, nofun⟩
    | ok e =>
      dsimp only
      obtain ⟨hle, hids⟩ := numbers_ofExpr e first
      rcases hrun : (ofExpr e).run first with ⟨kind | n, last⟩ <;> rw [hrun] at hle hids
      · exact ⟨hle, nofun⟩
      · refine ⟨hle, ?_⟩
        rintro _ ⟨⟩
        exact hids n rfl

/-- Reads SQL texts one after the other; the ids that a text takes stay taken. -/
def ofSqls : List String → Nat → List (Except Refusal Node) × Nat
  | [], taken => ([], taken)
  | sql :: rest, taken =>
    let (result, taken) := ofSql sql taken
    let (results, taken) := ofSqls rest taken
    (result :: results, taken)

/-- The trees among some results. -/
def trees (results : List (Except Refusal Node)) : List Node := results.filterMap Except.toOption

theorem le_ofSqls (texts : List String) (first : Nat) : first ≤ (ofSqls texts first).2 := by
  induction texts generalizing first with
  | nil => exact Nat.le_refl first
  | cons sql rest ih => exact (numbers_ofSql sql first).1.trans (ih _)

theorem ofSqls_append (texts more : List String) (first : Nat) :
    (ofSqls (texts ++ more) first).2 = (ofSqls more (ofSqls texts first).2).2 := by
  induction texts generalizing first with
  | nil => rfl
  | cons sql rest ih => exact ih _

/-- The trees read one after the other have ids that were taken for them, in their order. -/
theorem ids_ofSqls (texts : List String) (first : Nat) :
    ((trees (ofSqls texts first).1).flatMap fun n => n.places.map Place.id).Sublist
      (idsBetween first (ofSqls texts first).2) := by
  induction texts generalizing first with
  | nil => exact List.nil_sublist _
  | cons sql rest ih =>
    obtain ⟨hle, hids⟩ := numbers_ofSql sql first
    show ((trees ((ofSql sql first).1 :: (ofSqls rest (ofSql sql first).2).1)).flatMap _).Sublist
      (idsBetween first (ofSqls rest (ofSql sql first).2).2)
    rw [← idsBetween_append hle (le_ofSqls rest _)]
    cases hresult : (ofSql sql first).1 with
    | error refusal => exact (ih _).trans (List.sublist_append_right _ _)
    | ok n =>
      show ((n.places.map Place.id) ++ _).Sublist _
      rw [hids n hresult]
      exact (List.Sublist.refl _).append (ih _)

/-! ## Distinct ids -/

theorem toNat_idsBetween {first last : Nat} (small : last ≤ UInt32.size) :
    (idsBetween first last).map UInt32.toNat = List.range' first (last - first) := by
  unfold idsBetween
  rw [List.map_map]
  refine (List.map_congr_left fun i hi => ?_).trans (List.map_id _)
  have hlt : i < UInt32.size := by
    have := List.mem_range'_1.1 hi
    omega
  exact UInt32.toNat_ofNat_of_lt' hlt

theorem nodup_idsBetween {first last : Nat} (small : last ≤ UInt32.size) :
    (idsBetween first last).Nodup := by
  refine List.Nodup.of_map UInt32.toNat ?_
  rw [toNat_idsBetween small]
  exact List.nodup_range'

/-- The nodes among some places, seen by their ids. -/
theorem ids_nodes_sublist (ps : List Place) :
    ((ps.filterMap Place.node?).map fun n => n.id.toNat).Sublist (ps.map fun p => p.id.toNat) := by
  induction ps with
  | nil => exact List.Sublist.slnil
  | cons p ps ih =>
    cases p with
    | node n => exact ih.cons_cons _
    | key k => exact ih.cons _

/-- **Ids number the places of a tree without gaps.** The ids of a tree that was read are those from
the first free one up to the first one that is free afterwards, in the order of its places. So the
walk through its nodes meets growing ids, and those it does not meet belong to sort keys. One
counter for many texts never goes back, and all trees that it serves have different ids. -/
theorem numbered_ofSql :
    (∀ (sql : String) (first last : Nat) (n : Node), ofSql sql first = (.ok n, last) →
      last ≤ UInt32.size →
        first ≤ last ∧
        (n.places.map fun p => p.id.toNat) = List.range' first (last - first) ∧
        n.nodes = n.places.filterMap Place.node? ∧
        (n.nodes.map fun m => m.id.toNat).Pairwise (· < ·) ∧
        ∀ i, i ∈ n.nodes.map (fun m => m.id.toNat) ↔ first ≤ i ∧ i < last ∧
          i ∉ (n.places.filterMap Place.key?).map fun k => k.id.toNat) ∧
      ∀ (texts more : List String) (first : Nat),
        (ofSqls texts first).2 ≤ (ofSqls (texts ++ more) first).2 ∧
        ((ofSqls texts first).2 ≤ UInt32.size →
          ((trees (ofSqls texts first).1).flatMap fun n => n.places.map Place.id).Nodup) := by
  constructor
  · intro sql first last n h small
    obtain ⟨hle, hids⟩ := numbers_ofSql sql first
    rw [h] at hle hids
    have numbers : (n.places.map fun p => p.id.toNat) = List.range' first (last - first) := by
      have := congrArg (List.map UInt32.toNat) (hids n rfl)
      rwa [List.map_map, toNat_idsBetween small] at this
    have different : (n.places.map fun p => p.id.toNat).Nodup := by
      rw [numbers]
      exact List.nodup_range'
    refine ⟨hle, numbers, nodes_eq n, ?_, fun i => ?_⟩
    · rw [nodes_eq]
      refine List.Pairwise.sublist (ids_nodes_sublist _) ?_
      rw [numbers]
      exact List.pairwise_lt_range'
    · have range : (∃ p ∈ n.places, p.id.toNat = i) ↔ first ≤ i ∧ i < last := by
        rw [← List.mem_map, numbers, List.mem_range'_1]
        omega
      rw [nodes_eq, ← and_assoc, ← range]
      simp only [List.mem_map, List.mem_filterMap]
      constructor
      · rintro ⟨m, ⟨p, hp, hm⟩, rfl⟩
        cases p with
        | key k => cases hm
        | node _ =>
          cases hm
          refine ⟨⟨_, hp, rfl⟩, ?_⟩
          rintro ⟨k, ⟨q, hq, hk⟩, same⟩
          cases q with
          | node _ => cases hk
          | key _ =>
            cases hk
            cases List.inj_on_of_nodup_map different hq hp same
      · rintro ⟨⟨p, hp, rfl⟩, notKey⟩
        cases p with
        | node m => exact ⟨m, ⟨_, hp, rfl⟩, rfl⟩
        | key k => exact absurd ⟨k, ⟨_, hp, rfl⟩, rfl⟩ notKey
  · intro texts more first
    constructor
    · rw [ofSqls_append]
      exact le_ofSqls more _
    · intro small
      exact (ids_ofSqls texts first).nodup (nodup_idsBetween small)

/-- The text of a ranking by a sum. -/
def rankingText : String := "SELECT RANK() OVER (ORDER BY SUM(a) DESC) FROM DUAL"

/-- A ranking by a sum has the id of its sort key between those of the two calls. A cast that is
refused after its operand was read keeps the ids that were taken. -/
theorem numbered_ranking :
    (∃ n, ofSql rankingText 5 = (.ok n, 9) ∧ (n.places.map fun p => p.id.toNat) = [5, 6, 7, 8] ∧
      6 ∉ n.nodes.map fun m => m.id.toNat) ∧
    (ofSqls [rankingText, "SELECT a + CAST(b AS CHAR) FROM DUAL", "SELECT a FROM DUAL"] 0).2 = 7 ∧
    ((trees (ofSqls [rankingText, "SELECT a + CAST(b AS CHAR) FROM DUAL",
      "SELECT a FROM DUAL"] 0).1).flatMap fun n => n.places.map Place.id).Nodup := by
  obtain ⟨one, many⟩ := numbered_ofSql
  have taken : (ofSqls [rankingText, "SELECT a + CAST(b AS CHAR) FROM DUAL",
      "SELECT a FROM DUAL"] 0).2 = 7 := by decide +kernel
  refine ⟨?_, taken, (many _ [] 0).2 (taken ▸ by decide)⟩
  have read : (((ofSql rankingText 5).1.toOption.map fun n =>
      (n.places.filterMap Place.key?).map fun k => k.id.toNat), (ofSql rankingText 5).2) =
        (some [6], 9) := by decide +kernel
  obtain ⟨key, last⟩ := Prod.mk.inj read
  rcases hread : ofSql rankingText 5 with ⟨refusal | n, _⟩ <;> rw [hread] at last key
  · cases key
  · subst last
    obtain ⟨-, ids, -, -, walked⟩ := one rankingText 5 9 n hread (by decide)
    have keys : (n.places.filterMap Place.key?).map (fun k => k.id.toNat) = [6] :=
      Option.some.inj key
    refine ⟨n, rfl, ids, fun h => ((walked 6).1 h).2.2 ?_⟩
    rw [keys]
    exact List.mem_singleton_self 6

end Node

end DashCalc
