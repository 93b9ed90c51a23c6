import DashCalc.Node.Walk
import Mathlib.Logic.Relation

/-!
# The parts of a tree

`Node.PartOf` says where a tree may stand right below another one: it has a constructor for each
such position. A walk lists a tree, its parts, their parts and so on, and nothing else
(`Node.mem_nodes_iff_reflTransGen`), so the columns of a tree are those that stand anywhere in it, in
windows and branches too (`Node.mem_columns_iff_hasColumn`).
-/

namespace DashCalc

open Relation (ReflTransGen)
open Sql (Bound Frame Window)

/-- The offset of an end of a frame, if it has one. -/
def Sql.Bound.offset? {α : Type} : Bound α → Option α
  | currentRow => none
  | preceding offset => offset
  | following offset => offset

namespace Node

/-- Whether the first tree stands right below the second one. -/
inductive PartOf : Node → Node → Prop
  | left {id operator left right} : PartOf left (binary id operator left right)
  | right {id operator left right} : PartOf right (binary id operator left right)
  | operand {id operator operand} : PartOf operand (unary id operator operand)
  | argument {id aggregate name arguments window n} (h : n ∈ arguments) :
      PartOf n (call id aggregate name arguments window)
  | sortKey {id aggregate name arguments window key} (h : key ∈ window.sortKeys) :
      PartOf key.expr (call id aggregate name arguments (some window))
  | partition {id aggregate name arguments window n} (h : n ∈ window.partitions) :
      PartOf n (call id aggregate name arguments (some window))
  | start {id aggregate name arguments window frame n} (h : window.frame = some frame)
      (offset : frame.start.offset? = some n) :
      PartOf n (call id aggregate name arguments (some window))
  | stop {id aggregate name arguments window frame bound n} (h : window.frame = some frame)
      (ends : frame.stop = some bound) (offset : bound.offset? = some n) :
      PartOf n (call id aggregate name arguments (some window))
  | item {id items n} (h : n ∈ items) : PartOf n (list id items)
  | tested {id operand cases otherwise} : PartOf operand (branches id (some operand) cases otherwise)
  | condition {id operand cases otherwise condition result} (h : (condition, result) ∈ cases) :
      PartOf condition (branches id operand cases otherwise)
  | result {id operand cases otherwise condition result} (h : (condition, result) ∈ cases) :
      PartOf result (branches id operand cases otherwise)
  | otherwise {id operand cases otherwise} :
      PartOf otherwise (branches id operand cases (some otherwise))

/-! ## Where a walk goes -/

section Walk

variable {m : Node}

theorem mem_nodesOfList {ns : List Node} : m ∈ nodesOfList ns ↔ ∃ n ∈ ns, m ∈ n.nodes := by
  induction ns with
  | nil => simp [nodesOfList]
  | cons n ns ih => simp [nodesOfList, ih]

theorem mem_nodesOf? {n? : Option Node} : m ∈ nodesOf? n? ↔ ∃ n, n? = some n ∧ m ∈ n.nodes := by
  cases n? <;> simp [nodesOf?]

theorem mem_nodesOfCases {cases : List (Node × Node)} :
    m ∈ nodesOfCases cases ↔ ∃ c ∈ cases, m ∈ c.1.nodes ∨ m ∈ c.2.nodes := by
  induction cases with
  | nil => simp [nodesOfCases]
  | cons c cases ih => simp [nodesOfCases, ih, or_assoc]

theorem mem_nodesOfKeys {keys : List (SortKey Node)} :
    m ∈ nodesOfKeys keys ↔ ∃ key ∈ keys, m ∈ key.expr.nodes := by
  induction keys with
  | nil => simp [nodesOfKeys]
  | cons key keys ih => simp [nodesOfKeys, ih]

theorem mem_nodesOfBound {bound : Bound Node} :
    m ∈ nodesOfBound bound ↔ ∃ n, bound.offset? = some n ∧ m ∈ n.nodes := by
  cases bound <;> simp [nodesOfBound, Bound.offset?, mem_nodesOf?]

theorem mem_nodesOfBound? {bound? : Option (Bound Node)} : m ∈ nodesOfBound? bound? ↔
    ∃ bound n, bound? = some bound ∧ bound.offset? = some n ∧ m ∈ n.nodes := by
  cases bound? <;> simp [nodesOfBound?, mem_nodesOfBound]

theorem mem_nodesOfFrame? {frame? : Option (Frame Node)} : m ∈ nodesOfFrame? frame? ↔
    ∃ frame, frame? = some frame ∧ ((∃ n, frame.start.offset? = some n ∧ m ∈ n.nodes) ∨
      ∃ bound n, frame.stop = some bound ∧ bound.offset? = some n ∧ m ∈ n.nodes) := by
  cases frame? <;> simp [nodesOfFrame?, mem_nodesOfBound, mem_nodesOfBound?]

theorem mem_nodesOfWindow? {window? : Option (Window (SortKey Node) Node)} :
    m ∈ nodesOfWindow? window? ↔ ∃ window, window? = some window ∧
      (m ∈ nodesOfKeys window.sortKeys ∨ m ∈ nodesOfList window.partitions ∨
        m ∈ nodesOfFrame? window.frame) := by
  cases window? <;> simp [nodesOfWindow?]

end Walk

/-- A walk through the parts of a tree goes through what the tree's walk goes through. -/
theorem PartOf.nodes_subset {p n : Node} (h : PartOf p n) : p.nodes ⊆ n.nodes := by
  intro m hm
  cases h with
  | left => simp [nodes, hm]
  | right => simp [nodes, hm]
  | operand => simp [nodes, hm]
  | argument h =>
    have below := mem_nodesOfList.2 ⟨p, h, hm⟩
    simp [nodes, below]
  | sortKey h =>
    have below := mem_nodesOfWindow?.2 ⟨_, rfl, .inl (mem_nodesOfKeys.2 ⟨_, h, hm⟩)⟩
    simp [nodes, below]
  | partition h =>
    have below := mem_nodesOfWindow?.2 ⟨_, rfl, .inr (.inl (mem_nodesOfList.2 ⟨_, h, hm⟩))⟩
    simp [nodes, below]
  | start h offset =>
    have framed := mem_nodesOfFrame?.2 ⟨_, h, .inl ⟨_, offset, hm⟩⟩
    have below := mem_nodesOfWindow?.2 ⟨_, rfl, .inr (.inr framed)⟩
    simp [nodes, below]
  | stop h ends offset =>
    have framed := mem_nodesOfFrame?.2 ⟨_, h, .inr ⟨_, _, ends, offset, hm⟩⟩
    have below := mem_nodesOfWindow?.2 ⟨_, rfl, .inr (.inr framed)⟩
    simp [nodes, below]
  | item h =>
    have below := mem_nodesOfList.2 ⟨p, h, hm⟩
    simp [nodes, below]
  | tested => simp [nodes, nodesOf?, hm]
  | condition h =>
    have below := mem_nodesOfCases.2 ⟨_, h, .inl hm⟩
    simp [nodes, below]
  | result h =>
    have below := mem_nodesOfCases.2 ⟨_, h, .inr hm⟩
    simp [nodes, below]
  | otherwise => simp [nodes, nodesOf?, hm]

theorem mem_nodes_self (n : Node) : n ∈ n.nodes := by
  cases n <;> simp [nodes]

/-- Behind the tree itself, a walk goes through its parts only. -/
theorem exists_partOf_of_mem_nodes {m n : Node} (h : m ∈ n.nodes) :
    m = n ∨ ∃ p, PartOf p n ∧ m ∈ p.nodes := by
  cases n with
  | binary id operator left right =>
    rw [nodes, List.mem_cons, List.mem_append] at h
    rcases h with rfl | h | h
    · exact .inl rfl
    · exact .inr ⟨left, .left, h⟩
    · exact .inr ⟨right, .right, h⟩
  | unary id operator operand =>
    rw [nodes, List.mem_cons] at h
    exact h.imp_right fun h => ⟨operand, .operand, h⟩
  | call id aggregate name arguments window =>
    rw [nodes, List.mem_cons, List.mem_append, mem_nodesOfList, mem_nodesOfWindow?] at h
    rcases h with rfl | ⟨n, hn, h⟩ | ⟨window, rfl, h⟩
    · exact .inl rfl
    · exact .inr ⟨n, .argument hn, h⟩
    · rw [mem_nodesOfKeys, mem_nodesOfList, mem_nodesOfFrame?] at h
      rcases h with ⟨key, hkey, h⟩ | ⟨n, hn, h⟩ | ⟨frame, hframe, ⟨n, offset, h⟩ |
        ⟨bound, n, ends, offset, h⟩⟩
      · exact .inr ⟨key.expr, .sortKey hkey, h⟩
      · exact .inr ⟨n, .partition hn, h⟩
      · exact .inr ⟨n, .start hframe offset, h⟩
      · exact .inr ⟨n, .stop hframe ends offset, h⟩
  | list id items =>
    rw [nodes, List.mem_cons, mem_nodesOfList] at h
    exact h.imp_right fun ⟨n, hn, h⟩ => ⟨n, .item hn, h⟩
  | branches id operand cases otherwise =>
    rw [nodes, List.mem_cons, List.mem_append, List.mem_append, mem_nodesOf?, mem_nodesOfCases,
      mem_nodesOf?] at h
    rcases h with rfl | (⟨n, rfl, h⟩ | ⟨⟨condition, result⟩, hc, h | h⟩) | ⟨n, rfl, h⟩
    · exact .inl rfl
    · exact .inr ⟨n, .tested, h⟩
    · exact .inr ⟨condition, .condition hc, h⟩
    · exact .inr ⟨result, .result hc, h⟩
    · exact .inr ⟨n, .otherwise, h⟩
  | _ => exact .inl (List.mem_singleton.1 h)

theorem sizeOf_offset?_lt {bound : Bound Node} {n : Node} (h : bound.offset? = some n) :
    sizeOf n < sizeOf bound := by
  cases bound with
  | currentRow => cases h
  | preceding offset =>
    obtain rfl : offset = some n := h
    simp only [Bound.preceding.sizeOf_spec, Option.some.sizeOf_spec]
    omega
  | following offset =>
    obtain rfl : offset = some n := h
    simp only [Bound.following.sizeOf_spec, Option.some.sizeOf_spec]
    omega

theorem PartOf.sizeOf_lt {p n : Node} (h : PartOf p n) : sizeOf p < sizeOf n := by
  cases h with
  | left | right => simp only [binary.sizeOf_spec]; omega
  | operand => simp only [unary.sizeOf_spec]; omega
  | argument h =>
    have := List.sizeOf_lt_of_mem h
    simp only [call.sizeOf_spec]
    omega
  | @sortKey _ _ _ _ window key h =>
    obtain ⟨keys, partitions, frame⟩ := window
    obtain ⟨id, n, direction⟩ := key
    have := List.sizeOf_lt_of_mem h
    simp only [SortKey.mk.sizeOf_spec] at this
    simp only [call.sizeOf_spec, Option.some.sizeOf_spec, Window.mk.sizeOf_spec]
    omega
  | @partition _ _ _ _ window n h =>
    obtain ⟨keys, partitions, frame⟩ := window
    have := List.sizeOf_lt_of_mem h
    simp only [call.sizeOf_spec, Option.some.sizeOf_spec, Window.mk.sizeOf_spec] at this ⊢
    omega
  | @start _ _ _ _ window frame n h offset =>
    obtain ⟨keys, partitions, frame?⟩ := window
    obtain ⟨units, start, stop⟩ := frame
    obtain rfl : frame? = some _ := h
    have := sizeOf_offset?_lt offset
    simp only [call.sizeOf_spec, Option.some.sizeOf_spec, Window.mk.sizeOf_spec,
      Frame.mk.sizeOf_spec] at this ⊢
    omega
  | @stop _ _ _ _ window frame bound n h ends offset =>
    obtain ⟨keys, partitions, frame?⟩ := window
    obtain ⟨units, start, stop⟩ := frame
    obtain rfl : frame? = some _ := h
    obtain rfl : stop = some _ := ends
    have := sizeOf_offset?_lt offset
    simp only [call.sizeOf_spec, Option.some.sizeOf_spec, Window.mk.sizeOf_spec,
      Frame.mk.sizeOf_spec] at this ⊢
    omega
  | item h =>
    have := List.sizeOf_lt_of_mem h
    simp only [list.sizeOf_spec]
    omega
  | tested | otherwise => simp only [branches.sizeOf_spec, Option.some.sizeOf_spec]; omega
  | condition h | result h =>
    have := List.sizeOf_lt_of_mem h
    simp only [Prod.mk.sizeOf_spec] at this
    simp only [branches.sizeOf_spec]
    omega

/-- No tree is a part of its own parts, so an induction may go from the parts of a tree to it. -/
theorem wellFounded_partOf : WellFounded PartOf :=
  Subrelation.wf PartOf.sizeOf_lt (measure sizeOf).wf

/-- **A walk lists a tree and all that stands below it**, at any depth. -/
theorem mem_nodes_iff_reflTransGen {m n : Node} : m ∈ n.nodes ↔ ReflTransGen PartOf m n := by
  constructor
  · intro h
    induction n using wellFounded_partOf.induction with
    | _ n ih =>
      rcases exists_partOf_of_mem_nodes h with rfl | ⟨p, hp, h⟩
      · exact .refl
      · exact (ih p hp h).tail hp
  · intro h
    induction h with
    | refl => exact mem_nodes_self m
    | tail _ hp ih => exact hp.nodes_subset ih

/-- Whether a column of some name stands anywhere in a tree. -/
def HasColumn (n : Node) (name : String) : Prop :=
  ∃ id table column, ReflTransGen PartOf (.column id table column) n ∧
    columnAlias table column = name

/-- The columns of a tree are those that stand anywhere in it. -/
theorem mem_columns_iff_hasColumn {n : Node} {name : String} :
    name ∈ n.columns ↔ n.HasColumn name := by
  unfold columns HasColumn
  rw [List.mem_filterMap]
  constructor
  · rintro ⟨m, hm, named⟩
    cases m with
    | column id table column =>
      exact ⟨id, table, column, mem_nodes_iff_reflTransGen.1 hm, Option.some.inj named⟩
    | _ => cases named
  · rintro ⟨id, table, column, below, rfl⟩
    exact ⟨_, mem_nodes_iff_reflTransGen.2 below, rfl⟩

end Node

end DashCalc
