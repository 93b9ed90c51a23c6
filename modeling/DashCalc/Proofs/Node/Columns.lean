import DashCalc.Node.OfSql
import DashCalc.Node.Walk
import Mathlib.Data.List.Perm.Basic

/-!
# Columns that a tree keeps

`Expr.content` collects all columns that an expression names, those of them that stand in parts a
tree leaves out, and the kinds of parts that have no tree. An expression is refused for the first
such kind, and otherwise the columns of its tree are all it names without what is left out
(`Node.conserves_ofExpr`). Left out are the characters that `TRIM` removes, what stands in the
clauses of a call, and everything in a statement but its selected expression: nothing of this is
refused, so its columns are lost (`Node.ofSql_columns`, `Node.ofSql_trim`).
-/

namespace DashCalc

/-- The columns and the unsupported parts of something read. -/
structure Content where
  /-- The columns named anywhere in it. -/
  named : List String := []
  /-- Those of them that are named in a part which a tree leaves out. -/
  omitted : List String := []
  /-- The kinds of the parts that have no tree, in the order in which building comes to them. -/
  unsupported : List String := []

namespace Content

instance : Append Content :=
  ⟨fun c d => ⟨c.named ++ d.named, c.omitted ++ d.omitted, c.unsupported ++ d.unsupported⟩⟩

def column (name : String) : Content := { named := [name] }

/-- A part of a kind that has no tree. -/
def refused (kind : String) : Content := { unsupported := [kind] }

/-- A part that is left out, whatever it is made of. -/
def aside (c : Content) : Content := { named := c.named, omitted := c.named }

theorem named_append (c d : Content) : (c ++ d).named = c.named ++ d.named := rfl

theorem omitted_append (c d : Content) : (c ++ d).omitted = c.omitted ++ d.omitted := rfl

theorem unsupported_append (c d : Content) :
    (c ++ d).unsupported = c.unsupported ++ d.unsupported := rfl

theorem append_empty (c : Content) : c ++ {} = c := by
  show (⟨c.named ++ [], c.omitted ++ [], c.unsupported ++ []⟩ : Content) = c
  rw [List.append_nil, List.append_nil, List.append_nil]

end Content

/-! ## What is read -/

namespace Sql

mutual

/-- What an expression names. The parts of a tree come before what is left out beside them. -/
def Expr.content : Expr → Content
  | .nested inner => inner.content
  | .name qualifiers column => .column (Node.columnAlias (Node.qualifier qualifiers) column)
  | .literal (.other shown) => .refused ("Value::" ++ shown)
  | .literal _ => {}
  | .binary _ left right => left.content ++ right.content
  | .unary _ operand => operand.content
  | .among _ tested values => tested.content ++ contentOfExprs values
  | .tuple items => contentOfExprs items
  | .call _ arguments clauses window =>
    contentOfArguments arguments ++ contentOfOver? window ++ (contentOfExprs clauses).aside
  | .callOfQuery _ parts => .refused "Subquery" ++ (contentOfExprs parts).aside
  | .builtin _ arguments clauses => contentOfExprs arguments ++ (contentOfExprs clauses).aside
  | .branches operand cases otherwise =>
    contentOf? operand ++ (contentOfCases cases ++ contentOf? otherwise)
  | .other kind parts => .refused kind ++ (contentOfExprs parts).aside

def contentOfExprs : List Expr → Content
  | [] => {}
  | e :: es => e.content ++ contentOfExprs es

def contentOf? : Option Expr → Content
  | none => {}
  | some e => e.content

def contentOfArguments : List (Argument Expr) → Content
  | [] => {}
  | argument :: arguments => contentOfArgument argument ++ contentOfArguments arguments

def contentOfArgument : Argument Expr → Content
  | .expr e => e.content
  | .star => {}
  | .starOf _ => .refused "QualifiedWildcard"

def contentOfCases : List (Expr × Expr) → Content
  | [] => {}
  | (condition, result) :: cases => condition.content ++ (result.content ++ contentOfCases cases)

def contentOfOver? : Option (Over (Expr × Direction) Expr) → Content
  | none => {}
  | some (.named _) => .refused "NamedWindow"
  | some (.window ⟨sortKeys, partitions, frame⟩) =>
    contentOfSortKeys sortKeys ++ (contentOfExprs partitions ++ contentOfFrame? frame)

def contentOfSortKeys : List (Expr × Direction) → Content
  | [] => {}
  | (e, _) :: keys => e.content ++ contentOfSortKeys keys

def contentOfFrame? : Option (Frame Expr) → Content
  | none => {}
  | some ⟨_, start, stop⟩ => contentOfBound start ++ contentOfBound? stop

def contentOfBound : Bound Expr → Content
  | .currentRow => {}
  | .preceding offset => contentOf? offset
  | .following offset => contentOf? offset

def contentOfBound? : Option (Bound Expr) → Content
  | none => {}
  | some bound => contentOfBound bound

end

def Item.content : Item → Content
  | expr e => e.content
  | star => {}

/-- Of a selection, the clauses are left out. -/
def Body.content : Body → Content
  | select s =>
    s.items.foldr (fun item c => item.content ++ c) {} ++ (contentOfExprs s.clauses).aside
  | other parts => (contentOfExprs parts).aside

/-- What a query names anywhere. -/
def Query.content (q : Query) : Content := q.body.content ++ (contentOfExprs q.clauses).aside

end Sql

open Sql (Argument Bound Direction Expr Frame Literal Over Query Select Statement Window)

/-! ## What is built -/

/-- Whether the columns in what is built are those that were there before and all that are named,
without those left out, and whether building fails only for the first kind that has no tree. -/
def Conserves {α : Type} (build : Lowering α) (before : List String) (content : Content)
    (columns : α → List String) : Prop :=
  ∀ first, match (build.run first).1 with
    | .ok a => content.unsupported = [] ∧
        (before ++ content.named).Perm (columns a ++ content.omitted)
    | .error kind => content.unsupported.head? = some kind

namespace Conserves

variable {α β : Type} {before : List String} {content : Content} {columns : α → List String}

theorem pure {a : α} (h : columns a = before) : Conserves (pure a) before {} columns := by
  intro first
  show ([] : List String) = [] ∧ (before ++ []).Perm (columns a ++ [])
  rw [h]
  exact ⟨rfl, .refl _⟩

theorem throw (kind : String) (content : Content) :
    Conserves (throw kind) before (.refused kind ++ content) columns := fun _ => rfl

/-- One part after the other. -/
theorem bind {build : Lowering β} {next : β → Lowering α} {content' : Content}
    {part : β → List String} (h : Conserves build [] content part)
    (h' : ∀ b, Conserves (next b) (before ++ part b) content' columns) :
    Conserves (build >>= next) before (content ++ content') columns := by
  intro first
  have hb := h first
  rw [Lowering.run_bind]
  rcases hrun : build.run first with ⟨kind | b, middle⟩ <;> rw [hrun] at hb <;> dsimp only at hb ⊢
  · rw [Content.unsupported_append, List.head?_append, hb]
    rfl
  · obtain ⟨supported, kept⟩ := hb
    have ha := h' b middle
    rcases hrun : (next b).run middle with ⟨kind | a, last⟩ <;> rw [hrun] at ha <;>
      dsimp only at ha ⊢
    · rw [Content.unsupported_append, supported]
      exact ha
    · obtain ⟨supported', kept'⟩ := ha
      refine ⟨?_, ?_⟩
      · rw [Content.unsupported_append, supported, supported', List.append_nil]
      · rw [List.perm_iff_count] at kept kept' ⊢
        intro name
        have count := kept name
        have count' := kept' name
        simp only [Content.named_append, Content.omitted_append, List.count_append,
          List.nil_append] at count count' ⊢
        omega

/-- An id holds no columns. -/
theorem fresh_bind {next : NodeId → Lowering α}
    (h : ∀ id, Conserves (next id) before content columns) :
    Conserves (Node.fresh >>= next) before content columns := by
  intro first
  exact h (UInt32.ofNat first) (first + 1)

/-- The last part, and what is made of it and those before. -/
theorem last {build : Lowering β} {make : β → α} {part : β → List String}
    (h : Conserves build [] content part) (hmake : ∀ b, columns (make b) = before ++ part b) :
    Conserves (build >>= fun b => Pure.pure (make b)) before content columns := by
  rw [← Content.append_empty content]
  exact h.bind fun b => .pure (hmake b)

/-- What is left out beside the parts of a tree. -/
theorem aside {build : Lowering α} (h : Conserves build before content columns) (more : Content) :
    Conserves build before (content ++ more.aside) columns := by
  intro first
  have ha := h first
  rcases hrun : build.run first with ⟨kind | a, last⟩ <;> rw [hrun] at ha <;> dsimp only at ha ⊢
  · rw [Content.unsupported_append, List.head?_append, ha]
    rfl
  · obtain ⟨supported, kept⟩ := ha
    refine ⟨?_, ?_⟩
    · rw [Content.unsupported_append, supported]
      rfl
    · rw [Content.named_append, Content.omitted_append, ← List.append_assoc, ← List.append_assoc]
      exact kept.append_right _

end Conserves

namespace Node

open Conserves (fresh_bind)

/-- The columns that a part of a tree refers to. -/
def columnsIn {α : Type} (nodesIn : α → List Node) (a : α) : List String :=
  (nodesIn a).filterMap column?

theorem columns_binary (id : NodeId) (operator : String) (left right : Node) :
    (binary id operator left right).columns = left.columns ++ right.columns := by
  simp [columns, nodes, List.filterMap_cons, column?]

theorem columns_unary (id : NodeId) (operator : String) (operand : Node) :
    (unary id operator operand).columns = operand.columns := by
  simp [columns, nodes, List.filterMap_cons, column?]

theorem columns_list (id : NodeId) (items : List Node) :
    (list id items).columns = columnsIn nodesOfList items := by
  simp [columns, columnsIn, nodes, List.filterMap_cons, column?]

theorem columns_call (id : NodeId) (aggregate : Bool) (name : String) (arguments : List Node)
    (window : Option (Window (SortKey Node) Node)) :
    (call id aggregate name arguments window).columns =
      columnsIn nodesOfList arguments ++ columnsIn nodesOfWindow? window := by
  simp [columns, columnsIn, nodes, List.filterMap_cons, column?]

theorem columns_branches (id : NodeId) (operand : Option Node) (cases : List (Node × Node))
    (otherwise : Option Node) : (branches id operand cases otherwise).columns =
      columnsIn nodesOf? operand ++ columnsIn nodesOfCases cases ++ columnsIn nodesOf? otherwise := by
  simp [columns, columnsIn, nodes, List.filterMap_cons, column?]

theorem conserves_ofLiteral (value : Literal) :
    Conserves (ofLiteral value) [] (Expr.literal value).content columns := by
  cases value with
  | other shown => exact .throw _ {}
  | _ => exact fresh_bind fun _ => .pure rfl

mutual

/-- A tree that is built refers to what its expression names, without what is left out. -/
theorem conserves_ofExpr : ∀ e : Expr, Conserves (ofExpr e) [] e.content columns
  | .nested inner => conserves_ofExpr inner
  | .name _ _ => fun _ => ⟨rfl, .refl _⟩
  | .literal value => conserves_ofLiteral value
  | .binary _ left right =>
    fresh_bind fun _ => (conserves_ofExpr left).bind fun _ => (conserves_ofExpr right).last
      fun _ => columns_binary ..
  | .unary _ operand =>
    fresh_bind fun _ => (conserves_ofExpr operand).last fun _ => columns_unary ..
  | .among _ tested values =>
    fresh_bind fun _ => (conserves_ofExpr tested).bind fun _ => fresh_bind fun _ =>
      (conserves_ofExprs values).last fun _ => by rw [columns_binary, columns_list]; rfl
  | .tuple items =>
    fresh_bind fun _ => (conserves_ofExprs items).last fun _ => columns_list ..
  | .call _ arguments clauses window =>
    .aside (fresh_bind fun _ => (conserves_ofArguments arguments).bind fun _ =>
      (conserves_ofOver? window).last fun _ => columns_call ..) (Sql.contentOfExprs clauses)
  | .callOfQuery _ parts => fresh_bind fun _ => .throw _ _
  | .builtin _ arguments clauses =>
    .aside (fresh_bind fun _ => (conserves_ofExprs arguments).last fun _ => by
      rw [columns_call]; exact List.append_nil _) (Sql.contentOfExprs clauses)
  | .branches operand cases otherwise =>
    fresh_bind fun _ => (conserves_ofExpr? operand).bind fun _ =>
      (conserves_ofCases cases).bind fun _ => (conserves_ofExpr? otherwise).last
        fun _ => columns_branches ..
  | .other _ _ => .throw _ _

theorem conserves_ofExprs : ∀ es : List Expr,
    Conserves (ofExprs es) [] (Sql.contentOfExprs es) (columnsIn nodesOfList)
  | [] => .pure rfl
  | e :: es =>
    (conserves_ofExpr e).bind fun _ => (conserves_ofExprs es).last fun _ => by
      simp [columns, columnsIn, nodesOfList]

theorem conserves_ofExpr? : ∀ e : Option Expr,
    Conserves (ofExpr? e) [] (Sql.contentOf? e) (columnsIn nodesOf?)
  | none => .pure rfl
  | some e => (conserves_ofExpr e).last fun _ => rfl

theorem conserves_ofArguments : ∀ arguments : List (Argument Expr),
    Conserves (ofArguments arguments) [] (Sql.contentOfArguments arguments)
      (columnsIn nodesOfList)
  | [] => .pure rfl
  | argument :: arguments =>
    (conserves_ofArgument argument).bind fun _ => (conserves_ofArguments arguments).last
      fun _ => by simp [columns, columnsIn, nodesOfList]

theorem conserves_ofArgument : ∀ argument : Argument Expr,
    Conserves (ofArgument argument) [] (Sql.contentOfArgument argument) columns
  | .expr e => conserves_ofExpr e
  | .star => fresh_bind fun _ => .pure rfl
  | .starOf _ => .throw _ {}

theorem conserves_ofCases : ∀ cases : List (Expr × Expr),
    Conserves (ofCases cases) [] (Sql.contentOfCases cases) (columnsIn nodesOfCases)
  | [] => .pure rfl
  | (condition, result) :: cases =>
    (conserves_ofExpr condition).bind fun _ => (conserves_ofExpr result).bind fun _ =>
      (conserves_ofCases cases).last fun _ => by simp [columns, columnsIn, nodesOfCases]

theorem conserves_ofOver? : ∀ window : Option (Over (Expr × Direction) Expr),
    Conserves (ofOver? window) [] (Sql.contentOfOver? window) (columnsIn nodesOfWindow?)
  | none => .pure rfl
  | some (.named _) => .throw _ {}
  | some (.window ⟨sortKeys, partitions, frame⟩) =>
    (conserves_ofSortKeys sortKeys).bind fun _ => (conserves_ofExprs partitions).bind fun _ =>
      (conserves_ofFrame? frame).last fun _ => by simp [columnsIn, nodesOfWindow?]

theorem conserves_ofSortKeys : ∀ keys : List (Expr × Direction),
    Conserves (ofSortKeys keys) [] (Sql.contentOfSortKeys keys) (columnsIn nodesOfKeys)
  | [] => .pure rfl
  | (e, _) :: keys =>
    fresh_bind fun _ => (conserves_ofExpr e).bind fun _ => (conserves_ofSortKeys keys).last
      fun _ => by simp [columns, columnsIn, nodesOfKeys]

theorem conserves_ofFrame? : ∀ frame : Option (Frame Expr),
    Conserves (ofFrame? frame) [] (Sql.contentOfFrame? frame) (columnsIn nodesOfFrame?)
  | none => .pure rfl
  | some ⟨_, start, stop⟩ =>
    (conserves_ofBound start).bind fun _ => (conserves_ofBound? stop).last fun _ => by
      simp [columnsIn, nodesOfFrame?]

theorem conserves_ofBound : ∀ bound : Bound Expr,
    Conserves (ofBound bound) [] (Sql.contentOfBound bound) (columnsIn nodesOfBound)
  | .currentRow => .pure rfl
  | .preceding offset => (conserves_ofExpr? offset).last fun _ => rfl
  | .following offset => (conserves_ofExpr? offset).last fun _ => rfl

theorem conserves_ofBound? : ∀ bound : Option (Bound Expr),
    Conserves (ofBound? bound) [] (Sql.contentOfBound? bound) (columnsIn nodesOfBound?)
  | none => .pure rfl
  | some bound => (conserves_ofBound bound).last fun _ => rfl

end

/-! ## Texts -/

/-- A selected expression is all that is built of a query, whatever stands in its clauses. -/
theorem conserves_selected {statements : List Statement} {e : Expr}
    (h : selected statements = .ok e) : ∃ q, statements = [.query q] ∧
      Conserves (ofExpr e) [] q.content columns := by
  unfold selected at h
  split at h
  · next s clauses =>
    split at h
    · split at h
      · refine ⟨_, rfl, .aside (.aside ?_ (Sql.contentOfExprs s.clauses))
          (Sql.contentOfExprs clauses)⟩
        unfold onlyItem at h
        split at h
        · next items =>
          cases h
          rw [items]
          show Conserves (ofExpr e) [] (e.content ++ {}) _
          rw [Content.append_empty]
          exact conserves_ofExpr e
        · cases h
        · cases h
      · cases h
    · cases h
  all_goals cases h

/-- **A tree keeps the columns of what it is built from, without those of the parts that are left
out.** If a text has a tree, all columns that the text names are the columns of the tree and those
of the parts left out, so none is lost only if those are columns of the tree as well. A text with a
part that has no tree is refused, unless that part is left out, and it is refused for the first such
part if it has the shape that is asked for. -/
theorem ofSql_columns (sql : String) (first : Nat) :
    (∀ n last, ofSql sql first = (.ok n, last) → ∃ q : Query, Sql.parse sql = .ok [.query q] ∧
      q.content.unsupported = [] ∧ q.content.named.Perm (n.columns ++ q.content.omitted) ∧
      ((∀ c ∈ q.content.named, c ∈ n.columns) ↔ ∀ c ∈ q.content.omitted, c ∈ n.columns)) ∧
    ∀ (q : Query) (kind : String), Sql.parse sql = .ok [.query q] →
      q.content.unsupported.head? = some kind →
        (∃ misshape, selected [.query q] = .error misshape ∧
          ofSql sql first = (.error ⟨sql, .shape misshape⟩, first)) ∨
        (ofSql sql first).1 = .error ⟨sql, .unsupported kind⟩ := by
  constructor
  · intro n last h
    unfold ofSql at h
    split at h
    · cases h
    · next statements parsed =>
      split at h
      · cases h
      · next e select =>
        obtain ⟨q, rfl, conserves⟩ := conserves_selected select
        have kept := conserves first
        split at h
        · next m count built =>
          cases h
          rw [built] at kept
          obtain ⟨supported, kept⟩ := kept
          rw [List.nil_append] at kept
          refine ⟨q, parsed, supported, kept, fun all c hc => ?_, fun all c hc => ?_⟩
          · exact all c (kept.mem_iff.2 (List.mem_append_right _ hc))
          · rcases List.mem_append.1 (kept.mem_iff.1 hc) with hc | hc
            · exact hc
            · exact all c hc
        · cases h
  · intro q kind parsed unsupported
    unfold ofSql
    rw [parsed]
    dsimp only
    cases select : selected [.query q] with
    | error misshape => exact .inl ⟨misshape, rfl, rfl⟩
    | ok e =>
      refine .inr ?_
      obtain ⟨q', same, conserves⟩ := conserves_selected select
      cases same
      have kept := conserves first
      dsimp only
      rcases hrun : (ofExpr e).run first with ⟨kind' | n, last⟩ <;> rw [hrun] at kept <;>
        dsimp only at kept ⊢
      · rw [Option.some.inj (kept.symm.trans unsupported)]
      · rw [kept.1] at unsupported
        cases unsupported

/-- The query of a text that is one statement. -/
def onlyQuery? (sql : String) : Option Query :=
  match Sql.parse sql with
  | .ok [.query q] => some q
  | _ => none

theorem onlyQuery?_eq_some {sql : String} {q : Query} (h : onlyQuery? sql = some q) :
    Sql.parse sql = .ok [.query q] := by
  unfold onlyQuery? at h
  split at h
  · next parsed =>
    cases h
    exact parsed
  · cases h

/-- A text with an ordering in a call and a condition. -/
def orderingText : String := "SELECT GROUP_CONCAT(a ORDER BY b) + c FROM DUAL WHERE d"

/-- A text with a window that has a name. -/
def namedWindowText : String := "SELECT SUM(a) OVER w FROM DUAL"

/-- A sum keeps its columns, but not those of an ordering in a call and of a condition of the
statement. The name of a window is refused. -/
theorem ofSql_columns_ordering :
    (∃ q n last, Sql.parse orderingText = .ok [.query q] ∧
      ofSql orderingText 0 = (.ok n, last) ∧ n.columns = ["a", "c"] ∧
      q.content.named.Perm (["a", "c"] ++ ["b", "d"])) ∧
    (ofSql namedWindowText 0).1 = .error ⟨namedWindowText, .unsupported "NamedWindow"⟩ := by
  obtain ⟨kept, -⟩ := ofSql_columns orderingText 0
  obtain ⟨-, refused⟩ := ofSql_columns namedWindowText 0
  constructor
  · have built : (ofSql orderingText 0).1.toOption.map columns = some ["a", "c"] := by
      decide +kernel
    have omitted : (onlyQuery? orderingText).map (·.content.omitted) = some ["b", "d"] := by
      decide +kernel
    rcases hread : ofSql orderingText 0 with ⟨refusal | n, last⟩ <;> rw [hread] at built
    · cases built
    · obtain ⟨q, parsed, -, named, -⟩ := kept n last hread
      obtain ⟨q', read, omitted⟩ := Option.map_eq_some_iff.1 omitted
      have same := parsed.symm.trans (onlyQuery?_eq_some read)
      cases same
      have columns : n.columns = ["a", "c"] := Option.some.inj built
      rw [columns, omitted] at named
      exact ⟨q, n, last, parsed, rfl, columns, named⟩
  · have read : (onlyQuery? namedWindowText).map (fun q => (q.content.unsupported.head?,
        (selected [.query q]).toOption.isSome)) = some (some "NamedWindow", true) := by
      decide +kernel
    obtain ⟨q, read, seen⟩ := Option.map_eq_some_iff.1 read
    obtain ⟨unsupported, select⟩ := Prod.mk.inj seen
    rcases refused q "NamedWindow" (onlyQuery?_eq_some read) unsupported with
      ⟨misshape, shape, -⟩ | refused
    · rw [shape] at select
      cases select
    · exact refused

/-- The characters that are trimmed are left out, so a column that stands for them is lost. -/
theorem ofSql_trim : ∃ q n last,
    Sql.parse "SELECT (TRIM(a FROM b)) AS expr FROM DUAL" = .ok [.query q] ∧
      ofSql "SELECT (TRIM(a FROM b)) AS expr FROM DUAL" 0 = (.ok n, last) ∧
      "a" ∈ q.content.named ∧ "a" ∉ n.columns := by
  let text : String := "SELECT (TRIM(a FROM b)) AS expr FROM DUAL"
  have read : (onlyQuery? text).map (·.content.named) = some ["b", "a"] := by decide +kernel
  have built : (ofSql text 0).1.toOption.map columns = some ["b"] := by decide +kernel
  obtain ⟨q, read, named⟩ := Option.map_eq_some_iff.1 read
  rcases hread : ofSql text 0 with ⟨refusal | n, last⟩ <;> rw [hread] at built
  · cases built
  · refine ⟨q, n, last, onlyQuery?_eq_some read, rfl, by simp [named], ?_⟩
    have columns : n.columns = ["b"] := Option.some.inj built
    simp [columns]

end Node

end DashCalc
