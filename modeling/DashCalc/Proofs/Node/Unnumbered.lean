import DashCalc.Expression.Basic

/-!
# Trees apart from their ids

The ids of a tree depend on how many were taken before it was built, the rest of it does not:
whatever was taken, a text is refused for the same cause or has the same tree apart from the ids
(`Node.ofSql_unnumbered`), and so has an expression that is read (`Expression.read_unnumbered`).
-/

namespace DashCalc

open Sql (Argument Bound Direction Expr Frame Literal Over Window)

/-! ## Without ids -/

namespace Node

mutual

/-- The tree with all its ids zero. -/
def unnumbered : Node → Node
  | binary _ operator left right => binary 0 operator (unnumbered left) (unnumbered right)
  | unary _ operator operand => unary 0 operator (unnumbered operand)
  | call _ aggregate name arguments window =>
    call 0 aggregate name (unnumberedList arguments) (unnumberedWindow? window)
  | column _ table name => column 0 table name
  | number _ digits => number 0 digits
  | text _ value => text 0 value
  | bool _ value => bool 0 value
  | null _ => null 0
  | star _ => star 0
  | list _ items => list 0 (unnumberedList items)
  | branches _ operand cases otherwise =>
    branches 0 (unnumbered? operand) (unnumberedCases cases) (unnumbered? otherwise)

def unnumberedList : List Node → List Node
  | [] => []
  | n :: ns => unnumbered n :: unnumberedList ns

def unnumbered? : Option Node → Option Node
  | none => none
  | some n => some (unnumbered n)

def unnumberedCases : List (Node × Node) → List (Node × Node)
  | [] => []
  | (condition, result) :: cases =>
    (unnumbered condition, unnumbered result) :: unnumberedCases cases

def unnumberedWindow? : Option (Window (SortKey Node) Node) → Option (Window (SortKey Node) Node)
  | none => none
  | some ⟨sortKeys, partitions, frame⟩ =>
    some ⟨unnumberedKeys sortKeys, unnumberedList partitions, unnumberedFrame? frame⟩

def unnumberedKeys : List (SortKey Node) → List (SortKey Node)
  | [] => []
  | ⟨_, expr, direction⟩ :: keys => ⟨0, unnumbered expr, direction⟩ :: unnumberedKeys keys

def unnumberedFrame? : Option (Frame Node) → Option (Frame Node)
  | none => none
  | some ⟨units, start, stop⟩ => some ⟨units, unnumberedBound start, unnumberedBound? stop⟩

def unnumberedBound : Bound Node → Bound Node
  | .currentRow => .currentRow
  | .preceding offset => .preceding (unnumbered? offset)
  | .following offset => .following (unnumbered? offset)

def unnumberedBound? : Option (Bound Node) → Option (Bound Node)
  | none => none
  | some bound => some (unnumberedBound bound)

end

end Node

/-! ## Building with different ids -/

/-- Whether two ways of building, whatever ids they take, fail alike or build what looks the same in
a view. -/
def Alike {α β : Type} (view : α → β) (build build' : Lowering α) : Prop :=
  ∀ first first', (build.run first).1.map view = (build'.run first').1.map view

namespace Alike

variable {α β γ δ : Type} {view : α → β}

theorem pure {a a' : α} (h : view a = view a') : Alike view (pure a) (pure a') :=
  fun _ _ => congrArg Except.ok h

theorem throw (kind : String) : Alike view (throw kind) (throw kind) := fun _ _ => rfl

/-- One part after the other: the first parts look the same, and what comes next does if they do. -/
theorem bind {build build' : Lowering γ} {next next' : γ → Lowering α} {part : γ → δ}
    (h : Alike part build build')
    (h' : ∀ c c', part c = part c' → Alike view (next c) (next' c')) :
    Alike view (build >>= next) (build' >>= next') := by
  intro first first'
  have same := h first first'
  rw [Lowering.run_bind, Lowering.run_bind]
  generalize build.run first = done, build'.run first' = done' at same ⊢
  obtain ⟨kind | c, middle⟩ := done <;> obtain ⟨kind' | c', middle'⟩ := done' <;>
    simp only [Except.map, Except.ok.injEq, Except.error.injEq, reduceCtorEq] at same
  · exact congrArg Except.error same
  · exact h' c c' same middle middle'

/-- One id and what comes next. -/
theorem fresh_bind {next next' : NodeId → Lowering α}
    (h : ∀ id id', Alike view (next id) (next' id')) :
    Alike view (Node.fresh >>= next) (Node.fresh >>= next') :=
  have taken : Alike (fun _ => ()) Node.fresh Node.fresh := fun _ _ => rfl
  taken.bind fun id id' _ => h id id'

end Alike

namespace Node

open Alike (fresh_bind)

theorem alike_ofLiteral (value : Literal) :
    Alike unnumbered (ofLiteral value) (ofLiteral value) := by
  cases value with
  | other shown => exact .throw _
  | _ => exact fresh_bind fun _ _ => .pure rfl

mutual

/-- The ids that were taken before have no part in a tree apart from its ids. -/
theorem alike_ofExpr : ∀ e : Expr, Alike unnumbered (ofExpr e) (ofExpr e)
  | .nested inner => alike_ofExpr inner
  | .name _ _ => fresh_bind fun _ _ => .pure rfl
  | .literal value => alike_ofLiteral value
  | .binary _ left right =>
    fresh_bind fun _ _ => (alike_ofExpr left).bind fun _ _ hleft =>
      (alike_ofExpr right).bind fun _ _ hright => .pure (by simp [unnumbered, hleft, hright])
  | .unary _ operand =>
    fresh_bind fun _ _ => (alike_ofExpr operand).bind fun _ _ h => .pure (by simp [unnumbered, h])
  | .among _ tested values =>
    fresh_bind fun _ _ => (alike_ofExpr tested).bind fun _ _ htested => fresh_bind fun _ _ =>
      (alike_ofExprs values).bind fun _ _ hvalues =>
        .pure (by simp [unnumbered, htested, hvalues])
  | .tuple items =>
    fresh_bind fun _ _ => (alike_ofExprs items).bind fun _ _ h => .pure (by simp [unnumbered, h])
  | .call _ arguments _ window =>
    fresh_bind fun _ _ => (alike_ofArguments arguments).bind fun _ _ harguments =>
      (alike_ofOver? window).bind fun _ _ hwindow =>
        .pure (by simp [unnumbered, harguments, hwindow])
  | .callOfQuery _ _ => fresh_bind fun _ _ => .throw _
  | .builtin _ arguments _ =>
    fresh_bind fun _ _ => (alike_ofExprs arguments).bind fun _ _ h =>
      .pure (by simp [unnumbered, h])
  | .branches operand cases otherwise =>
    fresh_bind fun _ _ => (alike_ofExpr? operand).bind fun _ _ hoperand =>
      (alike_ofCases cases).bind fun _ _ hcases => (alike_ofExpr? otherwise).bind fun _ _ h =>
        .pure (by simp [unnumbered, hoperand, hcases, h])
  | .other _ _ => .throw _

theorem alike_ofExprs : ∀ es : List Expr, Alike unnumberedList (ofExprs es) (ofExprs es)
  | [] => .pure rfl
  | e :: es =>
    (alike_ofExpr e).bind fun _ _ h => (alike_ofExprs es).bind fun _ _ hs =>
      .pure (by simp [unnumberedList, h, hs])

theorem alike_ofExpr? : ∀ e : Option Expr, Alike unnumbered? (ofExpr? e) (ofExpr? e)
  | none => .pure rfl
  | some e => (alike_ofExpr e).bind fun _ _ h => .pure (congrArg some h)

theorem alike_ofArguments : ∀ arguments : List (Argument Expr),
    Alike unnumberedList (ofArguments arguments) (ofArguments arguments)
  | [] => .pure rfl
  | argument :: arguments =>
    (alike_ofArgument argument).bind fun _ _ h => (alike_ofArguments arguments).bind fun _ _ hs =>
      .pure (by simp [unnumberedList, h, hs])

theorem alike_ofArgument : ∀ argument : Argument Expr,
    Alike unnumbered (ofArgument argument) (ofArgument argument)
  | .expr e => alike_ofExpr e
  | .star => fresh_bind fun _ _ => .pure rfl
  | .starOf _ => .throw _

theorem alike_ofCases : ∀ cases : List (Expr × Expr),
    Alike unnumberedCases (ofCases cases) (ofCases cases)
  | [] => .pure rfl
  | (condition, result) :: cases =>
    (alike_ofExpr condition).bind fun _ _ hcondition =>
      (alike_ofExpr result).bind fun _ _ hresult =>
        (alike_ofCases cases).bind fun _ _ h =>
          .pure (by simp [unnumberedCases, hcondition, hresult, h])

theorem alike_ofOver? : ∀ window : Option (Over (Expr × Direction) Expr),
    Alike unnumberedWindow? (ofOver? window) (ofOver? window)
  | none => .pure rfl
  | some (.named _) => .throw _
  | some (.window ⟨sortKeys, partitions, frame⟩) =>
    (alike_ofSortKeys sortKeys).bind fun _ _ hkeys => (alike_ofExprs partitions).bind fun _ _ h =>
      (alike_ofFrame? frame).bind fun _ _ hframe =>
        .pure (by simp [unnumberedWindow?, hkeys, h, hframe])

theorem alike_ofSortKeys : ∀ keys : List (Expr × Direction),
    Alike unnumberedKeys (ofSortKeys keys) (ofSortKeys keys)
  | [] => .pure rfl
  | (e, _) :: keys =>
    fresh_bind fun _ _ => (alike_ofExpr e).bind fun _ _ h =>
      (alike_ofSortKeys keys).bind fun _ _ hs =>
        .pure (by simp [unnumberedKeys, h, hs])

theorem alike_ofFrame? : ∀ frame : Option (Frame Expr),
    Alike unnumberedFrame? (ofFrame? frame) (ofFrame? frame)
  | none => .pure rfl
  | some ⟨_, start, stop⟩ =>
    (alike_ofBound start).bind fun _ _ hstart => (alike_ofBound? stop).bind fun _ _ hstop =>
      .pure (by simp [unnumberedFrame?, hstart, hstop])

theorem alike_ofBound : ∀ bound : Bound Expr,
    Alike unnumberedBound (ofBound bound) (ofBound bound)
  | .currentRow => .pure rfl
  | .preceding offset =>
    (alike_ofExpr? offset).bind fun _ _ h => .pure (congrArg Bound.preceding h)
  | .following offset =>
    (alike_ofExpr? offset).bind fun _ _ h => .pure (congrArg Bound.following h)

theorem alike_ofBound? : ∀ bound : Option (Bound Expr),
    Alike unnumberedBound? (ofBound? bound) (ofBound? bound)
  | none => .pure rfl
  | some bound => (alike_ofBound bound).bind fun _ _ h => .pure (congrArg some h)

end

/-- Whatever was taken before, a SQL text is refused alike or has the same tree apart from ids. -/
theorem ofSql_unnumbered (sql : String) (taken taken' : Nat) :
    (ofSql sql taken).1.map unnumbered = (ofSql sql taken').1.map unnumbered := by
  unfold ofSql
  cases Sql.parse sql with
  | error failure => rfl
  | ok statements =>
    dsimp only
    cases selected statements with
    | error misshape => rfl
    | ok e =>
      dsimp only
      have same := alike_ofExpr e taken taken'
      generalize (ofExpr e).run taken = done, (ofExpr e).run taken' = done' at same ⊢
      obtain ⟨kind | n, last⟩ := done <;> obtain ⟨kind' | n', last'⟩ := done' <;>
        simp only [Except.map, Except.ok.injEq, Except.error.injEq, reduceCtorEq] at same
      · rw [same]
      · exact congrArg Except.ok same

end Node

/-! ## Expressions apart from ids -/

/-- What was read, apart from ids. -/
def Reading.unnumbered : Reading → Reading
  | .unread => .unread
  | .tree n => .tree n.unnumbered
  | .refused r => .refused r

namespace Expression

/-- The expression with all the ids of its tree zero. -/
def unnumbered (e : Expression) : Expression := { e with reading := e.reading.unnumbered }

theorem tree?_unnumbered (e : Expression) : e.unnumbered.tree? = e.tree?.map Node.unnumbered := by
  unfold tree? unnumbered
  cases e.reading <;> rfl

/-- Whatever was taken before, an expression is read alike apart from ids. -/
theorem read_unnumbered (e : Expression) (taken taken' : Nat) :
    (e.read taken).1.unnumbered = (e.read taken').1.unnumbered := by
  have same := Node.ofSql_unnumbered (Node.sqlOfFormula e.formula) taken taken'
  unfold read Node.ofFormula
  generalize Node.ofSql (Node.sqlOfFormula e.formula) taken = done,
    Node.ofSql (Node.sqlOfFormula e.formula) taken' = done' at same ⊢
  obtain ⟨r | n, last⟩ := done <;> obtain ⟨r' | n', last'⟩ := done' <;>
    simp only [Except.map, Except.ok.injEq, Except.error.injEq, reduceCtorEq] at same
  · rw [same]
  · simp only [unnumbered, Reading.unnumbered, same]

end Expression

end DashCalc
