import DashCalc.Proofs.Request.Accounting
import DashCalc.Proofs.Request.Isolation

/-!
# Analyses from another id on

The ids of a request begin where those of the request before it end. They do not matter for what
comes out: from any id on, an analysis has the same expressions apart from ids
(`Request.analyze_unnumbered`), so also the same sums (`Request.analyze_sums`).
-/

namespace DashCalc

namespace Request

open Cost (Scope aspect)

/-- Lists that look alike are alike under what depends on the looks alone. -/
theorem map_congr_of_map_eq {α β γ δ : Type} {view : α → γ} {view' : β → γ} {f : α → δ}
    {g : β → δ} (each : ∀ a b, view a = view' b → f a = g b) {xs : List α} :
    ∀ {ys : List β}, xs.map view = ys.map view' → xs.map f = ys.map g := by
  induction xs with
  | nil =>
    intro ys h
    rw [List.map_eq_nil_iff.1 h.symm]
    rfl
  | cons x xs ih =>
    intro ys h
    obtain ⟨y, rest, rfl, hy, hrest⟩ := List.map_eq_cons_iff.1 h.symm
    rw [List.map_cons, List.map_cons, each x y hy.symm, ih hrest.symm]

variable (links : Catalog.DocLinks) (mode : Cost.Mode) (r : Request) (taken taken' : Nat)

theorem readScope_unnumbered :
    (r.readScope links mode taken).expressions.map Expression.unnumbered =
      (r.readScope links mode taken').expressions.map Expression.unnumbered :=
  (map_readScope links mode r taken).trans (map_readScope links mode r taken').symm

/-- From any id on, a request is read into scopes that agree on all names. -/
theorem agree_readScope : (r.readScope links mode taken).Agree (r.readScope links mode taken')
    fun _ => True := by
  have read := readScope_unnumbered links mode r taken taken'
  refine .of_aspects rfl ?_ (fun _ => rfl) (fun name _ => ?_) fun _ _ _ _ _ _ => trivial
  · have lengths := congrArg List.length read
    rwa [List.length_map, List.length_map] at lengths
  · rw [map_congr_of_map_eq (fun _ _ => aspect_congr) read]

/-- From any id on, an analysis has the same expressions apart from ids. -/
theorem analyze_unnumbered :
    (r.analyze links mode taken).1.expressions.map Expression.unnumbered =
      (r.analyze links mode taken').1.expressions.map Expression.unnumbered := by
  have read := readScope_unnumbered links mode r taken taken'
  rw [analyze_expressions, analyze_expressions, List.map_map, List.map_map]
  refine map_congr_of_map_eq (fun e e' he => ?_) read
  refine outcome_congr (agree_readScope links mode r taken taken') he (fun _ _ _ _ => trivial)
    (fun _ => ?_) fun _ _ _ _ _ _ _ => trivial
  rw [read]

/-- From any id on, an analysis has an answer, or has none. -/
theorem isAbandoned_unnumbered :
    (r.analyze links mode taken).1.isAbandoned = (r.analyze links mode taken').1.isAbandoned := by
  have abrupt (e : Expression) : (e.unnumbered.reading.refusal?.any fun r => r.cause.isAbrupt) =
      e.reading.refusal?.any fun r => r.cause.isAbrupt := by
    unfold Expression.unnumbered
    cases e.reading <;> rfl
  have same := congrArg (List.any · fun e => e.reading.refusal?.any fun r => r.cause.isAbrupt)
    (analyze_unnumbered links mode r taken taken')
  simp only [List.any_map, Function.comp_def, abrupt] at same
  exact same

/-- From any id on, an analysis has the same sums. -/
theorem analyze_sums :
    (r.analyze links mode taken).1.totalCost = (r.analyze links mode taken').1.totalCost ∧
      (r.analyze links mode taken).1.hasRefusal = (r.analyze links mode taken').1.hasRefusal ∧
      (r.analyze links mode taken).1.readCount = (r.analyze links mode taken').1.readCount := by
  have same := analyze_unnumbered links mode r taken taken'
  obtain ⟨results, hresults⟩ := exists_analyze_eq links mode r taken
  obtain ⟨results', hresults'⟩ := exists_analyze_eq links mode r taken'
  rw [hresults, hresults'] at same ⊢
  change results.map _ = results'.map _ at same
  have read (e : Expression) : e.unnumbered.isRead = e.isRead := by
    unfold Expression.isRead
    rw [Expression.tree?_unnumbered, Option.isSome_map]
  have refused (e : Expression) : e.unnumbered.isRefused = e.isRefused := by
    unfold Expression.isRefused Expression.unnumbered
    cases e.reading <;> rfl
  refine ⟨?_, ?_, ?_⟩
  · have sums := congrArg (List.foldr (fun e sum => e.cost.getD 0 + sum) 0) same
    rwa [List.foldr_map, List.foldr_map] at sums
  · have refusals := congrArg (List.any · Expression.isRefused) same
    simp only [List.any_map, Function.comp_def, refused] at refusals
    exact refusals
  · have counts := congrArg (List.countP fun e => e.isRead && e.usedInQuery) same
    simp only [List.countP_map, Function.comp_def, read] at counts
    exact counts

end Request

end DashCalc
