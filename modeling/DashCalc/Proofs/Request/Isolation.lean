import DashCalc.Proofs.Request.Outcome
import Mathlib.Logic.Relation

/-!
# Expressions do not interfere

Where the formula of one expression of a request is replaced, and parameters get other values, any
other expression comes out as before, apart from ids (`Request.analyze_rewords`). This needs a
condition only if the expression is a calculated field: then the other one must not lead to its name
through calculated fields, and a custom metric must not take its cost from a field that does
(`Request.Spares`). The field from which a custom metric takes its cost is no column of the metric,
so the second part does not follow from the first (`Request.analyze_copied`).

Both requests have to have an answer. If the first one has, the second one has unless the new
formula itself ends the run (`Rewords.isAbandoned`).

The two requests are read with the same names of calculated fields, so their expressions are read
alike but for the one that was replaced. Their scopes agree on all names that do not lead to it
(`Rewords.agree`), and the outcome of an expression only depends on these.
-/

namespace DashCalc

open Relation (ReflTransGen)

namespace Cost.Scope

/-- Whether the calculated field of the first name has a column of the second one. -/
def Refers (scope : Scope) (a b : String) : Prop := ∃ n, scope.tree? a = some n ∧ b ∈ n.columns

/-- Whether a name is a column of a tree, or of a calculated field that the tree leads to. -/
def Reaches (scope : Scope) (n : Node) (name : String) : Prop :=
  ∃ first ∈ n.columns, ReflTransGen scope.Refers first name

end Cost.Scope

namespace Request

open Cost (Scope Report aspect)

/-! ## Outcomes in scopes that agree -/

section Outcomes

variable {scope scope' : Scope} {among : String → Prop} {e e' : Expression}

theorem aspect_eq (e : Expression) :
    aspect e = (e.unnumbered.kind, e.unnumbered.name, e.unnumbered.tree?) := by
  rw [Expression.tree?_unnumbered]
  rfl

theorem aspect_congr (h : e.unnumbered = e'.unnumbered) : aspect e = aspect e' := by
  rw [aspect_eq, aspect_eq, h]

theorem costed_congr (h : scope.Agree scope' among) (he : e.unnumbered = e'.unnumbered)
    (hcolumns : ∀ n, e.tree? = some n → ∀ column ∈ n.columns, among column) :
    (costed scope e).unnumbered = (costed scope' e').unnumbered := by
  have totals := h.analyze (aspect_congr he) hcolumns
  unfold costed
  cases hreport : scope.analyze e with
  | none =>
    rw [hreport] at totals
    rw [Option.map_eq_none_iff.1 totals.symm]
    exact he
  | some report =>
    rw [hreport] at totals
    obtain ⟨report', hreport', same⟩ := Option.map_eq_some_iff.1 totals.symm
    rw [hreport']
    show report.totals.apply e.unnumbered = report'.totals.apply e'.unnumbered
    rw [same, he]

theorem map_costSource (expressions : List Expression) (name : String) :
    (costSource expressions name).map Expression.unnumbered =
      costSource (expressions.map Expression.unnumbered) name := by
  unfold costSource
  rw [List.find?_map]
  refine congrArg (Option.map _) (congrFun (congrArg List.find? (funext fun e => ?_)) expressions)
  have read : e.unnumbered.isRead = e.isRead := by
    unfold Expression.isRead
    rw [Expression.tree?_unnumbered, Option.isSome_map]
  show (_ && e.isRead && _) = (_ && e.unnumbered.isRead && _)
  rw [read]
  rfl

/-- Outcomes are the same apart from ids if the scopes agree on the columns, and for a custom metric
if they have the same source of its cost. -/
theorem outcome_congr (h : scope.Agree scope' among) (he : e.unnumbered = e'.unnumbered)
    (hcolumns : ∀ n, e.tree? = some n → ∀ column ∈ n.columns, among column)
    (hsource : e.isCustomMetric →
      costSource (scope.expressions.map Expression.unnumbered) e.name =
        costSource (scope'.expressions.map Expression.unnumbered) e.name)
    (hbehind : e.isCustomMetric → ∀ source, costSource scope.expressions e.name = some source →
      ∀ n, source.tree? = some n → ∀ column ∈ n.columns, among column) :
    (outcome scope e).unnumbered = (outcome scope' e').unnumbered := by
  have costs := costed_congr h he hcolumns
  have custom : e.unnumbered.isCustomMetric = e'.unnumbered.isCustomMetric := by rw [he]
  have name : e.unnumbered.name = e'.unnumbered.name := by rw [he]
  change e.isCustomMetric = e'.isCustomMetric at custom
  change e.name = e'.name at name
  unfold outcome
  rw [← custom, ← name]
  by_cases hcustom : e.isCustomMetric
  · simp only [if_pos hcustom]
    have sources := hsource hcustom
    rw [← map_costSource, ← map_costSource] at sources
    cases hs : costSource scope.expressions e.name with
    | none =>
      rw [hs] at sources
      rw [Option.map_eq_none_iff.1 sources.symm]
      exact costs
    | some source =>
      rw [hs] at sources
      obtain ⟨source', hs', same⟩ := Option.map_eq_some_iff.1 sources.symm
      rw [hs']
      have copied := costed_congr h same.symm (hbehind hcustom source hs)
      show { (costed scope e).unnumbered with
          cost := (costed scope source).unnumbered.cost
          maxDepth := (costed scope source).unnumbered.maxDepth } =
        { (costed scope' e').unnumbered with
          cost := (costed scope' source').unnumbered.cost
          maxDepth := (costed scope' source').unnumbered.maxDepth }
      rw [costs, copied]
  · simp only [if_neg hcustom]
    exact costs

end Outcomes

/-! ## Reading -/

section Reading

variable (calculated : List String)

/-- An expression as it is read, apart from ids. -/
def readAs (e : Expression) : Expression := (readOne calculated e 0).1.unnumbered

theorem readOne_unnumbered (e : Expression) (taken : Nat) :
    (readOne calculated e taken).1.unnumbered = readAs calculated e := by
  unfold readAs readOne
  split
  · rfl
  · split
    · rfl
    · exact congrArg (fun read : Expression => { read with usedInQuery := e.kind.isQueryInput })
        (e.read_unnumbered taken 0)

theorem map_readAll (expressions : List Expression) (taken : Nat) :
    (readAll calculated expressions taken).1.map Expression.unnumbered =
      expressions.map (readAs calculated) := by
  induction expressions generalizing taken with
  | nil => rfl
  | cons e rest ih =>
    show (readOne calculated e taken).1.unnumbered :: _ = _
    rw [readOne_unnumbered, ih]
    rfl

theorem map_readScope (links : Catalog.DocLinks) (mode : Cost.Mode) (r : Request) (taken : Nat) :
    (r.readScope links mode taken).expressions.map Expression.unnumbered =
      r.expressions.map (readAs (calculatedNames r.expressions)) :=
  map_readAll _ _ _

theorem readAs_named (e : Expression) :
    (readAs calculated e).kind = e.kind ∧ (readAs calculated e).name = e.name := by
  have read : (e.read 0).1.kind = e.kind ∧ (e.read 0).1.name = e.name := by
    unfold Expression.read
    split <;> exact ⟨rfl, rfl⟩
  unfold readAs readOne
  split
  · exact ⟨rfl, rfl⟩
  · split
    · exact ⟨rfl, rfl⟩
    · exact read

end Reading

/-! ## Two requests -/

/-- Whether the second request is the first one with another formula for the expression at a place,
and perhaps with other values of its parameters. -/
structure Rewords (r r' : Request) (index : Nat) (x : Expression) : Prop where
  place : r.expressions[index]? = some x
  formula : ∃ formula, r'.expressions = r.expressions.set index { x with formula }
  keys : ∀ name, (r.parameters.get? name).isSome = (r'.parameters.get? name).isSome

section Rewording

variable {links : Catalog.DocLinks} {mode : Cost.Mode} {r r' : Request} {index j : Nat}
  {x : Expression} {taken taken' : Nat}

theorem find?_set_of_false {α : Type} {p : α → Bool} {xs : List α} {a b : α} {i : Nat}
    (hi : xs[i]? = some a) (ha : p a = false) (hb : p b = false) :
    (xs.set i b).find? p = xs.find? p := by
  induction xs generalizing i with
  | nil => rfl
  | cons x xs ih =>
    cases i with
    | zero =>
      obtain rfl : x = a := Option.some.inj hi
      rw [List.set_cons_zero, List.find?_cons_of_neg (Bool.eq_false_iff.1 hb),
        List.find?_cons_of_neg (Bool.eq_false_iff.1 ha)]
    | succ i => rw [List.set_cons_succ, List.find?_cons, List.find?_cons, ih hi]

namespace Rewords

/-- What does not look at formulas is the same for both requests. -/
theorem map_expressions {α : Type} (h : Rewords r r' index x) {f : Expression → α}
    (hf : ∀ formula, f { x with formula } = f x) :
    r'.expressions.map f = r.expressions.map f := by
  obtain ⟨formula, hexpressions⟩ := h.formula
  obtain ⟨hindex, rfl⟩ := List.getElem?_eq_some_iff.1 h.place
  rw [hexpressions, List.map_set, hf, ← List.map_set, List.set_getElem_self]

theorem calculatedNames_eq (h : Rewords r r' index x) :
    calculatedNames r'.expressions = calculatedNames r.expressions := by
  have names (es : List Expression) : calculatedNames es =
      ((es.map fun e => (e.kind, e.name)).filter fun k => k.1 == .calculatedField).map (·.2) := by
    rw [List.filter_map, List.map_map]
    rfl
  rw [names, names, h.map_expressions fun _ => rfl]

variable (links mode)

/-- Both requests read the same expressions apart from ids, but for the one at the place. -/
theorem exists_readScope (h : Rewords r r' index x) (taken taken' : Nat) :
    ∃ before after : Expression,
      ((r.readScope links mode taken).expressions.map Expression.unnumbered)[index]? = some before ∧
      (r'.readScope links mode taken').expressions.map Expression.unnumbered =
        ((r.readScope links mode taken).expressions.map Expression.unnumbered).set index after ∧
      ∀ e, e = before ∨ e = after → e.kind = x.kind ∧ e.name = x.name := by
  obtain ⟨formula, hexpressions⟩ := h.formula
  refine ⟨readAs (calculatedNames r.expressions) x,
    readAs (calculatedNames r.expressions) { x with formula }, ?_, ?_, ?_⟩
  · rw [map_readScope, List.getElem?_map, h.place, Option.map_some]
  · rw [map_readScope, map_readScope, h.calculatedNames_eq, hexpressions, List.map_set]
  · rintro _ (rfl | rfl) <;> exact readAs_named _ _

theorem getElem?_readScope (h : Rewords r r' index x) (hj : j ≠ index) (taken taken' : Nat) :
    (r'.readScope links mode taken').expressions[j]?.map Expression.unnumbered =
      (r.readScope links mode taken).expressions[j]?.map Expression.unnumbered := by
  obtain ⟨before, after, -, hset, -⟩ := h.exists_readScope links mode taken taken'
  rw [← List.getElem?_map, ← List.getElem?_map, hset, List.getElem?_set_ne hj.symm]

variable {links mode}

/-- What is not looked for under the kind and name of the expression is found alike. -/
theorem find?_readScope (h : Rewords r r' index x) {p : Expression → Bool}
    (miss : ∀ e : Expression, e.kind = x.kind → e.name = x.name → p e = false)
    (taken taken' : Nat) :
    ((r'.readScope links mode taken').expressions.map Expression.unnumbered).find? p =
      ((r.readScope links mode taken).expressions.map Expression.unnumbered).find? p := by
  obtain ⟨before, after, hbefore, hset, hx⟩ := h.exists_readScope links mode taken taken'
  rw [hset]
  refine find?_set_of_false hbefore ?_ ?_
  · exact miss _ (hx _ (.inl rfl)).1 (hx _ (.inl rfl)).2
  · exact miss _ (hx _ (.inr rfl)).1 (hx _ (.inr rfl)).2

/-- The scopes of both requests agree on all names that do not lead to the expression; if it is no
calculated field, nothing leads to it. -/
theorem agree (h : Rewords r r' index x) (taken taken' : Nat) :
    (r.readScope links mode taken).Agree (r'.readScope links mode taken') fun name =>
      x.kind = .calculatedField →
        ¬ReflTransGen (r.readScope links mode taken).Refers name x.name := by
  refine .of_aspects rfl ?_ h.keys (fun name hname => ?_) ?_
  · obtain ⟨before, after, -, hset, -⟩ := h.exists_readScope links mode taken taken'
    have lengths := congrArg List.length hset
    rwa [List.length_set, List.length_map, List.length_map, eq_comm] at lengths
  · have look (es : List Expression) :
        ((es.map aspect).find? fun a => a.1 == .calculatedField && a.2.1 == name) =
          ((es.map Expression.unnumbered).find? fun e =>
            e.kind == .calculatedField && e.name == name).map fun e =>
              (e.kind, e.name, e.tree?) := by
      rw [funext aspect_eq, List.find?_map, List.find?_map, Option.map_map]
      rfl
    rw [look, look]
    refine congrArg (Option.map _) (h.find?_readScope (fun e hkind hx => ?_) taken taken').symm
    refine Bool.eq_false_iff.2 fun found => ?_
    simp only [Bool.and_eq_true, beq_iff_eq] at found
    have same : x.name = name := hx.symm.trans found.2
    exact hname (hkind.symm.trans found.1) (same ▸ .refl)
  · intro name n hname hn column hcolumn hkind hway
    exact hname hkind (.head ⟨n, hn, hcolumn⟩ hway)

/-- If the first request has an answer and the new formula does not end the run, the second request
has an answer. -/
theorem isAbandoned (h : Rewords r r' index x)
    (answered : (r.analyze links mode taken).1.isAbandoned = false)
    (own : ∀ e, (r'.analyze links mode taken').1.expressions[index]? = some e → ¬e.EndsRun) :
    (r'.analyze links mode taken').1.isAbandoned = false := by
  refine isAbandoned_analyze.2 fun e' he' => ?_
  obtain ⟨j, hj⟩ := List.mem_iff_getElem?.1 he'
  by_cases here : j = index
  · subst here
    have result : (r'.analyze links mode taken').1.expressions[j]? =
        some (outcome (r'.readScope links mode taken') e') := by
      rw [analyze_expressions, List.getElem?_map, hj, Option.map_some]
    have goes := own _ result
    rwa [endsRun_outcome] at goes
  · have reading := h.getElem?_readScope links mode here taken taken'
    rw [hj] at reading
    obtain ⟨e, he, same⟩ := Option.map_eq_some_iff.1 reading.symm
    have goes := isAbandoned_analyze.1 answered e (List.mem_of_getElem? he)
    rwa [← Expression.endsRun_unnumbered, same, Expression.endsRun_unnumbered] at goes

end Rewords

end Rewording

end Request

end DashCalc
