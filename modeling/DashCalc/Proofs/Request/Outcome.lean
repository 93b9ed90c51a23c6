import DashCalc.Proofs.Cost.Agreement
import DashCalc.Request.Analysis

/-!
# What becomes of each expression

A request is costed in an order, and each cost is found among expressions some of which have their
costs already. Neither matters for what an expression comes out as: its totals are those found among
the expressions as they were read (`Request.agree_costedAt`), so whatever the order, as long as it
leaves out no place, an analysis is `Request.outcome` at every place
(`Request.analyze_expressions`).

All this is an answer only if no formula ends the whole run, which reading alone decides
(`Request.isAbandoned_analyze`).
-/

namespace DashCalc

/-- Whether the formula of an expression was refused in a way that ends the whole run. -/
def Expression.EndsRun (e : Expression) : Prop :=
  ∃ why, e.reading = .refused why ∧ why.cause.isAbrupt = true

theorem Expression.endsRun_iff {e : Expression} :
    e.EndsRun ↔ e.reading.refusal?.any (fun why => why.cause.isAbrupt) = true := by
  unfold EndsRun
  cases e.reading with
  | unread => exact iff_of_false nofun Bool.false_ne_true
  | tree n => exact iff_of_false nofun Bool.false_ne_true
  | refused why =>
    refine ⟨?_, fun abrupt => ⟨why, rfl, abrupt⟩⟩
    rintro ⟨_, ⟨⟩, abrupt⟩
    exact abrupt

instance : DecidablePred Expression.EndsRun := fun _ => decidable_of_iff' _ Expression.endsRun_iff

theorem Expression.endsRun_unnumbered {e : Expression} : e.unnumbered.EndsRun ↔ e.EndsRun := by
  rw [endsRun_iff, endsRun_iff]
  unfold unnumbered
  cases e.reading <;> rfl

namespace Request

open Cost (Report Scope aspect)

variable {scope : Scope}

/-! ## Costing -/

/-- The expression with the results of its report in a scope, if it was read. -/
def costed (scope : Scope) (e : Expression) : Expression :=
  match scope.analyze e with
  | none => e
  | some report => report.apply e

theorem aspect_costed (scope : Scope) (e : Expression) : aspect (costed scope e) = aspect e := by
  unfold costed
  split <;> rfl

theorem isCustomMetric_costed (scope : Scope) (e : Expression) :
    (costed scope e).isCustomMetric = e.isCustomMetric := by
  unfold costed
  split <;> rfl

theorem aspect_of_costed {e e' : Expression} (h : e' = costed scope e ∨ e' = e) :
    aspect e' = aspect e := by
  rcases h with rfl | rfl
  · exact aspect_costed scope e
  · rfl

/-- Costing an expression again, in a scope that finds the same totals, changes nothing. -/
theorem costed_eq_of_totals {scope' : Scope} {e e' : Expression} (he : e' = costed scope e ∨ e' = e)
    (h : (scope'.analyze e').map Report.totals = (scope.analyze e).map Report.totals) :
    costed scope' e' = costed scope e := by
  unfold costed at he ⊢
  cases hreport : scope.analyze e with
  | none =>
    rw [hreport] at he h
    rw [Option.map_eq_none_iff.1 h]
    rcases he with rfl | rfl <;> rfl
  | some report =>
    rw [hreport] at he h
    obtain ⟨report', hreport', same⟩ := Option.map_eq_some_iff.1 h
    rw [hreport']
    -- what a report sets are its totals
    show report'.totals.apply e' = report.totals.apply e
    rw [same]
    rcases he with rfl | rfl <;> rfl

theorem costAt_eq_modify (scope : Scope) (index : Nat) : costAt scope index =
    { scope with expressions := scope.expressions.modify index (costed scope) } := by
  unfold costAt
  rw [List.modify_eq_set_getElem?]
  cases he : scope.expressions[index]? with
  | none => rfl
  | some e =>
    show _ = { scope with expressions := scope.expressions.set index (costed scope e) }
    unfold costed
    cases hreport : scope.analyze e with
    | none =>
      obtain ⟨hindex, rfl⟩ := List.getElem?_eq_some_iff.1 he
      dsimp only
      rw [List.set_getElem_self, hreport]
    | some report =>
      dsimp only
      rw [hreport]

/-- The scope with the expressions at some places costed. -/
def costedAt (scope : Scope) (done : List Nat) : Scope :=
  { scope with
    expressions := scope.expressions.mapIdx fun index e =>
      if index ∈ done then costed scope e else e }

theorem expressions_costedAt (scope : Scope) (done : List Nat) (index : Nat) :
    (costedAt scope done).expressions[index]? =
      scope.expressions[index]?.map fun e => if index ∈ done then costed scope e else e :=
  List.getElem?_mapIdx

theorem aspects_costedAt (scope : Scope) (done : List Nat) :
    (costedAt scope done).expressions.map aspect = scope.expressions.map aspect := by
  refine List.ext_getElem? fun index => ?_
  rw [List.getElem?_map, List.getElem?_map, expressions_costedAt, Option.map_map]
  refine congrArg (Option.map · _) (funext fun e => ?_)
  split
  · exact aspect_costed scope e
  · rfl

/-- Costs that were found before do not change what is found. -/
theorem agree_costedAt (scope : Scope) (done : List Nat) :
    (costedAt scope done).Agree scope fun _ => True where
  mode := rfl
  length := List.length_mapIdx
  tree name _ := by
    rw [Scope.map_tree?, Scope.map_tree?, aspects_costedAt]
    rfl
  closed _ _ _ _ _ _ := trivial

/-- One more place is costed as if no other place had been costed. -/
theorem costAt_costedAt (scope : Scope) (done : List Nat) (index : Nat) :
    costAt (costedAt scope done) index = costedAt scope (index :: done) := by
  have places : (costedAt scope done).expressions.modify index (costed (costedAt scope done)) =
      (costedAt scope (index :: done)).expressions := by
    refine List.ext_getElem? fun j => ?_
    rw [List.getElem?_modify, expressions_costedAt, expressions_costedAt]
    cases scope.expressions[j]? with
    | none => split <;> rfl
    | some e =>
      simp only [Option.map_some, List.mem_cons]
      by_cases here : index = j
      · subst here
        have before : (if index ∈ done then costed scope e else e) = costed scope e ∨
            (if index ∈ done then costed scope e else e) = e := by
          split
          · exact .inl rfl
          · exact .inr rfl
        have same := costed_eq_of_totals before
          ((agree_costedAt scope done).analyze (aspect_of_costed before) fun _ _ _ _ => trivial)
        simp only [if_true, true_or, Option.map_eq_map, Option.map_some, same]
      · simp only [if_neg here, Ne.symm here, false_or]
        rfl
  rw [costAt_eq_modify, places]
  rfl

theorem foldl_costAt (scope : Scope) (order : List Nat) : ∀ done : List Nat,
    order.foldl costAt (costedAt scope done) = costedAt scope (order.reverse ++ done) := by
  induction order with
  | nil => exact fun _ => rfl
  | cons index order ih =>
    intro done
    rw [List.foldl_cons, costAt_costedAt, ih, List.reverse_cons, List.append_assoc,
      List.singleton_append]

/-- Whatever the order, if it leaves out no place, every expression is costed as it was read. -/
theorem expressions_foldl_costAt (scope : Scope) {order : List Nat}
    (all : ∀ index < scope.expressions.length, index ∈ order) :
    (order.foldl costAt scope).expressions = scope.expressions.map (costed scope) := by
  have start : costedAt scope [] = scope := by
    have none_done : (costedAt scope []).expressions = scope.expressions := by
      refine List.ext_getElem? fun index => ?_
      simp only [expressions_costedAt, List.not_mem_nil, if_false]
      cases scope.expressions[index]? <;> rfl
    exact congrArg (fun es => { scope with expressions := es }) none_done
  have run : order.foldl costAt scope = costedAt scope (order.reverse ++ []) := by
    rw [← foldl_costAt, start]
  rw [run]
  refine List.ext_getElem? fun index => ?_
  rw [expressions_costedAt, List.getElem?_map, List.append_nil]
  cases he : scope.expressions[index]? with
  | none => rfl
  | some e =>
    have mem := all index (List.getElem?_eq_some_iff.1 he).1
    rw [Option.map_some, Option.map_some, if_pos (List.mem_reverse.2 mem)]

/-- The order of costing leaves out no place. -/
theorem mem_costOrder {expressions : List Expression} {index : Nat}
    (h : index < expressions.length) : index ∈ costOrder expressions := by
  unfold costOrder
  dsimp only
  rw [List.mem_append, or_iff_not_imp_left, List.mem_filter]
  intro later
  refine ⟨List.mem_range.2 h, ?_⟩
  rwa [Bool.not_eq_true', ← Bool.not_eq_true, List.contains_iff_mem]

/-! ## Custom metrics -/

theorem costSource_costed (scope : Scope) (expressions : List Expression) (name : String) :
    costSource (expressions.map (costed scope)) name =
      (costSource expressions name).map (costed scope) := by
  unfold costSource
  rw [List.find?_map]
  refine congrArg (Option.map _) (congrFun (congrArg List.find? (funext fun e => ?_)) expressions)
  show ((costed scope e).kind == .calculatedField && (costed scope e).isRead &&
    (costed scope e).name == name) = _
  unfold costed
  split <;> rfl

/-- What becomes of an expression: it is costed, and a custom metric takes the cost of the
calculated field of its name. -/
def outcome (scope : Scope) (e : Expression) : Expression :=
  if e.isCustomMetric then
    match costSource scope.expressions e.name with
    | some source =>
      { costed scope e with
        cost := (costed scope source).cost
        maxDepth := (costed scope source).maxDepth }
    | none => costed scope e
  else costed scope e

theorem withSourceCost_costed (scope : Scope) (e : Expression) :
    withSourceCost (scope.expressions.map (costed scope)) (costed scope e) = outcome scope e := by
  have source : costSource (scope.expressions.map (costed scope)) (costed scope e).name =
      (costSource scope.expressions e.name).map (costed scope) := by
    have name : (costed scope e).name = e.name := congrArg (·.2.1) (aspect_costed scope e)
    rw [name, costSource_costed]
  unfold withSourceCost outcome
  rw [isCustomMetric_costed, source]
  cases costSource scope.expressions e.name <;> rfl

theorem map_withSourceCost (scope : Scope) {order : List Nat}
    (all : ∀ index < scope.expressions.length, index ∈ order) :
    (order.foldl costAt scope).expressions.map
        (withSourceCost (order.foldl costAt scope).expressions) =
      scope.expressions.map (outcome scope) := by
  rw [expressions_foldl_costAt scope all, List.map_map]
  exact List.map_congr_left fun e _ => withSourceCost_costed scope e

/-- What becomes of an expression differs from it in what reports say alone. -/
theorem outcome_sets (scope : Scope) (e : Expression) :
    ∃ cost maxDepth isAggregation isStringFunction, outcome scope e =
      { e with cost, maxDepth, isAggregation, isStringFunction } := by
  have report : ∃ cost maxDepth isAggregation isStringFunction, costed scope e =
      { e with cost, maxDepth, isAggregation, isStringFunction } := by
    unfold costed
    split
    · exact ⟨_, _, _, _, rfl⟩
    · exact ⟨_, _, _, _, rfl⟩
  obtain ⟨_, _, _, _, hcosted⟩ := report
  unfold outcome
  rw [hcosted]
  split
  · split
    · exact ⟨_, _, _, _, rfl⟩
    · exact ⟨_, _, _, _, rfl⟩
  · exact ⟨_, _, _, _, rfl⟩

theorem reading_outcome (scope : Scope) (e : Expression) :
    (outcome scope e).reading = e.reading := by
  obtain ⟨_, _, _, _, h⟩ := outcome_sets scope e
  rw [h]

theorem endsRun_outcome {e : Expression} : (outcome scope e).EndsRun ↔ e.EndsRun := by
  unfold Expression.EndsRun
  rw [reading_outcome]

/-! ## Analyses -/

/-- The scope of a request: its expressions, read but not costed, and its parameters. -/
def readScope (links : Catalog.DocLinks) (mode : Cost.Mode) (r : Request) (taken : Nat) : Scope :=
  ⟨(readAll (calculatedNames r.expressions) r.expressions taken).1, r.parameters, links, mode⟩

theorem Analysis.isAbandoned_eq_false {a : Analysis} :
    a.isAbandoned = false ↔ ∀ e ∈ a.expressions, ¬e.EndsRun := by
  unfold isAbandoned
  rw [List.any_eq_false]
  exact forall₂_congr fun e _ => not_congr Expression.endsRun_iff.symm

/-- An analysis is the outcome of each expression in the scope of the request. -/
theorem analyze_expressions (links : Catalog.DocLinks) (mode : Cost.Mode) (r : Request)
    (taken : Nat) : (r.analyze links mode taken).1.expressions =
      (r.readScope links mode taken).expressions.map (outcome (r.readScope links mode taken)) := by
  unfold analyze analyzeInOrder readScope
  dsimp only
  generalize readAll (calculatedNames r.expressions) r.expressions taken = result
  obtain ⟨read, last⟩ := result
  exact map_withSourceCost ⟨read, r.parameters, links, mode⟩ fun _ => mem_costOrder

/-- There is an answer if no formula ends the run when it is read. -/
theorem isAbandoned_analyze {links : Catalog.DocLinks} {mode : Cost.Mode} {r : Request}
    {taken : Nat} : (r.analyze links mode taken).1.isAbandoned = false ↔
      ∀ e ∈ (r.readScope links mode taken).expressions, ¬e.EndsRun := by
  rw [Analysis.isAbandoned_eq_false, analyze_expressions, List.forall_mem_map]
  exact forall₂_congr fun e _ => not_congr endsRun_outcome

end Request

end DashCalc
