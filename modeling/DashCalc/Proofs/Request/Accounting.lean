import DashCalc.Proofs.Request.Outcome
import Mathlib.Algebra.GroupWithZero.Nat

/-!
# Every expression is accounted for

An analysis lists the expressions of its request one for one. Each is passed over, read or refused,
never two of these, and what it costs fits how it ended; the totals are sums over this list
(`Request.analyze_accounts`).

There is an answer only if no formula is refused in a way that ends the whole run. Such formulas
exist, so the condition of the theorem cannot be left out
(`Request.not_accounts_unfinishedDivision`).
-/

namespace DashCalc.Request

open Cost (Report Scope)

/-! ## How an expression ends -/

/-- The ways in which an expression can end. -/
inductive Fate
  | passedOver | parsed | failed
  deriving DecidableEq

/-- Whether the formula of an expression is not read: its values come from a calculated field, or
are stored with the dataset. -/
def PassesOver (r : Request) (e : Expression) : Prop :=
  e.isCustomMetric = true ∨
    (e.kind = .field ∧ ∃ c ∈ r.expressions, c.kind = .calculatedField ∧ c.name = e.name) ∨
    ∃ c ∈ r.datasetColumns, c.isStored = true ∧
      e = { columnExpression c with userAlias := r.userAliases.get? c.name }

/-- Whether a custom metric of a name can take its cost from an expression. -/
def Computes (name : String) (e : Expression) : Prop :=
  e.kind = .calculatedField ∧ e.isRead = true ∧ e.name = name

/-- Whether an expression is the first one from which a custom metric of a name can take its
cost. -/
def FirstComputes (expressions : List Expression) (name : String) (source : Expression) : Prop :=
  ∃ before after, expressions = before ++ source :: after ∧ Computes name source ∧
    ∀ e ∈ before, ¬ Computes name e

/-- Whether an expression that is passed over costs what it should: a custom metric as much as its
calculated field among the results, anything else nothing. -/
def CostsAsSource (results : List Expression) (e : Expression) : Prop :=
  (e.isCustomMetric = true ∧ ∃ source, FirstComputes results e.name source ∧
      e.cost = source.cost ∧ e.maxDepth = source.maxDepth) ∨
    ((e.isCustomMetric = true → ∀ source ∈ results, ¬ Computes e.name source) ∧
      e.cost = none ∧ e.maxDepth = none)

/-- `Ends r results e e' fate` says that an expression `e` of a request came out as `e'`, among the
results, and ended in a certain way. -/
def Ends (r : Request) (results : List Expression) (e e' : Expression) : Fate → Prop
  | .passedOver => r.PassesOver e ∧ e'.reading = .unread ∧ CostsAsSource results e'
  | .parsed => ¬ r.PassesOver e ∧
      (∃ n taken, (Node.ofFormula e.formula taken).1 = .ok n ∧ e'.reading = .tree n) ∧
      e'.cost.isSome = true ∧ e'.maxDepth.isSome = true
  | .failed => ¬ r.PassesOver e ∧
      (∃ why taken, (Node.ofFormula e.formula taken).1 = .error why ∧ e'.reading = .refused why ∧
        why.cause.isAbrupt = false) ∧
      e'.cost = none ∧ e'.maxDepth = none

/-- What a request asks of an expression that comes out of its analysis. -/
structure Accounted (r : Request) (results : List Expression) (e e' : Expression) : Prop where
  kind : e'.kind = e.kind
  name : e'.name = e.name
  formula : e'.formula = e.formula
  usedInQuery : e'.usedInQuery = true ↔ e.kind ≠ .calculatedField
  ends : ∃! fate, Ends r results e e' fate

/-- What a request asks of its analysis. -/
structure Accounts (r : Request) (a : Analysis) : Prop where
  each : List.Forall₂ (Accounted r a.expressions) r.expressions a.expressions
  totalCost : a.totalCost = (a.expressions.filterMap Expression.cost).sum
  hasRefusal : a.hasRefusal = true ↔ ∃ e ∈ a.expressions, ∃ why, e.reading = .refused why
  readCount : a.readCount = (a.expressions.filter fun e =>
    e.isRead && decide (e.kind ≠ .calculatedField)).length

/-! ## The expressions of a request -/

theorem mem_expressions {r : Request} {e : Expression} (h : e ∈ r.expressions) :
    ∃ raw : Expression, e = { raw with userAlias := r.userAliases.get? raw.name } ∧
      ((raw.preProcessed = false ∧ raw.reading = .unread ∧ raw.cost = none ∧ raw.maxDepth = none) ∨
        ∃ c ∈ r.datasetColumns, raw = columnExpression c) := by
  unfold expressions at h
  obtain ⟨raw, hraw, rfl⟩ := List.mem_map.1 h
  refine ⟨raw, rfl, ?_⟩
  simp only [List.mem_append, List.mem_map, List.mem_mapIdx] at hraw
  rcases hraw with ((((⟨c, -, rfl⟩ | ⟨i, hi, rfl⟩) | ⟨c, hc, rfl⟩) | ⟨m, -, rfl⟩) | ⟨f, -, rfl⟩) |
    ⟨m, -, rfl⟩
  · exact .inl ⟨rfl, rfl, rfl, rfl⟩
  · exact .inl ⟨rfl, rfl, rfl, rfl⟩
  · exact .inr ⟨c, hc, rfl⟩
  · exact .inl ⟨rfl, rfl, rfl, rfl⟩
  · unfold fieldExpression
    split <;> exact .inl ⟨rfl, rfl, rfl, rfl⟩
  · exact .inl ⟨rfl, rfl, rfl, rfl⟩

/-- An expression that nothing was done with yet. -/
structure Untouched (e : Expression) : Prop where
  reading : e.reading = .unread
  cost : e.cost = none
  maxDepth : e.maxDepth = none
  stored : e.preProcessed = true → e.kind = .calculatedField

theorem untouched_of_mem {r : Request} {e : Expression} (h : e ∈ r.expressions) : Untouched e := by
  obtain ⟨raw, rfl, ⟨hstored, hreading, hcost, hdepth⟩ | ⟨c, -, rfl⟩⟩ := mem_expressions h
  · refine ⟨hreading, hcost, hdepth, fun stored => ?_⟩
    rw [show raw.preProcessed = true from stored] at hstored
    cases hstored
  · exact ⟨rfl, rfl, rfl, fun _ => rfl⟩

theorem preProcessed_iff {r : Request} {e : Expression} (h : e ∈ r.expressions) :
    e.preProcessed = true ↔ ∃ c ∈ r.datasetColumns, c.isStored = true ∧
      e = { columnExpression c with userAlias := r.userAliases.get? c.name } := by
  constructor
  · intro stored
    obtain ⟨raw, rfl, ⟨hstored, -, -, -⟩ | ⟨c, hc, rfl⟩⟩ := mem_expressions h
    · rw [show raw.preProcessed = true from stored] at hstored
      cases hstored
    · exact ⟨c, hc, stored, rfl⟩
  · rintro ⟨c, -, stored, rfl⟩
    exact stored

theorem mem_calculatedNames {expressions : List Expression} {name : String} :
    name ∈ calculatedNames expressions ↔
      ∃ c ∈ expressions, c.kind = .calculatedField ∧ c.name = name := by
  unfold calculatedNames
  simp only [List.mem_map, List.mem_filter, beq_iff_eq, and_assoc]

theorem passesOver_iff {r : Request} {e : Expression} (h : e ∈ r.expressions) :
    r.PassesOver e ↔
      isDelegated (calculatedNames r.expressions) e = true ∨ e.preProcessed = true := by
  unfold PassesOver isDelegated
  rw [← preProcessed_iff h, ← mem_calculatedNames, Bool.or_eq_true, Bool.and_eq_true, beq_iff_eq,
    List.contains_iff_mem, ← or_assoc, or_comm (a := e.isCustomMetric = true)]

theorem kind_ne_of_isDelegated {calculated : List String} {e : Expression}
    (h : isDelegated calculated e = true) : e.kind ≠ .calculatedField := by
  intro hkind
  unfold isDelegated Expression.isCustomMetric at h
  rw [hkind] at h
  cases h

/-! ## Reading -/

/-- What reading makes of an expression: it is passed over, or its formula decides. -/
def Reads (r : Request) (e : Expression) : Reading → Prop
  | .unread => r.PassesOver e
  | .tree n => ¬ r.PassesOver e ∧ ∃ taken, (Node.ofFormula e.formula taken).1 = .ok n
  | .refused why => ¬ r.PassesOver e ∧ ∃ taken, (Node.ofFormula e.formula taken).1 = .error why

/-- Reading sets the reading of an expression, and has it go into the query unless it is a
calculated field. -/
theorem readOne_sets {r : Request} {e : Expression} (h : e ∈ r.expressions) (taken : Nat) :
    ∃ reading, Reads r e reading ∧ (readOne (calculatedNames r.expressions) e taken).1 =
      { e with reading, usedInQuery := decide (e.kind ≠ .calculatedField) } := by
  have fresh := untouched_of_mem h
  have query : e.kind.isQueryInput = decide (e.kind ≠ .calculatedField) := by
    cases hkind : e.kind <;> rfl
  have passes := passesOver_iff h
  unfold readOne
  by_cases delegated : isDelegated (calculatedNames r.expressions) e = true
  · rw [if_pos delegated]
    refine ⟨.unread, passes.2 (.inl delegated), ?_⟩
    rw [decide_eq_true (kind_ne_of_isDelegated delegated), ← fresh.reading]
  · rw [if_neg delegated]
    by_cases stored : e.preProcessed = true
    · rw [if_pos stored]
      refine ⟨.unread, passes.2 (.inr stored), ?_⟩
      rw [query, ← fresh.reading]
    · rw [if_neg stored, ← query]
      have reads : ¬ r.PassesOver e := fun h => (passes.1 h).elim delegated stored
      unfold Expression.read
      cases hread : Node.ofFormula e.formula taken with
      | mk answer last =>
        have answered : (Node.ofFormula e.formula taken).1 = answer := congrArg Prod.fst hread
        cases answer with
        | ok n => exact ⟨.tree n, ⟨reads, taken, answered⟩, rfl⟩
        | error why => exact ⟨.refused why, ⟨reads, taken, answered⟩, rfl⟩

theorem forall₂_readAll (calculated : List String) (expressions : List Expression) :
    ∀ taken : Nat, List.Forall₂ (fun e x => ∃ t, x = (readOne calculated e t).1) expressions
      (readAll calculated expressions taken).1 := by
  induction expressions with
  | nil => exact fun _ => .nil
  | cons e rest ih => exact fun taken => .cons ⟨taken, rfl⟩ (ih _)

/-! ## Outcomes -/

section Outcomes

variable {scope : Scope} {e : Expression}

theorem computes_outcome (scope : Scope) (e : Expression) (name : String) :
    Computes name (outcome scope e) ↔ Computes name e := by
  obtain ⟨_, _, _, _, h⟩ := outcome_sets scope e
  rw [h]
  exact Iff.rfl

theorem not_isCustomMetric_of_computes {name : String} (h : Computes name e) :
    ¬ e.isCustomMetric = true := by
  unfold Expression.isCustomMetric
  rw [h.1]
  exact Bool.false_ne_true

theorem outcome_of_not_isCustomMetric (h : ¬ e.isCustomMetric = true) :
    outcome scope e = costed scope e := if_neg h

/-- An expression without a tree costs what it did. -/
theorem costed_of_tree?_eq_none (h : e.tree? = none) : costed scope e = e := by
  unfold costed Scope.analyze
  rw [h]
  rfl

theorem costed_of_reading {n : Node} (h : e.reading = .tree n) :
    (costed scope e).cost.isSome = true ∧ (costed scope e).maxDepth.isSome = true := by
  unfold costed Scope.analyze Expression.tree?
  rw [h]
  exact ⟨rfl, rfl⟩

theorem firstComputes_of_costSource {expressions : List Expression} {name : String}
    {source : Expression} (h : costSource expressions name = some source) :
    FirstComputes expressions name source := by
  unfold costSource at h
  obtain ⟨hsource, before, after, rfl, earlier⟩ := List.find?_eq_some_iff_append.1 h
  refine ⟨before, after, rfl, ?_, fun e he computes => ?_⟩
  · simp only [Bool.and_eq_true, beq_iff_eq, and_assoc] at hsource
    exact hsource
  · have := earlier e he
    rw [computes.1, computes.2.1, computes.2.2, beq_self_eq_true, beq_self_eq_true] at this
    cases this

theorem not_computes_of_costSource {expressions : List Expression} {name : String}
    (h : costSource expressions name = none) : ∀ e ∈ expressions, ¬ Computes name e := by
  intro e he computes
  have := List.find?_eq_none.1 h e he
  rw [computes.1, computes.2.1, computes.2.2, beq_self_eq_true, beq_self_eq_true] at this
  exact this rfl

/-- The first calculated field of a name comes first among the outcomes too. -/
theorem FirstComputes.map_outcome {expressions : List Expression} {name : String}
    {source : Expression} (h : FirstComputes expressions name source) :
    FirstComputes (expressions.map (outcome scope)) name (outcome scope source) := by
  obtain ⟨before, after, rfl, computes, earlier⟩ := h
  refine ⟨before.map (outcome scope), after.map (outcome scope), ?_,
    (computes_outcome scope source name).2 computes, fun x hx => ?_⟩
  · rw [List.map_append, List.map_cons]
  · obtain ⟨e, he, rfl⟩ := List.mem_map.1 hx
    rw [computes_outcome]
    exact earlier e he

theorem FirstComputes.computes {expressions : List Expression} {name : String}
    {source : Expression} (h : FirstComputes expressions name source) : Computes name source := by
  obtain ⟨before, after, rfl, computes, -⟩ := h
  exact computes

/-- An expression that was not read costs nothing, unless it is a custom metric. -/
theorem costsAsSource_outcome (unread : e.reading = .unread) (cost : e.cost = none)
    (maxDepth : e.maxDepth = none) :
    CostsAsSource (scope.expressions.map (outcome scope)) (outcome scope e) := by
  have tree : e.tree? = none := by
    unfold Expression.tree?
    rw [unread]
    rfl
  have same : (outcome scope e).name = e.name ∧
      (outcome scope e).isCustomMetric = e.isCustomMetric := by
    obtain ⟨_, _, _, _, h⟩ := outcome_sets scope e
    rw [h]
    exact ⟨rfl, rfl⟩
  unfold CostsAsSource
  rw [same.1, same.2]
  by_cases custom : e.isCustomMetric = true
  · cases hsource : costSource scope.expressions e.name with
    | none =>
      refine .inr ⟨fun _ x hx computes => ?_, ?_⟩
      · obtain ⟨y, hy, rfl⟩ := List.mem_map.1 hx
        exact not_computes_of_costSource hsource y hy ((computes_outcome scope y e.name).1 computes)
      · unfold outcome
        rw [if_pos custom, hsource, costed_of_tree?_eq_none tree]
        exact ⟨cost, maxDepth⟩
    | some source =>
      have first := firstComputes_of_costSource hsource
      refine .inl ⟨custom, outcome scope source, first.map_outcome, ?_⟩
      rw [outcome_of_not_isCustomMetric (not_isCustomMetric_of_computes first.computes)]
      unfold outcome
      rw [if_pos custom, hsource]
      exact ⟨rfl, rfl⟩
  · refine .inr ⟨fun h => absurd h custom, ?_⟩
    rw [outcome_of_not_isCustomMetric custom, costed_of_tree?_eq_none tree]
    exact ⟨cost, maxDepth⟩

end Outcomes

/-! ## Analyses -/

/-- An expression ends in one way only: by whether it was read, and how. -/
theorem Ends.unique {r : Request} {results : List Expression} {e e' : Expression}
    {fate fate' : Fate} (h : Ends r results e e' fate) (h' : Ends r results e e' fate') :
    fate = fate' := by
  have reading : ∀ {fate}, Ends r results e e' fate → fate =
      match e'.reading with
      | .unread => Fate.passedOver
      | .tree _ => .parsed
      | .refused _ => .failed := by
    intro fate ends
    cases fate with
    | passedOver => rw [ends.2.1]
    | parsed =>
      obtain ⟨n, _, -, hn⟩ := ends.2.1
      rw [hn]
    | failed =>
      obtain ⟨why, _, -, hwhy, -⟩ := ends.2.1
      rw [hwhy]
  rw [reading h, reading h']

theorem accounted_outcome {r : Request} {scope : Scope} {e x : Expression} {reading : Reading}
    (he : e ∈ r.expressions) (reads : Reads r e reading)
    (hx : x = { e with reading, usedInQuery := decide (e.kind ≠ .calculatedField) })
    (answered : ¬x.EndsRun) :
    Accounted r (scope.expressions.map (outcome scope)) e (outcome scope x) := by
  have fresh := untouched_of_mem he
  have same : x.isCustomMetric = e.isCustomMetric ∧ x.reading = reading ∧
      x.cost = none ∧ x.maxDepth = none := by
    rw [hx]
    exact ⟨rfl, rfl, fresh.cost, fresh.maxDepth⟩
  obtain ⟨custom, xreading, cost, maxDepth⟩ := same
  -- a custom metric is passed over, so what was read costs what its own tree says
  have own (h : ¬ r.PassesOver e) : outcome scope x = costed scope x := by
    refine outcome_of_not_isCustomMetric fun hcustom => h (.inl ?_)
    rwa [← custom]
  have ends : ∃ fate, Ends r (scope.expressions.map (outcome scope)) e (outcome scope x) fate := by
    have kept := (reading_outcome scope x).trans xreading
    cases reading with
    | unread =>
      exact ⟨.passedOver, reads, kept, costsAsSource_outcome xreading cost maxDepth⟩
    | tree n =>
      obtain ⟨unpassed, taken, hn⟩ := reads
      refine ⟨.parsed, unpassed, ⟨n, taken, hn, kept⟩, ?_⟩
      rw [own unpassed]
      exact costed_of_reading xreading
    | refused why =>
      obtain ⟨unpassed, taken, hwhy⟩ := reads
      have goes : why.cause.isAbrupt = false :=
        Bool.eq_false_iff.2 fun abrupt => answered ⟨why, xreading, abrupt⟩
      refine ⟨.failed, unpassed, ⟨why, taken, hwhy, kept, goes⟩, ?_⟩
      have noTree : x.tree? = none := by
        unfold Expression.tree?
        rw [xreading]
        rfl
      rw [own unpassed, costed_of_tree?_eq_none noTree]
      exact ⟨cost, maxDepth⟩
  obtain ⟨fate, hfate⟩ := ends
  obtain ⟨_, _, _, _, sets⟩ := outcome_sets scope x
  subst hx
  refine ⟨?_, ?_, ?_, ?_, fate, hfate, fun fate' h => h.unique hfate⟩
  · rw [sets]
  · rw [sets]
  · rw [sets]
  · rw [sets]
    exact decide_eq_true_iff

/-- If no formula ends the run, each expression comes out as itself. -/
theorem forall₂_accounted (links : Catalog.DocLinks) (mode : Cost.Mode) (r : Request) (taken : Nat)
    (h : (r.analyze links mode taken).1.isAbandoned = false) :
    List.Forall₂ (Accounted r (r.analyze links mode taken).1.expressions) r.expressions
      (r.analyze links mode taken).1.expressions := by
  have answered := isAbandoned_analyze.1 h
  rw [analyze_expressions, List.forall₂_map_right_iff, List.forall₂_iff_zip]
  obtain ⟨lengths, read⟩ := List.forall₂_iff_zip.1
    (forall₂_readAll (calculatedNames r.expressions) r.expressions taken)
  refine ⟨lengths, fun {e x} hmem => ?_⟩
  obtain ⟨he, hx⟩ := List.of_mem_zip hmem
  obtain ⟨t, ht⟩ := read hmem
  obtain ⟨reading, reads, sets⟩ := readOne_sets he t
  exact accounted_outcome he reads (ht.trans sets) (answered x hx)

theorem totalCost_ofExpressions (expressions : List Expression) :
    (Analysis.ofExpressions expressions).totalCost =
      (expressions.filterMap Expression.cost).sum := by
  show expressions.foldr (fun e sum => e.cost.getD 0 + sum) 0 = _
  induction expressions with
  | nil => rfl
  | cons e rest ih =>
    rw [List.foldr_cons, ih]
    cases hcost : e.cost with
    | none =>
      rw [List.filterMap_cons_none hcost]
      exact Nat.zero_add _
    | some cost =>
      rw [List.filterMap_cons_some hcost, List.sum_cons]
      rfl

theorem isRefused_iff {e : Expression} :
    e.isRefused = true ↔ ∃ why, e.reading = .refused why := by
  unfold Expression.isRefused
  cases e.reading with
  | unread => exact iff_of_false Bool.false_ne_true fun h => nomatch h
  | tree n => exact iff_of_false Bool.false_ne_true fun h => nomatch h
  | refused why => exact iff_of_true rfl ⟨why, rfl⟩

/-- Every result is that of some expression. -/
theorem exists_accounted {r : Request} {results : List Expression}
    (each : List.Forall₂ (Accounted r results) r.expressions results) {x : Expression}
    (h : x ∈ results) : ∃ e, Accounted r results e x := by
  obtain ⟨i, hi, rfl⟩ := List.getElem_of_mem h
  exact ⟨_, each.get (each.length_eq ▸ hi) hi⟩

/-- Where each expression is accounted for, so are sums over them. -/
theorem accounts_of_each {r : Request} {a : Analysis}
    (sums : ∃ results, a = .ofExpressions results)
    (each : List.Forall₂ (Accounted r a.expressions) r.expressions a.expressions) :
    Accounts r a := by
  obtain ⟨results, rfl⟩ := sums
  refine ⟨each, totalCost_ofExpressions results, ?_, ?_⟩
  · show results.any Expression.isRefused = true ↔ _
    rw [List.any_eq_true]
    exact exists_congr fun e => and_congr_right fun _ => isRefused_iff
  · show results.countP (fun e => e.isRead && e.usedInQuery) = _
    rw [List.countP_eq_length_filter]
    refine congrArg List.length (List.filter_congr fun x hx => congrArg (x.isRead && ·) ?_)
    obtain ⟨e, accounted⟩ := exists_accounted each hx
    rw [Bool.eq_iff_iff, decide_eq_true_iff]
    refine accounted.usedInQuery.trans (not_congr ?_)
    rw [← accounted.kind]

/-- The totals of an analysis are sums over its list. -/
theorem exists_analyze_eq (links : Catalog.DocLinks) (mode : Cost.Mode) (r : Request)
    (taken : Nat) : ∃ results, (r.analyze links mode taken).1 = .ofExpressions results :=
  ⟨_, rfl⟩

/-- **Every expression is accounted for**: if no formula ends the run, an analysis lists the
expressions of its request one for one, each of which ended in exactly one way, and its totals are
those of the list. -/
theorem analyze_accounts (links : Catalog.DocLinks) (mode : Cost.Mode) (r : Request) (taken : Nat)
    (h : (r.analyze links mode taken).1.isAbandoned = false) :
    Accounts r (r.analyze links mode taken).1 :=
  accounts_of_each (exists_analyze_eq links mode r taken) (forall₂_accounted links mode r taken h)

/-- A request of a formula that is read, one that is refused, and metrics and a field that are
passed over. -/
def mixedRequest : Request where
  calculatedFields := [⟨"profit", some "SUM(sales)", none⟩, ⟨"broken", some "(", none⟩]
  fields := [⟨"profit", none, none⟩]
  metrics := [⟨"profit", none, some "CUSTOM"⟩, ⟨"broken", none, some "CUSTOM"⟩]

theorem analyze_accounts_mixed :
    (mixedRequest.analyze .off .exhaustive 0).1.isAbandoned = false ∧
      Accounts mixedRequest (mixedRequest.analyze .off .exhaustive 0).1 := by
  have answered : (mixedRequest.analyze .off .exhaustive 0).1.isAbandoned = false := by
    decide +kernel
  exact ⟨answered, analyze_accounts .off .exhaustive mixedRequest 0 answered⟩

/-- Where everything is accounted for, no formula ends the run. -/
theorem Accounts.answered {r : Request} {a : Analysis} (h : Accounts r a) :
    a.isAbandoned = false := by
  refine a.isAbandoned_eq_false.2 ?_
  rintro x hx ⟨why, hwhy, abrupt⟩
  obtain ⟨e, accounted⟩ := exists_accounted h.each hx
  obtain ⟨fate, ends, -⟩ := accounted.ends
  cases fate with
  | passedOver =>
    rw [ends.2.1] at hwhy
    cases hwhy
  | parsed =>
    obtain ⟨n, _, -, hn⟩ := ends.2.1
    rw [hn] at hwhy
    cases hwhy
  | failed =>
    obtain ⟨why', _, -, hwhy', goes⟩ := ends.2.1
    rw [hwhy'] at hwhy
    cases hwhy
    rw [goes] at abrupt
    cases abrupt

/-- A division whose right side is missing, and a metric that can be read. -/
def unfinishedDivision : Request where
  calculatedFields := [⟨"a", some "1 DIV", none⟩]
  metrics := [⟨"sales", none, some "SUM"⟩]

/-- A division whose right side is missing is no failure of its expression alone: it ends the whole
run, and the metric gets no answer either. -/
theorem not_accounts_unfinishedDivision :
    (unfinishedDivision.analyze .off .exhaustive 0).1.isAbandoned = true ∧
      ¬ Accounts unfinishedDivision (unfinishedDivision.analyze .off .exhaustive 0).1 := by
  have abandoned : (unfinishedDivision.analyze .off .exhaustive 0).1.isAbandoned = true := by
    decide +kernel
  refine ⟨abandoned, fun accounts => ?_⟩
  rw [accounts.answered] at abandoned
  exact Bool.false_ne_true abandoned

end DashCalc.Request
