import DashCalc.Proofs.Request.Accounting

/-!
# The order of costing

Costing goes through the expressions of a request in some order, and what was costed already stands
among the expressions that the next one is costed with. None of this shows: any order that leaves
out no place, even one that comes back to some, gives the same analysis, in which an expression that
was read has the results of its report among the expressions as they were read
(`Request.analyzeInOrder_eq`).
-/

namespace DashCalc.Request

open Cost (Scope)

variable (links : Catalog.DocLinks) (mode : Cost.Mode) (r : Request) (taken : Nat)

theorem length_readScope : (r.readScope links mode taken).expressions.length =
    r.expressions.length :=
  (forall₂_readAll (calculatedNames r.expressions) r.expressions taken).length_eq.symm

/-- With any order that leaves out no place, an analysis is made of the outcomes in the scope of the
request. -/
theorem analyzeInOrder_eq_outcome (order : List Expression → List Nat)
    (all : ∀ index < r.expressions.length,
      index ∈ order (r.readScope links mode taken).expressions) :
    r.analyzeInOrder order links mode taken =
      (.ofExpressions ((r.readScope links mode taken).expressions.map
          (outcome (r.readScope links mode taken))),
        (readAll (calculatedNames r.expressions) r.expressions taken).2) := by
  rw [← length_readScope links mode r taken] at all
  unfold analyzeInOrder
  unfold readScope at all ⊢
  dsimp only at all ⊢
  generalize readAll (calculatedNames r.expressions) r.expressions taken = result at all ⊢
  obtain ⟨read, last⟩ := result
  dsimp only at all ⊢
  rw [map_withSourceCost ⟨read, r.parameters, links, mode⟩ all]

/-- Whether an expression comes out with what its report in a scope says, if it was read. -/
def Reported (scope : Scope) (e e' : Expression) : Prop :=
  e'.reading = e.reading ∧ (e.isRead = true → ∃ report, scope.analyze e = some report ∧
    e'.cost = some report.totalCost ∧ e'.maxDepth = some report.maxDepth ∧
    e'.isAggregation = report.isAggregation ∧ e'.isStringFunction = report.isStringFunction)

/-- An expression in the scope of a request is one of the request with its reading. -/
theorem exists_reads {x : Expression} (hx : x ∈ (r.readScope links mode taken).expressions) :
    ∃ e ∈ r.expressions, ∃ reading, Reads r e reading ∧
      x = { e with reading, usedInQuery := decide (e.kind ≠ .calculatedField) } := by
  have read := forall₂_readAll (calculatedNames r.expressions) r.expressions taken
  obtain ⟨i, hi, rfl⟩ := List.getElem_of_mem hx
  have hi' : i < r.expressions.length := read.length_eq ▸ hi
  have he : r.expressions[i] ∈ r.expressions := List.getElem_mem hi'
  obtain ⟨t, ht⟩ := read.get hi' hi
  obtain ⟨reading, reads, sets⟩ := readOne_sets he t
  exact ⟨r.expressions[i], he, reading, reads, ht.trans sets⟩

/-- What was read is no custom metric: these are passed over. -/
theorem not_isCustomMetric_of_isRead {x : Expression}
    (hx : x ∈ (r.readScope links mode taken).expressions) (hread : x.isRead = true) :
    ¬ x.isCustomMetric = true := by
  intro custom
  obtain ⟨e, -, reading, reads, rfl⟩ := exists_reads links mode r taken hx
  cases reading with
  | unread => cases hread
  | tree n => exact reads.1 (.inl custom)
  | refused why => cases hread

/-- In the scope of a request nothing is costed yet. -/
theorem uncosted_of_mem_readScope {x : Expression}
    (hx : x ∈ (r.readScope links mode taken).expressions) : x.cost = none ∧ x.maxDepth = none := by
  obtain ⟨e, he, reading, -, rfl⟩ := exists_reads links mode r taken hx
  have fresh := untouched_of_mem he
  exact ⟨fresh.cost, fresh.maxDepth⟩

theorem reported_outcome {scope : Scope} {e : Expression}
    (own : e.isRead = true → ¬ e.isCustomMetric = true) : Reported scope e (outcome scope e) := by
  refine ⟨reading_outcome scope e, fun hread => ?_⟩
  obtain ⟨n, hn⟩ := Option.isSome_iff_exists.1 hread
  rw [outcome_of_not_isCustomMetric (own hread)]
  unfold costed Scope.analyze
  rw [hn]
  exact ⟨_, rfl, rfl, rfl, rfl, rfl⟩

/-- **The order of costing does not show.** Any order that leaves out no place gives the same
analysis. In it each expression that was read has the cost, the depth and the flags that its report
finds among the expressions as they were read, none of them costed, even if calculated fields refer
to each other or share names. -/
theorem analyzeInOrder_eq (order : List Expression → List Nat)
    (all : ∀ index < r.expressions.length,
      index ∈ order (r.readScope links mode taken).expressions) :
    let scope := r.readScope links mode taken
    let results := (r.analyze links mode taken).1.expressions
    r.analyzeInOrder order links mode taken = r.analyze links mode taken ∧
      (∀ e ∈ scope.expressions, e.cost = none ∧ e.maxDepth = none) ∧
      List.Forall₂ (Reported scope) scope.expressions results := by
  intro scope results
  have asReferred := analyzeInOrder_eq_outcome links mode r taken costOrder fun _ h =>
    mem_costOrder (length_readScope links mode r taken ▸ h)
  have asGiven := analyzeInOrder_eq_outcome links mode r taken order all
  refine ⟨asGiven.trans asReferred.symm,
    fun e he => uncosted_of_mem_readScope links mode r taken he, ?_⟩
  show List.Forall₂ _ _ (r.analyze links mode taken).1.expressions
  rw [analyze_expressions, List.forall₂_map_right_iff, List.forall₂_same]
  exact fun e he => reported_outcome (not_isCustomMetric_of_isRead links mode r taken he)

/-- A rank and another field of its name, a field that both refer to and that refers back, and a
metric that takes its cost. -/
def circularRequest : Request where
  calculatedFields := [⟨"a", some "rank([max(b)])", none⟩, ⟨"b", some "max(a)", none⟩,
    ⟨"a", some "b + 1", none⟩]
  metrics := [⟨"b", none, some "CUSTOM"⟩]

/-- Costing them from the last one to the first, and some of them twice, makes no difference. -/
theorem analyzeInOrder_eq_circular :
    let order := [3, 2, 1, 2, 0, 1]
    let scope := circularRequest.readScope .off .exhaustive 0
    let analysis := circularRequest.analyze .off .exhaustive 0
    (∀ index < circularRequest.expressions.length, index ∈ order) ∧
      circularRequest.analyzeInOrder (fun _ => order) .off .exhaustive 0 = analysis ∧
      List.Forall₂ (Reported scope) scope.expressions analysis.1.expressions := by
  intro order scope analysis
  have all : ∀ index < circularRequest.expressions.length, index ∈ order := by
    decide
  obtain ⟨same, -, reported⟩ :=
    analyzeInOrder_eq .off .exhaustive circularRequest 0 (fun _ => order) all
  exact ⟨all, same, reported⟩

end DashCalc.Request
