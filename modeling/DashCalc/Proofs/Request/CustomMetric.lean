import DashCalc.Proofs.Cost.Entering
import DashCalc.Proofs.Request.Chain
import DashCalc.Proofs.Request.CostingOrder

/-!
# What custom metrics cost

A custom metric takes its cost from the first calculated field of its name that was read. A column of
the same name is looked up as the first calculated field of the name, read or not. Both are the same
field, and the metric costs what the column costs, one level less deep, unless a field that was not
read hides the other one (`Request.customMetric_costsAsColumn`). Then the column costs nothing, though
the metric has a cost (`Request.not_costsAsColumn_hidden`).
-/

namespace DashCalc.Request

open Cost (Report Scope)
open Relation (ReflTransGen)

/-- Whether a calculated field that was not read comes before the first one of its name that was. -/
def HidesSource (expressions : List Expression) (name : String) : Prop :=
  ∃ before source after, expressions = before ++ source :: after ∧ Computes name source ∧
    (∀ e ∈ before, ¬ Computes name e) ∧ ∃ e ∈ before, e.kind = .calculatedField ∧ e.name = name

/-- Whether a metric costs what a report on a column of its name says: as much, and one level less
deep if some calculated field of the name was read. -/
def CostsAsColumn (expressions : List Expression) (metric : Expression) (report : Report) : Prop :=
  report.totalCost = metric.cost.getD 0 ∧
    ((∃ f ∈ expressions, Computes metric.name f) →
      ∃ depth, metric.maxDepth = some depth ∧ report.maxDepth = depth + 1)

/-! ## What a name is looked up as -/

section Lookup

variable {scope : Scope} {name : String}

theorem tree?_of_free (free : scope.parameters.get? name = none) :
    scope.tree? name = (scope.find? .calculatedField name).bind Expression.tree? := by
  unfold Scope.tree? Scope.target? Scope.referent
  rw [free]
  cases scope.find? .calculatedField name with
  | some e => rfl
  | none => cases scope.find? .field name <;> rfl

/-- A tree that a name is followed into is that of a calculated field that was read. -/
theorem computes_of_tree? {n : Node} (hn : scope.tree? name = some n) :
    ∃ f ∈ scope.expressions, Computes name f := by
  obtain ⟨f, hf, htree⟩ := Scope.tree?_eq_some.1 hn
  obtain ⟨hmem, hkind, hname⟩ := Scope.find?_eq_some (Scope.target?_eq_some.1 hf).2
  exact ⟨f, hmem, hkind, Option.isSome_of_mem htree, hname⟩

/-- If nothing hides it, the source of a name is what the name is looked up as. -/
theorem find?_of_not_hidesSource {source : Expression}
    (first : FirstComputes scope.expressions name source)
    (clear : ¬ HidesSource scope.expressions name) :
    scope.find? .calculatedField name = some source := by
  obtain ⟨before, after, split, computes, earlier⟩ := first
  refine List.find?_eq_some_iff_append.2 ⟨?_, before, after, split, fun e he => ?_⟩
  · rw [computes.1, computes.2.2, beq_self_eq_true, beq_self_eq_true]
    rfl
  · rw [Bool.not_eq_true', Bool.and_eq_false_iff, beq_eq_false_iff_ne, beq_eq_false_iff_ne]
    by_contra found
    rw [not_or, not_not, not_not] at found
    exact clear ⟨before, source, after, split, computes, earlier, e, he, found⟩

/-- If the source of a name is hidden, the name is not followed. -/
theorem tree?_of_hidesSource (hides : HidesSource scope.expressions name) :
    scope.tree? name = none := by
  obtain ⟨before, source, after, split, -, earlier, e, he, hkind, hname⟩ := hides
  rw [Option.eq_none_iff_forall_ne_some]
  intro n hn
  obtain ⟨f, hf, htree⟩ := Scope.tree?_eq_some.1 hn
  have found := (Scope.target?_eq_some.1 hf).2
  obtain ⟨-, fkind, fname⟩ := Scope.find?_eq_some found
  unfold Scope.find? at found
  -- the search ends before it comes to the source
  have here : (before.find? fun e => e.kind == .calculatedField && e.name == name).isSome := by
    rw [List.find?_isSome]
    exact ⟨e, he, by rw [hkind, hname, beq_self_eq_true, beq_self_eq_true]; rfl⟩
  rw [split, List.find?_append, Option.or_of_isSome here] at found
  exact earlier f (List.mem_of_find?_eq_some found) ⟨fkind, Option.isSome_of_mem htree, fname⟩

end Lookup

/-! ## Columns -/

section Columns

variable {scope : Scope} {metric : Expression} {own : Option String} {column : Node}
  (named : column.column? = some metric.name)

include named

/-- A column with a hidden source costs nothing and opens no level, unlike the metric. -/
theorem not_costsAsColumn (hides : HidesSource scope.expressions metric.name) :
    ¬ CostsAsColumn scope.expressions metric (scope.report own column) := by
  rintro ⟨-, deeper⟩
  have flat : (scope.report own column).maxDepth = 0 := congrArg Report.maxDepth
    (Scope.report_column_of_tree?_eq_none named (tree?_of_hidesSource hides))
  obtain ⟨before, source, after, split, computes, -⟩ := hides
  obtain ⟨depth, -, deeper⟩ :=
    deeper ⟨source, split ▸ List.mem_append_right _ List.mem_cons_self, computes⟩
  omega

/-- A column whose source is not hidden costs as much as the source, and so as the metric. -/
theorem costsAsColumn (custom : metric.isCustomMetric = true)
    (asSource : CostsAsSource scope.expressions metric)
    (reported : ∀ {f : Expression} {n : Node}, f ∈ scope.expressions → f.kind = .calculatedField →
      f.tree? = some n → f.cost = some (scope.report (some f.name) n).totalCost ∧
        f.maxDepth = some (scope.report (some f.name) n).maxDepth)
    (free : scope.parameters.get? metric.name = none)
    (apart : ∀ y ∈ own, ¬ ReflTransGen scope.Follows metric.name y)
    (clear : ¬ HidesSource scope.expressions metric.name) :
    CostsAsColumn scope.expressions metric (scope.report own column) := by
  rcases asSource with ⟨-, source, first, cost, depth⟩ | ⟨unread, cost, -⟩
  · have computes := first.computes
    have found := find?_of_not_hidesSource first clear
    obtain ⟨n, hn⟩ := Option.isSome_iff_exists.1 computes.2.1
    have followed : scope.tree? metric.name = some n := by
      rw [tree?_of_free free, found]
      exact hn
    obtain ⟨sourceCost, sourceDepth⟩ := reported (Scope.find?_eq_some found).1 computes.1 hn
    rw [computes.2.2] at sourceCost sourceDepth
    have totals := Scope.report_column named followed apart
    have totalCost := congrArg Report.totalCost totals
    have maxDepth := congrArg Report.maxDepth totals
    refine ⟨?_, fun _ => ⟨_, depth.trans sourceDepth, maxDepth⟩⟩
    rw [cost, sourceCost]
    exact totalCost
  · have unread := unread custom
    have followed : scope.tree? metric.name = none := by
      rw [Option.eq_none_iff_forall_ne_some]
      intro n hn
      obtain ⟨f, hf, computes⟩ := computes_of_tree? hn
      exact unread f hf computes
    refine ⟨?_, fun ⟨f, hf, computes⟩ => absurd computes (unread f hf)⟩
    rw [cost]
    exact congrArg Report.totalCost (Scope.report_column_of_tree?_eq_none named followed)

end Columns

/-! ## Metrics -/

variable (links : Catalog.DocLinks) (mode : Cost.Mode) (r : Request) (taken : Nat)

/-- In the scope of a request, custom metrics are unread: they are passed over. -/
theorem unread_of_isCustomMetric {x : Expression}
    (hx : x ∈ (r.readScope links mode taken).expressions) (custom : x.isCustomMetric = true) :
    x.reading = .unread := by
  obtain ⟨e, -, reading, reads, rfl⟩ := exists_reads links mode r taken hx
  cases reading with
  | unread => rfl
  | tree n => exact absurd (.inl custom) reads.1
  | refused why => exact absurd (.inl custom) reads.1

/-- Among the results, a custom metric costs as much as its calculated field. -/
theorem costsAsSource_of_isCustomMetric {metric : Expression}
    (hm : metric ∈ (r.analyze links mode taken).1.expressions)
    (custom : metric.isCustomMetric = true) :
    CostsAsSource (r.analyze links mode taken).1.expressions metric := by
  rw [analyze_expressions] at hm ⊢
  obtain ⟨e, he, rfl⟩ := List.mem_map.1 hm
  have own : e.isCustomMetric = true := by
    obtain ⟨_, _, _, _, sets⟩ := outcome_sets (r.readScope links mode taken) e
    rw [sets] at custom
    exact custom
  obtain ⟨cost, maxDepth⟩ := uncosted_of_mem_readScope links mode r taken he
  exact costsAsSource_outcome (unread_of_isCustomMetric links mode r taken he own) cost maxDepth

/-- **A custom metric costs what a column of its name costs, unless its source is hidden.** If no
parameter has the name of the metric, any expression that is only a column of that name is reported,
among the results, to cost as much as the metric, and to be one level deeper if the metric has a
source, exactly if no calculated field of the name that was not read comes before the source. This
holds for calculated fields in cycles and for several of one name, and for any expression with the
column that is no calculated field to which the name leads back. -/
theorem customMetric_costsAsColumn {metric e : Expression} {column : Node}
    (hm : metric ∈ (r.analyze links mode taken).1.expressions)
    (custom : metric.isCustomMetric = true) (free : r.parameters.get? metric.name = none)
    (he : e.tree? = some column) (named : column.column? = some metric.name)
    (apart : e.kind = .calculatedField →
      ¬ ReflTransGen (r.analyzedScope links mode taken).Follows metric.name e.name) :
    ∃ report, (r.analyzedScope links mode taken).analyze e = some report ∧
      (CostsAsColumn (r.analyze links mode taken).1.expressions metric report ↔
        ¬ HidesSource (r.analyze links mode taken).1.expressions metric.name) := by
  have apart (y : String) (hy : y ∈ Scope.ownName e) :
      ¬ ReflTransGen (r.analyzedScope links mode taken).Follows metric.name y := by
    unfold Scope.ownName at hy
    split at hy
    · next kind =>
      obtain rfl := Option.some.inj hy
      exact apart (beq_iff_eq.1 kind)
    · cases hy
  have asSource := costsAsSource_of_isCustomMetric links mode r taken hm custom
  have reported {f : Expression} {n : Node} := costs_as_reported links mode r taken (f := f) (n := n)
  rw [← expressions_analyzedScope] at asSource reported ⊢
  refine ⟨_, Scope.analyze_eq_report he, fun costs hides => ?_, fun clear => ?_⟩
  · exact not_costsAsColumn named hides costs
  · exact costsAsColumn named custom asSource reported free apart clear

/-- Two fields of one name in cycles with another field, a metric that takes the cost of the first of
them and a metric that is only a column. -/
def circularColumn : Request where
  calculatedFields := [⟨"a", some "max(b)", none⟩, ⟨"b", some "a", none⟩, ⟨"a", some "b", none⟩]
  metrics := [⟨"a", none, some "CUSTOM"⟩, ⟨"m", some "{a}", none⟩]

/-- In the cycle the column costs as much as the metric, one level deeper. -/
theorem customMetric_costsAsColumn_circular :
    let results := (circularColumn.analyze .off .deduplicated 0).1.expressions
    let scope := circularColumn.analyzedScope .off .deduplicated 0
    ∃ metric ∈ results, metric.isCustomMetric = true ∧
      circularColumn.parameters.get? metric.name = none ∧ ¬ HidesSource results metric.name ∧
      ∃ e ∈ results, ∃ column, e.kind = .metric ∧ e.tree? = some column ∧
        column.column? = some metric.name ∧
        ∃ report, scope.analyze e = some report ∧ CostsAsColumn results metric report := by
  intro results scope
  have seen : (results.map fun e =>
      (e.name, e.kind, e.isCustomMetric, e.isRead, e.tree?.bind Node.column?)) =
        [("a", .calculatedField, false, true, none), ("b", .calculatedField, false, true, some "a"),
          ("a", .calculatedField, false, true, some "b"), ("a", .metric, true, false, none),
          ("m", .metric, false, true, some "a")] := by
    decide +kernel
  have allRead : ∀ s ∈ results.map fun e =>
      (e.name, e.kind, e.isCustomMetric, e.isRead, e.tree?.bind Node.column?),
        s.2.1 = .calculatedField → s.2.2.2.1 = true := by
    rw [seen]
    decide
  have hmetric := congrArg (·[3]?) seen
  have hcolumn := congrArg (·[4]?) seen
  simp only [List.getElem?_map] at hmetric hcolumn
  obtain ⟨metric, hm, hmetric⟩ := Option.map_eq_some_iff.1 hmetric
  obtain ⟨e, he, hcolumn⟩ := Option.map_eq_some_iff.1 hcolumn
  simp only [Prod.mk.injEq] at hmetric hcolumn
  obtain ⟨hname, -, custom, -⟩ := hmetric
  obtain ⟨-, hkind, -, -, hcolumn⟩ := hcolumn
  obtain ⟨column, htree, named⟩ := Option.bind_eq_some_iff.1 hcolumn
  have clear : ¬ HidesSource results metric.name := by
    rintro ⟨before, source, after, split, -, earlier, f, hf, fkind, fname⟩
    have hf' : f ∈ results := split ▸ List.mem_append_left _ hf
    exact earlier f hf ⟨fkind, allRead _ (List.mem_map_of_mem hf') fkind, fname⟩
  have free : circularColumn.parameters.get? metric.name = none := by
    rw [hname]
    decide +kernel
  obtain ⟨report, hreport, costs⟩ := customMetric_costsAsColumn .off .deduplicated circularColumn 0
    (List.mem_of_getElem? hm) custom free htree (hname ▸ named)
    fun kind => nomatch hkind.symm.trans kind
  exact ⟨metric, List.mem_of_getElem? hm, custom, free, clear, e, List.mem_of_getElem? he, column,
    hkind, htree, hname ▸ named, report, hreport, costs.2 clear⟩

/-- A field that is refused hides a column of its name, which a metric takes its cost from. -/
def hiddenRequest : Request where
  calculatedFields := [⟨"x", some "sum({a}", none⟩]
  datasetColumns := [{ name := "x", formula := "sum({a})", analysisOnly := true }]
  metrics := [⟨"x", none, some "CUSTOM"⟩, ⟨"m", some "{x}", none⟩]

/-- A hidden source makes a difference: the metric costs five, and a column of its name nothing. -/
theorem not_costsAsColumn_hidden :
    let results := (hiddenRequest.analyze .off .exhaustive 0).1.expressions
    let scope := hiddenRequest.analyzedScope .off .exhaustive 0
    ∃ metric ∈ results, metric.isCustomMetric = true ∧
      hiddenRequest.parameters.get? metric.name = none ∧
      metric.cost = some 5 ∧ metric.maxDepth = some 1 ∧
      ∃ e ∈ results, ∃ column, e.kind = .metric ∧ e.tree? = some column ∧
        column.column? = some metric.name ∧
        ∃ report, scope.analyze e = some report ∧ report.totalCost = 0 ∧ report.maxDepth = 0 ∧
          ¬ CostsAsColumn results metric report := by
  intro results scope
  have facts : (results[2]?.map fun m => (m.name, m.isCustomMetric, m.cost, m.maxDepth)) =
        some ("x", true, some 5, some 1) ∧
      (results[3]?.map fun e => (e.kind, e.tree?.bind Node.column?,
        (scope.analyze e).map fun report => (report.totalCost, report.maxDepth))) =
          some (.metric, some "x", some (0, 0)) := by
    decide +kernel
  obtain ⟨hmetric, hcolumn⟩ := facts
  obtain ⟨metric, hm, hmetric⟩ := Option.map_eq_some_iff.1 hmetric
  obtain ⟨e, he, hcolumn⟩ := Option.map_eq_some_iff.1 hcolumn
  simp only [Prod.mk.injEq] at hmetric hcolumn
  obtain ⟨hname, custom, cost, depth⟩ := hmetric
  obtain ⟨hkind, hcolumn, hreport⟩ := hcolumn
  obtain ⟨column, htree, named⟩ := Option.bind_eq_some_iff.1 hcolumn
  obtain ⟨report, hreport, totals⟩ := Option.map_eq_some_iff.1 hreport
  obtain ⟨totalCost, maxDepth⟩ := Prod.mk.inj totals
  have free : hiddenRequest.parameters.get? metric.name = none := by
    rw [hname]
    decide +kernel
  have differs : ¬ CostsAsColumn results metric report := by
    rintro ⟨same, -⟩
    rw [totalCost, cost] at same
    cases same
  exact ⟨metric, List.mem_of_getElem? hm, custom, free, cost, depth, e, List.mem_of_getElem? he,
    column, hkind, htree, hname ▸ named, report, hreport, totalCost, maxDepth, differs⟩

end DashCalc.Request
