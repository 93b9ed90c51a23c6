import DashCalc.Proofs.Node.Parts
import DashCalc.Proofs.Reference.Edges
import DashCalc.Proofs.Reference.Ordering
import DashCalc.Proofs.Request.Outcome

/-!
# The order of costing as a schedule

The places at which costing stops are those of the calculated fields, name after name in the order
of evaluation, and then all that are left (`Request.costOrder_eq`). A name may have several places,
but a place has one name, so none comes twice. Where no name reaches itself all calculated fields
have their names in the order of evaluation, and a place that has to wait for another one comes
after it (`Request.costOrder_isSchedule`).
-/

namespace DashCalc.Request

variable {expressions : List Expression} {name : String} {i j : Nat}

/-! ## Places -/

theorem mem_indicesWhere {p : Expression → Bool} :
    i ∈ indicesWhere p expressions ↔ ∃ e, expressions[i]? = some e ∧ p e = true := by
  simp only [indicesWhere, List.mem_map, List.mem_filter, Prod.exists,
    List.mk_mem_zipIdx_iff_getElem?]
  constructor
  · rintro ⟨e, _, ⟨he, hp⟩, rfl⟩
    exact ⟨e, he, hp⟩
  · rintro ⟨e, he, hp⟩
    exact ⟨e, i, ⟨he, hp⟩, rfl⟩

theorem nodup_indicesWhere (p : Expression → Bool) (expressions : List Expression) :
    (indicesWhere p expressions).Nodup := by
  have sublist : (indicesWhere p expressions).Sublist (expressions.zipIdx.map Prod.snd) :=
    List.filter_sublist.map Prod.snd
  rw [List.zipIdx_map_snd] at sublist
  exact sublist.nodup List.nodup_range'

/-- The places of the calculated fields of a name. -/
def placesOf (expressions : List Expression) (name : String) : List Nat :=
  indicesWhere (fun e => e.kind == .calculatedField && e.name == name) expressions

theorem mem_placesOf : i ∈ placesOf expressions name ↔
    ∃ e, expressions[i]? = some e ∧ e.kind = .calculatedField ∧ e.name = name := by
  simp only [placesOf, mem_indicesWhere, Bool.and_eq_true, beq_iff_eq]

/-- A place has one name. -/
theorem disjoint_placesOf {name' : String} (h : name ≠ name') :
    (placesOf expressions name).Disjoint (placesOf expressions name') := by
  intro i hi hi'
  obtain ⟨e, he, -, rfl⟩ := mem_placesOf.1 hi
  obtain ⟨e', he', -, rfl⟩ := mem_placesOf.1 hi'
  cases he.symm.trans he'
  exact h rfl

/-! ## What comes first -/

/-- The names of the calculated fields in the order in which they are costed, if there is one. -/
def orderedNames (expressions : List Expression) : List String :=
  (ReferenceGraph.ofExpressions expressions).evaluationOrder.getD []

/-- The places of the calculated fields in this order. -/
def placesFirst (expressions : List Expression) : List Nat :=
  (orderedNames expressions).flatMap (placesOf expressions)

theorem costOrder_eq (expressions : List Expression) : costOrder expressions =
    placesFirst expressions ++
      (List.range expressions.length).filter fun i => !(placesFirst expressions).contains i :=
  rfl

theorem nodup_orderedNames (expressions : List Expression) : (orderedNames expressions).Nodup := by
  unfold orderedNames
  cases h : (ReferenceGraph.ofExpressions expressions).evaluationOrder with
  | none => exact List.nodup_nil
  | some order => exact (ReferenceGraph.evaluationOrder_sound h).1

theorem nodup_placesFirst (expressions : List Expression) : (placesFirst expressions).Nodup :=
  List.nodup_flatMap.2 ⟨fun _ _ => nodup_indicesWhere _ expressions,
    (nodup_orderedNames expressions).imp disjoint_placesOf⟩

/-- Costing stops at each place once. -/
theorem perm_costOrder (expressions : List Expression) :
    (costOrder expressions).Perm (List.range expressions.length) := by
  have nodup : (costOrder expressions).Nodup := by
    rw [costOrder_eq, List.nodup_append']
    refine ⟨nodup_placesFirst expressions, List.nodup_range.filter _, fun i hfirst hrest => ?_⟩
    simp [hfirst] at hrest
  refine (List.perm_ext_iff_of_nodup nodup List.nodup_range).2 fun i => ?_
  rw [List.mem_range]
  refine ⟨fun hi => ?_, mem_costOrder⟩
  rw [costOrder_eq, List.mem_append] at hi
  rcases hi with hi | hi
  · obtain ⟨name, -, hi⟩ := List.mem_flatMap.1 hi
    obtain ⟨e, he, -⟩ := mem_placesOf.1 hi
    exact (List.getElem?_eq_some_iff.1 he).1
  · exact List.mem_range.1 (List.mem_filter.1 hi).1

/-! ## Who waits for whom -/

/-- Whether the expression at the first place has to wait for the calculated field at the second
one: it is no calculated field, or a column of that name stands anywhere in its tree. -/
def WaitsFor (expressions : List Expression) (i j : Nat) : Prop :=
  ∃ e f, expressions[i]? = some e ∧ expressions[j]? = some f ∧ f.kind = .calculatedField ∧
    (e.kind = .calculatedField → ∃ n, e.tree? = some n ∧ n.HasColumn f.name)

/-- Among calculated fields, the one that waits refers to the other. -/
theorem refers_of_waitsFor {a b : String} (hi : i ∈ placesOf expressions a)
    (hj : j ∈ placesOf expressions b) (waits : WaitsFor expressions i j) :
    (ReferenceGraph.ofExpressions expressions).Refers a b := by
  obtain ⟨e, f, he, hf, -, refers⟩ := waits
  obtain ⟨e', he', kind, rfl⟩ := mem_placesOf.1 hi
  obtain ⟨f', hf', kind', rfl⟩ := mem_placesOf.1 hj
  cases he.symm.trans he'
  cases hf.symm.trans hf'
  obtain ⟨n, hn, column⟩ := refers kind
  exact ReferenceGraph.refers_ofExpressions.2 ⟨e, ⟨List.mem_of_getElem? he, kind⟩, rfl,
    ⟨n, hn, Node.mem_columns_iff_hasColumn.2 column⟩,
    ReferenceGraph.mem_nodes_ofExpressions.2 ⟨f, ⟨List.mem_of_getElem? hf, kind'⟩, rfl⟩⟩

section Acyclic

variable (acyclic : ∀ name, ¬ (ReferenceGraph.ofExpressions expressions).Reaches name name)
include acyclic

/-- Where no name reaches itself, the names of all calculated fields are ordered, and none refers to
a later one. -/
theorem orderedNames_sound :
    (∀ e : Expression, e.IsCalculatedIn expressions → e.name ∈ orderedNames expressions) ∧
      (orderedNames expressions).Pairwise fun a b =>
        ¬ (ReferenceGraph.ofExpressions expressions).Refers a b := by
  obtain ⟨order, horder⟩ :=
    Option.isSome_iff_exists.1 (ReferenceGraph.isSome_evaluationOrder.2 acyclic)
  obtain ⟨nodup, perm, before⟩ := ReferenceGraph.evaluationOrder_sound horder
  have names : orderedNames expressions = order := by
    rw [orderedNames, horder, Option.getD_some]
  rw [names]
  refine ⟨fun e he => perm.mem_iff.2 (ReferenceGraph.mem_nodes_ofExpressions.2 ⟨e, he, rfl⟩), ?_⟩
  rw [List.pairwise_iff_getElem]
  intro k l hk hl later refers
  have earlier := before _ _ refers
  rw [nodup.idxOf_getElem, nodup.idxOf_getElem] at earlier
  exact Nat.lt_asymm earlier later

theorem not_waitsFor_self (i : Nat) : ¬ WaitsFor expressions i i := by
  intro waits
  have ⟨_, f, _, hf, kind, _⟩ := waits
  have hi : i ∈ placesOf expressions f.name := mem_placesOf.2 ⟨f, hf, kind, rfl⟩
  exact acyclic f.name (.single (refers_of_waitsFor hi hi waits))

theorem mem_placesFirst_of_waitsFor (waits : WaitsFor expressions i j) :
    j ∈ placesFirst expressions := by
  obtain ⟨-, f, -, hf, kind, -⟩ := waits
  exact List.mem_flatMap.2 ⟨f.name,
    (orderedNames_sound acyclic).1 f ⟨List.mem_of_getElem? hf, kind⟩,
    mem_placesOf.2 ⟨f, hf, kind, rfl⟩⟩

/-- No place comes before one that it waits for: nothing waits for a place that is not among the
first ones, and of these none waits for one of its own name or of a later name. -/
theorem pairwise_costOrder :
    (costOrder expressions).Pairwise fun i j => ¬ WaitsFor expressions i j := by
  have last (i : Nat) {j : Nat} (hj : j ∈ (List.range expressions.length).filter
      fun i => !(placesFirst expressions).contains i) : ¬ WaitsFor expressions i j := by
    intro waits
    simp [mem_placesFirst_of_waitsFor acyclic waits] at hj
  rw [costOrder_eq, List.pairwise_append]
  refine ⟨List.pairwise_flatMap.2 ⟨fun name _ => ?_, ?_⟩, ?_, fun i _ j hj => last i hj⟩
  · exact List.pairwise_of_forall_mem_list fun i hi j hj waits =>
      acyclic name (.single (refers_of_waitsFor hi hj waits))
  · exact (orderedNames_sound acyclic).2.imp fun apart i hi j hj waits =>
      apart (refers_of_waitsFor hi hj waits)
  · exact List.pairwise_of_forall_mem_list fun i _ j hj => last i hj

/-- A place comes after those that it waits for. -/
theorem idxOf_lt_of_waitsFor (waits : WaitsFor expressions i j) :
    (costOrder expressions).idxOf j < (costOrder expressions).idxOf i := by
  have ⟨_, _, he, hf, _⟩ := waits
  have hi : (costOrder expressions).idxOf i < (costOrder expressions).length :=
    List.idxOf_lt_length_iff.2 (mem_costOrder (List.getElem?_eq_some_iff.1 he).1)
  have hj : (costOrder expressions).idxOf j < (costOrder expressions).length :=
    List.idxOf_lt_length_iff.2 (mem_costOrder (List.getElem?_eq_some_iff.1 hf).1)
  rcases Nat.lt_trichotomy ((costOrder expressions).idxOf j) ((costOrder expressions).idxOf i)
    with before | same | after
  · exact before
  · rw [List.idxOf_inj (List.idxOf_lt_length_iff.1 hj)] at same
    subst same
    exact absurd waits (not_waitsFor_self acyclic j)
  · have apart := List.pairwise_iff_getElem.1 (pairwise_costOrder acyclic) _ _ hi hj after
    rw [List.getElem_idxOf, List.getElem_idxOf] at apart
    exact absurd waits apart

end Acyclic

/-- **The order of costing is a complete schedule.** Whatever the expressions are, costing stops at
each place exactly once. If no name reaches itself by references, all calculated fields come before
all other expressions, and a calculated field comes after all those of whose names it has a column,
also where fields share a name or were not read. -/
theorem costOrder_isSchedule (expressions : List Expression) :
    (costOrder expressions).Perm (List.range expressions.length) ∧
      ((∀ name, ¬ (ReferenceGraph.ofExpressions expressions).Reaches name name) →
        ∀ i j, WaitsFor expressions i j →
          (costOrder expressions).idxOf j < (costOrder expressions).idxOf i) :=
  ⟨perm_costOrder expressions, fun acyclic _ _ => idxOf_lt_of_waitsFor acyclic⟩

/-- A total over what is left by month, one more of this name that was not read, a field, and what
is left after tax. -/
def monthlyExpressions : List Expression :=
  [{ Expression.calculatedField "total" "" with
      reading := .tree (.call 0 true "SUM" [.number 1 "1"]
        (some ⟨[⟨2, .column 3 none "month", .ascending⟩], [.column 4 none "net"], none⟩)) },
    .calculatedField "total" "", .field "net",
    { Expression.calculatedField "net" "" with
      reading := .tree (.binary 0 "-" (.column 1 none "gross") (.column 2 none "tax")) }]

theorem costOrder_isSchedule_monthly :
    (∀ name, ¬ (ReferenceGraph.ofExpressions monthlyExpressions).Reaches name name) ∧
      WaitsFor monthlyExpressions 0 3 ∧ WaitsFor monthlyExpressions 2 1 ∧
      (costOrder monthlyExpressions).Perm [0, 1, 2, 3] ∧
      (costOrder monthlyExpressions).idxOf 3 < (costOrder monthlyExpressions).idxOf 0 ∧
      (costOrder monthlyExpressions).idxOf 1 < (costOrder monthlyExpressions).idxOf 2 := by
  have acyclic := ReferenceGraph.isSome_evaluationOrder.1
    (show (ReferenceGraph.ofExpressions monthlyExpressions).evaluationOrder.isSome = true by decide)
  have first : WaitsFor monthlyExpressions 0 3 :=
    ⟨_, _, rfl, rfl, rfl, fun _ => ⟨_, rfl, Node.mem_columns_iff_hasColumn.1 (by decide)⟩⟩
  have last : WaitsFor monthlyExpressions 2 1 :=
    ⟨_, _, rfl, rfl, rfl, fun kind => nomatch kind⟩
  have scheduled := costOrder_isSchedule monthlyExpressions
  exact ⟨acyclic, first, last, scheduled.1, scheduled.2 acyclic 0 3 first,
    scheduled.2 acyclic 2 1 last⟩

example : costOrder monthlyExpressions = [3, 0, 1, 2] := by decide

end DashCalc.Request
