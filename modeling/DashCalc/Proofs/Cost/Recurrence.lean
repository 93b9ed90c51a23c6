import DashCalc.Proofs.Cost.Deduplication
import DashCalc.Proofs.Cost.Follow
import DashCalc.Proofs.Reference.Cycles

/-!
# Fields that depend on themselves

A calculated field records itself exactly when the graph of references has it on a cycle
(`Scope.mem_cycles_iff_recorded`), in either mode.

A record of the field means that its own name is a reference on its trail
(`Scope.exists_dependency_iff`). What is on the trail is reached by references. Conversely, what is
reached is on the trail, or the own name is: the own name is the only one that is never written out,
and where a way ends there, the field has met itself (`Scope.Distinct.on_trail`).
-/

namespace DashCalc.Cost

open Relation (ReflTransGen TransGen)

/-! ## Records on the trail -/

namespace Scope

variable {scope : Scope}

/-- In either mode, what is recorded are entries, at least one for each key. -/
theorem exists_recorded (scope : Scope) (own : Option String) (n : Node) :
    ∃ es : List Entry, (scope.report own n).dependencies = es.map Entry.dependency ∧
      (∀ e ∈ es, e ∈ scope.entries own n) ∧
      ∀ k ∈ (scope.entries own n).map Entry.key, ∃ e ∈ es, e.key = k := by
  cases hmode : scope.mode with
  | exhaustive =>
    refine ⟨_, dependencies_exhaustive hmode own n, fun _ he => he, fun k hk => ?_⟩
    exact List.mem_map.1 hk
  | deduplicated =>
    refine ⟨_, dependencies_deduplicated hmode own n, fun _ he => mem_of_mem_firstPerKey he, ?_⟩
    exact fun k hk => exists_mem_firstPerKey hk List.not_mem_nil

/-- A name that comes again on a trail was there before. -/
theorem reference_of_referenceAgain {own : Option String} {n : Node} {name : String}
    (h : .referenceAgain name ∈ scope.trail own n) : .reference name ∈ scope.trail own n := by
  rw [← trail_inMode .deduplicated] at h ⊢
  exact (tracks_trail rfl own n).announced name h

/-- An entry under a name is a record of that name. -/
theorem dependency_of_name {own : Option String} {n : Node} {e : Entry} {name : String}
    (he : e ∈ scope.entries own n) (hkey : e.key = .name name) :
    ∃ level, e.dependency = scope.referenceRecord level name := by
  obtain ⟨level, s, -, hs⟩ := exists_of_mem_entriesFrom he
  refine ⟨level, ?_⟩
  cases s <;> cases hs <;> cases hkey <;> rfl

/-- The record of a calculated field has its kind. -/
theorem referenceRecord_kind {name : String} {e : Expression} (he : scope.target? name = some e)
    (level : Nat) : (scope.referenceRecord level name).kind = .calculatedField := by
  unfold target? at he
  unfold referenceRecord
  cases hr : scope.referent name with
  | calculatedField e => rfl
  | _ =>
    rw [hr] at he
    cases he

/-- A name is the key of an entry if it is a reference on the trail. -/
theorem name_mem_keys {own : Option String} {n : Node} {name : String} :
    .name name ∈ (scope.entries own n).map Entry.key ↔ .reference name ∈ scope.trail own n := by
  unfold entries
  rw [map_key_entriesFrom, List.mem_filterMap]
  constructor
  · rintro ⟨s, hs, hk⟩
    cases s <;> cases hk
    · exact hs
    · exact reference_of_referenceAgain hs
  · exact fun h => ⟨_, h, rfl⟩

/-- A calculated field is recorded if its name is a reference on the trail. -/
theorem exists_dependency_iff {own : Option String} {n : Node} {e : Expression}
    (he : scope.target? e.name = some e) :
    (∃ d ∈ (scope.report own n).dependencies, d.kind = .calculatedField ∧ d.name = e.name) ↔
      .reference e.name ∈ scope.trail own n := by
  obtain ⟨es, hes, hsub, hkeys⟩ := exists_recorded scope own n
  rw [hes, ← name_mem_keys]
  constructor
  · rintro ⟨_, hd, hkind, hname⟩
    obtain ⟨⟨key, d⟩, hx, rfl⟩ := List.mem_map.1 hd
    have keyed := entries_keyed (hsub _ hx)
    cases key with
    | call id =>
      obtain ⟨aggregate, -, -, -, hcall⟩ := keyed
      rw [hkind] at hcall
      cases aggregate <;> cases hcall
    | name name =>
      obtain ⟨hown, -, -⟩ := keyed
      rw [← hname, hown]
      exact List.mem_map_of_mem (hsub _ hx)
  · intro hkey
    obtain ⟨x, hx, hxkey⟩ := hkeys _ hkey
    obtain ⟨level, hd⟩ := dependency_of_name (hsub x hx) hxkey
    refine ⟨_, List.mem_map_of_mem hx, ?_⟩
    rw [hd]
    exact ⟨referenceRecord_kind he level, (referenceRecord_keyed level e.name).1⟩

/-! ## Ways on the trail -/

/-- A name on the trail of a calculated field is reached from it, if it is a node. -/
theorem reaches_of_mem_trail {own : Option String} {e : Expression} {n : Node}
    (he : e.IsCalculatedIn scope.expressions) (hn : e.tree? = some n) {name : String}
    (hname : name ∈ (ReferenceGraph.ofExpressions scope.expressions).nodes)
    (h : .reference name ∈ scope.trail own n) :
    (ReferenceGraph.ofExpressions scope.expressions).Reaches e.name name := by
  have refers {column : String} (hmem : .reference column ∈ steps n)
      (hnode : column ∈ (ReferenceGraph.ofExpressions scope.expressions).nodes) :
      (ReferenceGraph.ofExpressions scope.expressions).Refers e.name column :=
    ReferenceGraph.refers_ofExpressions.2
      ⟨e, he, rfl, ⟨n, hn, reference_mem_steps.1 hmem⟩, hnode⟩
  rcases mem_unroll h with h | h | h | ⟨first, last, m, hfirst, hsome, hway, hlast, h⟩
  · exact .single (refers h hname)
  · cases h
  · cases h
  · have start : (ReferenceGraph.ofExpressions scope.expressions).Refers e.name first :=
      refers hfirst (mem_nodes_of_tree? hsome)
    have way : ReflTransGen (ReferenceGraph.ofExpressions scope.expressions).Refers first last :=
      ReflTransGen.mono (fun _ _ => Follows.refers) _ _ hway
    have stop : (ReferenceGraph.ofExpressions scope.expressions).Refers last name :=
      refers_of_tree? hlast (reference_mem_steps.1 h) hname
    exact TransGen.head' start (way.tail stop)

/-- What a calculated field reaches is on its trail, unless the field itself is. -/
theorem Distinct.on_trail (h : scope.Distinct) {e : Expression} {n : Node}
    (he : e.IsCalculatedIn scope.expressions) (hn : e.tree? = some n) {name : String}
    (hreach : (ReferenceGraph.ofExpressions scope.expressions).Reaches e.name name) :
    .reference name ∈ scope.trail (some e.name) n ∨
      .reference e.name ∈ scope.trail (some e.name) n := by
  have own : scope.tree? e.name = some n := tree?_eq_some.2 ⟨e, h.target? he, hn⟩
  induction hreach with
  | single hfirst =>
    obtain ⟨m, hm, hcolumn⟩ := h.columns_of_refers hfirst
    obtain rfl : n = m := Option.some.inj (own.symm.trans hm)
    exact .inl (subset_unroll _ _ _ (reference_mem_steps.2 hcolumn))
  | @tail middle last _ hlast ih =>
    rcases ih with hmiddle | hself
    · by_cases same : middle = e.name
      · exact .inr (same ▸ hmiddle)
      · obtain ⟨m, hm, hcolumn⟩ := h.columns_of_refers hlast
        have fresh : middle ∉ (some e.name).toList := fun hmem => same (List.mem_singleton.1 hmem)
        have there : steps m ⊆ scope.trail (some e.name) n :=
          steps_subset_unroll (suffices_length _) hmiddle hm fresh
        exact .inl (there (reference_mem_steps.2 hcolumn))
    · exact .inr hself

/-- **Cycles are what fields record of themselves.** Where every calculated field has a name of its
own, a field that was read belongs to a cycle exactly when its dependencies hold a calculated field
of its own name, in either mode. -/
theorem mem_cycles_iff_recorded (h : scope.Distinct) {e : Expression} {n : Node}
    (he : e ∈ scope.expressions) (hkind : e.kind = .calculatedField) (hn : e.tree? = some n) :
    ∃ r, scope.analyze e = some r ∧
      ((∃ cycle ∈ (ReferenceGraph.ofExpressions scope.expressions).cycles, e.name ∈ cycle) ↔
        ∃ d ∈ r.dependencies, d.kind = .calculatedField ∧ d.name = e.name) := by
  have hown : ownName e = some e.name := if_pos (beq_iff_eq.2 hkind)
  refine ⟨_, analyze_eq_report hn, ?_⟩
  rw [ReferenceGraph.mem_cycles, exists_dependency_iff (h.target? ⟨he, hkind⟩), hown]
  constructor
  · intro hcycle
    exact (h.on_trail ⟨he, hkind⟩ hn hcycle).elim id id
  · intro hself
    refine reaches_of_mem_trail ⟨he, hkind⟩ hn ?_ hself
    exact ReferenceGraph.mem_nodes_ofExpressions.2 ⟨e, ⟨he, hkind⟩, rfl⟩

/-- A ratio of a share of the ratio is on a cycle and records itself. -/
theorem mem_cycles_ratio : ratioAndShare.Distinct ∧
    ∃ e ∈ ratioAndShare.expressions, e.kind = .calculatedField ∧ e.tree? = some ratioTree ∧
      ∃ r, ratioAndShare.analyze e = some r ∧
        (∃ cycle ∈ (ReferenceGraph.ofExpressions ratioAndShare.expressions).cycles,
          e.name ∈ cycle) ∧
        ∃ d ∈ r.dependencies, d.kind = .calculatedField ∧ d.name = e.name := by
  have distinct : ratioAndShare.Distinct := ⟨by decide, by decide⟩
  obtain ⟨r, hr, hiff⟩ := mem_cycles_iff_recorded distinct List.mem_cons_self rfl rfl
  have cycle : ∃ cycle ∈ (ReferenceGraph.ofExpressions ratioAndShare.expressions).cycles,
      "ratio" ∈ cycle := by
    have there : ("ratio", "share") ∈
        (ReferenceGraph.ofExpressions ratioAndShare.expressions).references := by decide
    have back : ("share", "ratio") ∈
        (ReferenceGraph.ofExpressions ratioAndShare.expressions).references := by decide
    exact ReferenceGraph.mem_cycles.2 (.tail (.single there) back)
  exact ⟨distinct, _, List.mem_cons_self, rfl, rfl, r, hr, cycle, hiff.1 cycle⟩

end Scope

end DashCalc.Cost
