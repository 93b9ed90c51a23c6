import DashCalc.Proofs.Reference.Components
import Mathlib.Data.String.Basic

/-!
# The cycles of a reference graph

A group is a cycle if its names reach themselves, be it through each other or, where there is only
one, by a reference of its own (`ReferenceGraph.isCycle_iff`). So the cycles together hold exactly
the names that reach themselves (`ReferenceGraph.mem_cycles`), and two names are in the same one if
each reaches the other (`ReferenceGraph.exists_cycle_iff`).
-/

namespace DashCalc.ReferenceGraph

open Relation (ReflTransGen TransGen)

variable {g : ReferenceGraph}

theorem mem_sortNames {names : List String} {x : String} : x ∈ sortNames names ↔ x ∈ names :=
  List.mem_mergeSort

/-- Different names that lead to each other reach each other. -/
theorem reaches_of_ne {a b : String} (h : ReflTransGen g.Refers a b) (other : a ≠ b) :
    g.Reaches a b := (Relation.reflTransGen_iff_eq_or_transGen.1 h).resolve_left (Ne.symm other)

/-- A group is a cycle if one of its names reaches itself. -/
theorem isCycle_iff {group : List String} (h : group ∈ g.groups) {x : String} (hx : x ∈ group) :
    g.isCycle group = true ↔ g.Reaches x x := by
  match group, hx with
  | [y], hx =>
    obtain rfl := List.mem_singleton.1 hx
    show g.references.contains (x, x) = true ↔ _
    rw [List.contains_iff_mem]
    refine ⟨fun own => .single own, fun round => ?_⟩
    -- the name after the first reference is in the group, too
    obtain ⟨z, hxz, hzx⟩ := TransGen.head'_iff.1 round
    have hz : z ∈ [x] := (mem_group_iff h hx).2 ⟨.single hxz, hzx⟩
    obtain rfl := List.mem_singleton.1 hz
    exact hxz
  | y :: z :: rest, hx =>
    refine iff_of_true rfl ?_
    have nodup := (nodup_groups g).1 _ h
    obtain ⟨other, hother, hne⟩ : ∃ other ∈ y :: z :: rest, x ≠ other := by
      by_cases same : x = y
      · refine ⟨z, List.mem_cons_of_mem _ List.mem_cons_self, ?_⟩
        rintro rfl
        exact (List.nodup_cons.1 nodup).1 (same ▸ List.mem_cons_self)
      · exact ⟨y, List.mem_cons_self, same⟩
    obtain ⟨away, back⟩ := (mem_group_iff h hx).1 hother
    exact (reaches_of_ne away hne).trans (reaches_of_ne back (Ne.symm hne))

theorem mem_cycles_iff_exists {cycle : List String} : cycle ∈ g.cycles ↔
    ∃ group ∈ g.groups, g.isCycle group = true ∧ cycle = sortNames group := by
  unfold cycles
  simp only [List.mem_map, List.mem_filter, and_assoc, eq_comm]

/-- **The names of the cycles** are those that reach themselves. -/
theorem mem_cycles {x : String} : (∃ cycle ∈ g.cycles, x ∈ cycle) ↔ g.Reaches x x := by
  constructor
  · rintro ⟨cycle, hcycle, hx⟩
    obtain ⟨group, hgroup, his, rfl⟩ := mem_cycles_iff_exists.1 hcycle
    exact (isCycle_iff hgroup (mem_sortNames.1 hx)).1 his
  · intro round
    obtain ⟨group, hgroup, hx⟩ := exists_group round.mem_nodes.1
    exact ⟨sortNames group, mem_cycles_iff_exists.2 ⟨group, hgroup, (isCycle_iff hgroup hx).2 round,
      rfl⟩, mem_sortNames.2 hx⟩

/-- A cycle is not empty. -/
theorem exists_mem_of_mem_cycles {cycle : List String} (h : cycle ∈ g.cycles) :
    ∃ x, x ∈ cycle := by
  obtain ⟨group, -, his, rfl⟩ := mem_cycles_iff_exists.1 h
  cases group with
  | nil => cases his
  | cons x rest => exact ⟨x, mem_sortNames.2 List.mem_cons_self⟩

/-- A cycle holds what each of its names leads to and back. -/
theorem mem_cycle_iff {cycle : List String} (h : cycle ∈ g.cycles) {x : String} (hx : x ∈ cycle)
    {y : String} : y ∈ cycle ↔ ReflTransGen g.Refers x y ∧ ReflTransGen g.Refers y x := by
  obtain ⟨group, hgroup, -, rfl⟩ := mem_cycles_iff_exists.1 h
  rw [mem_sortNames, mem_group_iff hgroup (mem_sortNames.1 hx)]

/-- Different names are in the same cycle if each reaches the other. -/
theorem exists_cycle_iff {a b : String} (other : a ≠ b) :
    (∃ cycle ∈ g.cycles, a ∈ cycle ∧ b ∈ cycle) ↔ g.Reaches a b ∧ g.Reaches b a := by
  constructor
  · rintro ⟨cycle, hcycle, ha, hb⟩
    obtain ⟨hab, hba⟩ := (mem_cycle_iff hcycle ha).1 hb
    exact ⟨reaches_of_ne hab other, reaches_of_ne hba (Ne.symm other)⟩
  · rintro ⟨hab, hba⟩
    obtain ⟨cycle, hcycle, ha⟩ := mem_cycles.2 (hab.trans hba)
    exact ⟨cycle, hcycle, ha, (mem_cycle_iff hcycle ha).2 ⟨hab.to_reflTransGen, hba.to_reflTransGen⟩⟩

/-- No name is in two cycles. -/
theorem pairwise_disjoint_cycles (g : ReferenceGraph) : g.cycles.Pairwise List.Disjoint := by
  unfold cycles
  rw [List.pairwise_map]
  refine ((nodup_groups g).2.filter _).imp fun apart x hx hx' => ?_
  exact apart (mem_sortNames.1 hx) (mem_sortNames.1 hx')

theorem pairwise_sortNames {names : List String} (h : names.Nodup) :
    (sortNames names).Pairwise (· < ·) := by
  have trans : ∀ a b c : String, decide (a ≤ b) = true → decide (b ≤ c) = true →
      decide (a ≤ c) = true := by
    simp only [decide_eq_true_eq]
    intro a b c hab hbc
    exact le_trans hab hbc
  have total : ∀ a b : String, (decide (a ≤ b) || decide (b ≤ a)) = true := by
    simp only [Bool.or_eq_true, decide_eq_true_eq]
    intro a b
    exact le_total a b
  have ascending : (sortNames names).Pairwise (· ≤ ·) :=
    (List.pairwise_mergeSort trans total names).imp fun h => of_decide_eq_true h
  have nodup : (sortNames names).Nodup := (List.mergeSort_perm _ _).nodup_iff.2 h
  exact (ascending.and nodup).imp fun ⟨hle, hne⟩ => lt_of_le_of_ne hle hne

/-- Names of a cycle stand in strictly ascending order. -/
theorem pairwise_of_mem_cycles {cycle : List String} (h : cycle ∈ g.cycles) :
    cycle.Pairwise (· < ·) := by
  obtain ⟨group, hgroup, -, rfl⟩ := mem_cycles_iff_exists.1 h
  exact pairwise_sortNames ((nodup_groups g).1 group hgroup)

/-- A name alone is a cycle if it refers to itself and no other name reaches it and is reached. -/
theorem singleton_mem_cycles {a : String} : [a] ∈ g.cycles ↔
    g.Refers a a ∧ ∀ b, b ≠ a → ¬(g.Reaches a b ∧ g.Reaches b a) := by
  constructor
  · intro h
    have ha : a ∈ [a] := List.mem_singleton_self a
    have only : ∀ b, ReflTransGen g.Refers a b → ReflTransGen g.Refers b a → b = a :=
      fun b hab hba => List.mem_singleton.1 ((mem_cycle_iff h ha).2 ⟨hab, hba⟩)
    refine ⟨?_, fun b hb hboth =>
      hb (only b hboth.1.to_reflTransGen hboth.2.to_reflTransGen)⟩
    obtain ⟨b, hab, hba⟩ := TransGen.head'_iff.1 (mem_cycles.1 ⟨[a], h, ha⟩)
    obtain rfl := only b (.single hab) hba
    exact hab
  · rintro ⟨hself, only⟩
    obtain ⟨cycle, hcycle, ha⟩ := mem_cycles.2 (show g.Reaches a a from .single hself)
    have all : ∀ b ∈ cycle, b = a := by
      intro b hb
      by_contra other
      obtain ⟨hab, hba⟩ := (mem_cycle_iff hcycle ha).1 hb
      exact only b other ⟨reaches_of_ne hab (Ne.symm other), reaches_of_ne hba other⟩
    have nodup : cycle.Nodup := (pairwise_of_mem_cycles hcycle).imp fun h => ne_of_lt h
    have single : cycle = [a] :=
      List.perm_singleton.1 ((List.perm_ext_iff_of_nodup nodup (List.nodup_singleton a)).2
        fun b => ⟨fun hb => List.mem_singleton.2 (all b hb),
          fun hb => List.mem_singleton.1 hb ▸ ha⟩)
    exact single ▸ hcycle

end DashCalc.ReferenceGraph
