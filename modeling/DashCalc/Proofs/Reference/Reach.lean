import DashCalc.Reference.Order
import Mathlib.Logic.Relation

/-!
# Reference, directly or through others

A name reaches another one if it refers to it directly or through others. The searches of a graph
go backwards, from a name to those that refer to it.
-/

namespace DashCalc.ReferenceGraph

open Relation (ReflTransGen TransGen)

variable (g : ReferenceGraph)

/-- Whether the first name refers to the second one. -/
def Refers (a b : String) : Prop := (a, b) ∈ g.references

/-- Whether the first name refers to the second one directly or through others. -/
def Reaches (a b : String) : Prop := TransGen g.Refers a b

variable {g}

theorem Reaches.trans {a b c : String} (h : g.Reaches a b) (h' : g.Reaches b c) : g.Reaches a c :=
  TransGen.trans h h'

/-- Only names of the graph reach anything. -/
theorem Reaches.mem_nodes {a b : String} (h : g.Reaches a b) : a ∈ g.nodes ∧ b ∈ g.nodes := by
  unfold Reaches at h
  induction h with
  | single hab => exact g.mem_nodes _ hab
  | tail _ hbc ih => exact ⟨ih.1, (g.mem_nodes _ hbc).2⟩

theorem mem_dependents {a b : String} : a ∈ g.dependents b ↔ g.Refers a b := by
  unfold dependents Refers
  constructor
  · intro h
    obtain ⟨⟨a', b'⟩, hr, rfl⟩ := List.mem_map.1 h
    obtain ⟨hmem, hb⟩ := List.mem_filter.1 hr
    obtain rfl := beq_iff_eq.1 hb
    exact hmem
  · intro h
    exact List.mem_map.2 ⟨(a, b), List.mem_filter.2 ⟨h, beq_self_eq_true b⟩, rfl⟩

theorem dependents_subset (g : ReferenceGraph) (b : String) : g.dependents b ⊆ g.nodes :=
  fun _ h => (g.mem_nodes _ (mem_dependents.1 h)).1

end DashCalc.ReferenceGraph
