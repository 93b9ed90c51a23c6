import DashCalc.Proofs.Node.Parts
import DashCalc.Proofs.Reference.Cycles
import DashCalc.Proofs.Reference.Edges
import Mathlib.Data.Set.Card

/-!
# What a graph records

The graph of some expressions, with any references added to it, records the references that the
trees of calculated fields make, at any depth, and those that were added, each once
(`ReferenceGraph.records_addReferences`). Both ways to ask for them, forwards and backwards, give
names in strictly ascending order.
-/

namespace DashCalc

/-- Whether among some expressions a calculated field of the first name has a column, anywhere in its
tree, that is the name of a calculated field, the second name. -/
def FieldRefers (expressions : List Expression) (a b : String) : Prop :=
  (∃ e : Expression, e.IsCalculatedIn expressions ∧ e.name = a ∧
    ∃ n, e.tree? = some n ∧ n.HasColumn b) ∧
  ∃ f : Expression, f.IsCalculatedIn expressions ∧ f.name = b

namespace ReferenceGraph

variable {g : ReferenceGraph} {a b : String}

/-! ## Both directions -/

theorem mem_referencesOf : b ∈ g.referencesOf a ↔ g.Refers a b := by
  unfold referencesOf Refers
  rw [mem_sortNames, List.mem_map]
  constructor
  · rintro ⟨⟨a', b'⟩, hr, rfl⟩
    obtain ⟨hmem, ha⟩ := List.mem_filter.1 hr
    obtain rfl := beq_iff_eq.1 ha
    exact hmem
  · intro h
    exact ⟨(a, b), List.mem_filter.2 ⟨h, beq_self_eq_true a⟩, rfl⟩

theorem mem_referencedBy : a ∈ g.referencedBy b ↔ g.Refers a b :=
  mem_sortNames.trans mem_dependents

/-- The far ends of the references with one near end do not repeat, since no reference does. -/
theorem pairwise_far (g : ReferenceGraph) {near far : String × String → String}
    (ext : ∀ r r', near r = near r' → far r = far r' → r = r') (name : String) :
    (sortNames ((g.references.filter fun r => near r == name).map far)).Pairwise (· < ·) := by
  refine pairwise_sortNames (List.Nodup.map_on ?_ (g.references_nodup.filter _))
  intro r hr r' hr' same
  have hnear := beq_iff_eq.1 (List.mem_filter.1 hr).2
  have hnear' := beq_iff_eq.1 (List.mem_filter.1 hr').2
  exact ext r r' (hnear.trans hnear'.symm) same

theorem pairwise_referencesOf (g : ReferenceGraph) (a : String) :
    (g.referencesOf a).Pairwise (· < ·) :=
  g.pairwise_far (fun _ _ => Prod.ext) a

theorem pairwise_referencedBy (g : ReferenceGraph) (b : String) :
    (g.referencedBy b).Pairwise (· < ·) :=
  g.pairwise_far (fun _ _ second first => Prod.ext first second) b

/-! ## Adding references -/

/-- Adds references one after the other. -/
def addReferences (g : ReferenceGraph) (added : List (String × String)) : ReferenceGraph :=
  added.foldl (fun g r => g.addReference r.1 r.2) g

theorem refers_addReferences (added : List (String × String)) : ∀ {g : ReferenceGraph},
    (g.addReferences added).Refers a b ↔ g.Refers a b ∨ (a, b) ∈ added := by
  induction added with
  | nil => simp [addReferences]
  | cons r added ih =>
    intro g
    show ((g.addReference r.1 r.2).addReferences added).Refers a b ↔ _
    rw [ih, refers_addReference, List.mem_cons, or_assoc, Prod.ext_iff]

theorem mem_nodes_addReferences (added : List (String × String)) : ∀ {g : ReferenceGraph},
    a ∈ (g.addReferences added).nodes ↔ a ∈ g.nodes ∨ ∃ r ∈ added, a = r.1 ∨ a = r.2 := by
  induction added with
  | nil => simp [addReferences]
  | cons r added ih =>
    intro g
    show a ∈ ((g.addReference r.1 r.2).addReferences added).nodes ↔ _
    rw [ih, addReference, mem_addNew, mem_addNew]
    simp only [List.mem_cons, exists_eq_or_imp, or_assoc]

/-- The references of the graph of some expressions are those that stand in their trees. -/
theorem refers_ofExpressions_iff {expressions : List Expression} :
    (ofExpressions expressions).Refers a b ↔ FieldRefers expressions a b := by
  rw [refers_ofExpressions, mem_nodes_ofExpressions]
  unfold FieldRefers Expression.RefersTo
  simp only [Node.mem_columns_iff_hasColumn]
  constructor
  · rintro ⟨e, calculated, named, refers, known⟩
    exact ⟨⟨e, calculated, named, refers⟩, known⟩
  · rintro ⟨⟨e, calculated, named, refers⟩, known⟩
    exact ⟨e, calculated, named, refers, known⟩

/-- A list without repetition is as long as there are different items in it. -/
theorem encard_of_nodup {α : Type} {items : List α} (h : items.Nodup) {p : α → Prop}
    (hp : ∀ x, x ∈ items ↔ p x) : {x | p x}.encard = items.length := by
  classical
  have same : {x | p x} = (items.toFinset : Set α) := by
    ext x
    rw [List.coe_toFinset]
    exact (hp x).symm
  rw [same, Set.encard_coe_eq_coe_finsetCard, List.toFinset_card_of_nodup h]

/-- Whether the first name refers to the second one: a calculated field does so, or the reference was
added. -/
def Recorded (expressions : List Expression) (added : List (String × String)) (a b : String) :
    Prop :=
  FieldRefers expressions a b ∨ (a, b) ∈ added

/-- Whether a graph records what some expressions refer to and what was added, and nothing else. -/
structure Records (g : ReferenceGraph) (expressions : List Expression)
    (added : List (String × String)) : Prop where
  /-- What a name refers to, once each and in order. -/
  references : ∀ a, (g.referencesOf a).Pairwise (· < ·) ∧
    ∀ b, b ∈ g.referencesOf a ↔ Recorded expressions added a b
  /-- The converse: what refers to a name. -/
  dependents : ∀ b, (g.referencedBy b).Pairwise (· < ·) ∧
    ∀ a, a ∈ g.referencedBy b ↔ b ∈ g.referencesOf a
  /-- There are as many nodes as names of calculated fields and ends of added references. -/
  nodeCount : {x | (∃ e : Expression, e.IsCalculatedIn expressions ∧ e.name = x) ∨
    ∃ r ∈ added, x = r.1 ∨ x = r.2}.encard = g.nodes.length
  /-- There are as many references as pairs of names of which one refers to the other. -/
  referenceCount : {r : String × String | Recorded expressions added r.1 r.2}.encard =
    g.references.length

/-- **A graph records exactly the references of its expressions and those that were added**, however
often they are made. -/
theorem records_addReferences (expressions : List Expression) (added : List (String × String)) :
    Records ((ofExpressions expressions).addReferences added) expressions added := by
  have refers (a b : String) : ((ofExpressions expressions).addReferences added).Refers a b ↔
      Recorded expressions added a b := by
    rw [refers_addReferences, refers_ofExpressions_iff]
    exact Iff.rfl
  constructor
  · exact fun a => ⟨pairwise_referencesOf _ a, fun b => mem_referencesOf.trans (refers a b)⟩
  · exact fun b => ⟨pairwise_referencedBy _ b, fun a => mem_referencedBy.trans mem_referencesOf.symm⟩
  · refine encard_of_nodup (nodes_nodup _) fun x => ?_
    rw [mem_nodes_addReferences, mem_nodes_ofExpressions]
  · exact encard_of_nodup (references_nodup _) fun r => refers r.1 r.2

end ReferenceGraph

end DashCalc
