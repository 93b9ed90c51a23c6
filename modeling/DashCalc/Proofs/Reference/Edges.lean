import DashCalc.Proofs.Reference.Reach

/-!
# The references of a graph of expressions

The graph of some expressions has the names of their calculated fields as nodes
(`ReferenceGraph.mem_nodes_ofExpressions`). One name refers to another exactly when some calculated
field of the first name was read and its tree has a column of the second name, that name being a
calculated field too (`ReferenceGraph.refers_ofExpressions`).
-/

namespace DashCalc

/-- Whether an expression is a calculated field among some expressions. -/
def Expression.IsCalculatedIn (e : Expression) (expressions : List Expression) : Prop :=
  e ∈ expressions ∧ e.kind = .calculatedField

/-- Whether an expression refers to a name: it was read, and its tree has a column of that name. -/
def Expression.RefersTo (e : Expression) (name : String) : Prop :=
  ∃ n, e.tree? = some n ∧ name ∈ n.columns

namespace ReferenceGraph

/-! ## One step of building -/

theorem mem_nodes_addReference {g : ReferenceGraph} {a b : String} (ha : a ∈ g.nodes)
    (hb : b ∈ g.nodes) {x : String} : x ∈ (g.addReference a b).nodes ↔ x ∈ g.nodes := by
  unfold addReference
  simp only [mem_addNew]
  constructor
  · rintro ((h | rfl) | rfl) <;> assumption
  · exact fun h => .inl (.inl h)

theorem refers_addReference {g : ReferenceGraph} {a b x y : String} :
    (g.addReference a b).Refers x y ↔ g.Refers x y ∨ (x = a ∧ y = b) := by
  unfold Refers addReference
  simp only [mem_addNew, Prod.mk.injEq]

/-- A field adds references from its own name to those of its columns that are nodes. -/
theorem addReferences_columns (name : String) (columns : List String) :
    ∀ {g : ReferenceGraph}, name ∈ g.nodes →
      let after := columns.foldl
        (fun g c => if c ∈ g.nodes then g.addReference name c else g) g
      (∀ x, x ∈ after.nodes ↔ x ∈ g.nodes) ∧
        ∀ x y, after.Refers x y ↔ g.Refers x y ∨ (x = name ∧ y ∈ columns ∧ y ∈ g.nodes) := by
  induction columns with
  | nil => intro g _; simp
  | cons c columns ih =>
    intro g hname
    simp only [List.foldl_cons]
    by_cases hc : c ∈ g.nodes
    · rw [if_pos hc]
      obtain ⟨hnodes, hrefers⟩ := ih ((mem_nodes_addReference hname hc).2 hname)
      refine ⟨fun x => (hnodes x).trans (mem_nodes_addReference hname hc), fun x y => ?_⟩
      rw [hrefers, refers_addReference, mem_nodes_addReference hname hc, List.mem_cons]
      constructor
      · rintro ((h | ⟨rfl, rfl⟩) | ⟨rfl, hy, hn⟩)
        · exact .inl h
        · exact .inr ⟨rfl, .inl rfl, hc⟩
        · exact .inr ⟨rfl, .inr hy, hn⟩
      · rintro (h | ⟨rfl, rfl | hy, hn⟩)
        · exact .inl (.inl h)
        · exact .inl (.inr ⟨rfl, rfl⟩)
        · exact .inr ⟨rfl, hy, hn⟩
    · rw [if_neg hc]
      obtain ⟨hnodes, hrefers⟩ := ih hname
      refine ⟨hnodes, fun x y => ?_⟩
      rw [hrefers, List.mem_cons]
      constructor
      · rintro (h | ⟨rfl, hy, hn⟩)
        · exact .inl h
        · exact .inr ⟨rfl, .inr hy, hn⟩
      · rintro (h | ⟨rfl, rfl | hy, hn⟩)
        · exact .inl h
        · exact absurd hn hc
        · exact .inr ⟨rfl, hy, hn⟩

theorem addReferencesOf_spec {g : ReferenceGraph} {e : Expression} (he : e.name ∈ g.nodes) :
    (∀ x, x ∈ (g.addReferencesOf e).nodes ↔ x ∈ g.nodes) ∧
      ∀ x y, (g.addReferencesOf e).Refers x y ↔
        g.Refers x y ∨ (x = e.name ∧ e.RefersTo y ∧ y ∈ g.nodes) := by
  unfold addReferencesOf Expression.RefersTo
  cases h : e.tree? with
  | none => simp
  | some n =>
    simpa using addReferences_columns e.name n.columns he

/-! ## All fields -/

theorem mem_nodes_addNodes (fields : List Expression) : ∀ {g : ReferenceGraph} {x : String},
    x ∈ (fields.foldl (fun g e => g.addNode e.name) g).nodes ↔
      x ∈ g.nodes ∨ ∃ e ∈ fields, e.name = x := by
  induction fields with
  | nil => simp
  | cons e fields ih =>
    intro g x
    rw [List.foldl_cons, ih]
    simp only [addNode, mem_addNew, List.mem_cons, exists_eq_or_imp, or_assoc]
    rw [eq_comm]

theorem refers_addNodes (fields : List Expression) : ∀ {g : ReferenceGraph} {x y : String},
    (fields.foldl (fun g e => g.addNode e.name) g).Refers x y ↔ g.Refers x y := by
  induction fields with
  | nil => simp
  | cons e fields ih =>
    intro g x y
    rw [List.foldl_cons, ih]
    rfl

theorem addReferencesOf_all (fields : List Expression) : ∀ {g : ReferenceGraph},
    (∀ e ∈ fields, e.name ∈ g.nodes) →
      (∀ x, x ∈ (fields.foldl addReferencesOf g).nodes ↔ x ∈ g.nodes) ∧
        ∀ x y, (fields.foldl addReferencesOf g).Refers x y ↔
          g.Refers x y ∨ ∃ e ∈ fields, x = e.name ∧ e.RefersTo y ∧ y ∈ g.nodes := by
  induction fields with
  | nil => intro g _; simp
  | cons e fields ih =>
    intro g hfields
    obtain ⟨hnodes, hrefers⟩ := addReferencesOf_spec (hfields e List.mem_cons_self)
    obtain ⟨hnodes', hrefers'⟩ := ih (g := g.addReferencesOf e)
      fun e' he' => (hnodes _).2 (hfields e' (List.mem_cons_of_mem _ he'))
    rw [List.foldl_cons]
    refine ⟨fun x => (hnodes' x).trans (hnodes x), fun x y => ?_⟩
    rw [hrefers', hrefers]
    simp only [hnodes, List.mem_cons, exists_eq_or_imp, or_assoc]

section OfExpressions

variable {expressions : List Expression}

theorem mem_calculated {e : Expression} :
    e ∈ expressions.filter (fun e => e.kind == .calculatedField) ↔
      e.IsCalculatedIn expressions := by
  rw [List.mem_filter, beq_iff_eq]
  exact Iff.rfl

/-- The nodes are the names of the calculated fields. -/
theorem mem_nodes_ofExpressions {x : String} :
    x ∈ (ofExpressions expressions).nodes ↔
      ∃ e : Expression, e.IsCalculatedIn expressions ∧ e.name = x := by
  unfold ofExpressions
  rw [(addReferencesOf_all _ fun e he => mem_nodes_addNodes _ |>.2 (.inr ⟨e, he, rfl⟩)).1,
    mem_nodes_addNodes]
  simp only [mem_calculated, empty, List.not_mem_nil, false_or]

/-- The references are those that the trees of calculated fields make to calculated fields. -/
theorem refers_ofExpressions {x y : String} :
    (ofExpressions expressions).Refers x y ↔
      ∃ e : Expression, e.IsCalculatedIn expressions ∧ e.name = x ∧ e.RefersTo y ∧
        y ∈ (ofExpressions expressions).nodes := by
  have hnodes := addReferencesOf_all
    (expressions.filter fun e => e.kind == .calculatedField)
    (g := (expressions.filter fun e => e.kind == .calculatedField).foldl
      (fun g e => g.addNode e.name) empty)
    fun e he => (mem_nodes_addNodes _).2 (.inr ⟨e, he, rfl⟩)
  simp only [ofExpressions, hnodes.1, hnodes.2, refers_addNodes, mem_calculated]
  simp only [Refers, empty, List.not_mem_nil, false_or, eq_comm]

end OfExpressions

end ReferenceGraph

end DashCalc
