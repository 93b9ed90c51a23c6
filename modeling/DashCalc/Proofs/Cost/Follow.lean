import DashCalc.Proofs.Cost.Unroll
import DashCalc.Proofs.Reference.Edges

/-!
# Following and the graph of references

What is followed are references of the graph of the expressions (`Scope.Follows.refers`). The graph
has more of them: it knows nothing of parameters, and it has the columns of every field of a name.
Where each calculated field has a name of its own (`Scope.Distinct`), a reference of the graph is a
column of the tree that the name is followed into (`Scope.Distinct.columns_of_refers`).
-/

namespace DashCalc.Cost.Scope

variable {scope : Scope}

/-! ## From following to the graph -/

theorem mem_nodes_of_tree? {name : String} (h : (scope.tree? name).isSome) :
    name ∈ (ReferenceGraph.ofExpressions scope.expressions).nodes := by
  obtain ⟨n, hn⟩ := Option.isSome_iff_exists.1 h
  obtain ⟨e, he, -⟩ := tree?_eq_some.1 hn
  obtain ⟨hmem, hkind, hname⟩ := find?_eq_some (target?_eq_some.1 he).2
  exact ReferenceGraph.mem_nodes_ofExpressions.2 ⟨e, ⟨hmem, hkind⟩, hname⟩

/-- A column of a followed tree is a reference, if it is a calculated field. -/
theorem refers_of_tree? {name column : String} {n : Node} (hn : scope.tree? name = some n)
    (hcolumn : column ∈ n.columns)
    (hnode : column ∈ (ReferenceGraph.ofExpressions scope.expressions).nodes) :
    (ReferenceGraph.ofExpressions scope.expressions).Refers name column := by
  obtain ⟨e, he, hn⟩ := tree?_eq_some.1 hn
  obtain ⟨hmem, hkind, hname⟩ := find?_eq_some (target?_eq_some.1 he).2
  exact ReferenceGraph.refers_ofExpressions.2 ⟨e, ⟨hmem, hkind⟩, hname, ⟨n, hn, hcolumn⟩, hnode⟩

/-- What is followed are references of the graph. -/
theorem Follows.refers {a b : String} (h : scope.Follows a b) :
    (ReferenceGraph.ofExpressions scope.expressions).Refers a b := by
  obtain ⟨n, ha, hb, hsome⟩ := h
  exact refers_of_tree? ha hb (mem_nodes_of_tree? hsome)

/-! ## From the graph to following -/

/-- Whether no two calculated fields have the same name and no parameter has the name of one. -/
structure Distinct (scope : Scope) : Prop where
  names : ((scope.expressions.filter fun e => e.kind == .calculatedField).map
    Expression.name).Nodup
  parameters : ∀ e ∈ scope.expressions, e.kind = .calculatedField →
    scope.parameters.get? e.name = none

/-- With names of their own, calculated fields are found under their names. -/
theorem Distinct.target? (h : scope.Distinct) {e : Expression}
    (he : e.IsCalculatedIn scope.expressions) : scope.target? e.name = some e := by
  have found := find?_key h.names (ReferenceGraph.mem_calculated.2 he)
  rw [List.find?_filter] at found
  refine target?_eq_some.2 ⟨h.parameters e he.1 he.2, ?_⟩
  simpa only [find?, Bool.decide_and, Bool.decide_eq_true] using found

/-- With names of their own, references are the columns of the fields that are followed. -/
theorem Distinct.columns_of_refers (h : scope.Distinct) {a b : String}
    (hab : (ReferenceGraph.ofExpressions scope.expressions).Refers a b) :
    ∃ n, scope.tree? a = some n ∧ b ∈ n.columns := by
  obtain ⟨e, he, rfl, ⟨n, hn, hb⟩, -⟩ := ReferenceGraph.refers_ofExpressions.1 hab
  exact ⟨n, tree?_eq_some.2 ⟨e, h.target? he, hn⟩, hb⟩

/-! ## Reports of expressions -/

/-- The name under which an expression is followed itself. -/
def ownName (e : Expression) : Option String :=
  if e.kind == .calculatedField then some e.name else none

theorem analyze_eq_report {e : Expression} {n : Node} (hn : e.tree? = some n) :
    scope.analyze e = some (scope.report (ownName e) n) := by
  unfold analyze
  rw [hn]
  rfl

end DashCalc.Cost.Scope
