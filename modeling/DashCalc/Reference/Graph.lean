import DashCalc.Distinct
import DashCalc.Expression.Basic
import DashCalc.Node.Walk

/-!
# Which calculated field refers to which

The nodes of a reference graph are names, in the order in which they came up; its references are
pairs of names, the one that refers first, in the order in which they were added. Neither repeats,
and references are between nodes: that is part of the type.
-/

namespace DashCalc

/-- Names and references between them. -/
structure ReferenceGraph where
  nodes : List String
  /-- Pairs of a name and a name it refers to. -/
  references : List (String × String)
  nodes_nodup : nodes.Nodup
  references_nodup : references.Nodup
  mem_nodes : ∀ r ∈ references, r.1 ∈ nodes ∧ r.2 ∈ nodes

namespace ReferenceGraph

def empty : ReferenceGraph := ⟨[], [], by simp, by simp, by simp⟩

def addNode (g : ReferenceGraph) (name : String) : ReferenceGraph where
  nodes := addNew g.nodes name
  references := g.references
  nodes_nodup := nodup_addNew name g.nodes_nodup
  references_nodup := g.references_nodup
  mem_nodes r h := by
    have := g.mem_nodes r h
    exact ⟨mem_addNew.2 (.inl this.1), mem_addNew.2 (.inl this.2)⟩

/-- Adds a reference from one name to another, and the names where they are new. -/
def addReference (g : ReferenceGraph) (referring referred : String) : ReferenceGraph where
  nodes := addNew (addNew g.nodes referring) referred
  references := addNew g.references (referring, referred)
  nodes_nodup := nodup_addNew _ (nodup_addNew _ g.nodes_nodup)
  references_nodup := nodup_addNew _ g.references_nodup
  mem_nodes r h := by
    simp only [mem_addNew] at h ⊢
    rcases h with h | rfl
    · have := g.mem_nodes r h
      exact ⟨.inl (.inl this.1), .inl (.inl this.2)⟩
    · exact ⟨.inl (.inr rfl), .inr rfl⟩

/-- The references of one calculated field, as far as they lead to nodes. -/
def addReferencesOf (g : ReferenceGraph) (e : Expression) : ReferenceGraph :=
  match e.tree? with
  | none => g
  | some n =>
    n.columns.foldl (fun g name => if name ∈ g.nodes then g.addReference e.name name else g) g

/-- The graph of the calculated fields among some expressions. -/
def ofExpressions (expressions : List Expression) : ReferenceGraph :=
  let calculated := expressions.filter fun e => e.kind == .calculatedField
  let named := calculated.foldl (fun g e => g.addNode e.name) empty
  calculated.foldl addReferencesOf named

def sortNames (names : List String) : List String := names.mergeSort fun a b => decide (a ≤ b)

/-- The names that a name refers to, in order. -/
def referencesOf (g : ReferenceGraph) (name : String) : List String :=
  sortNames ((g.references.filter fun r => r.1 == name).map Prod.snd)

/-- The names that refer to a name, in order. -/
def referencedBy (g : ReferenceGraph) (name : String) : List String :=
  sortNames ((g.references.filter fun r => r.2 == name).map Prod.fst)

/-- The names that refer to a name, the earliest reference first. -/
def dependents (g : ReferenceGraph) (name : String) : List String :=
  (g.references.filter fun r => r.2 == name).map Prod.fst

end ReferenceGraph

end DashCalc
