import DashCalc.Reference.Graph

/-!
# Order and cycles of references

An order of evaluation is found by a search that goes depth first, from a name to those that refer
to it, with a stack of the names that it still has to look at. A name stays on the stack until all
that was put above it is done; then it is done itself. Read backwards, the names in the order in
which the search is done with them are the order, unless there is a cycle: then some name refers to
itself, or to one that comes after it.

Names that reach each other form a group. The groups are found by another search, which takes the
latest references first and leaves a name pending until its group is complete. How far down the
pending names can be reached from what is behind a name is its low mark: if nothing below the name
can, the name and all that is pending above it are a group. A group is a cycle if it has several
names, or if its only name refers to itself; cycles are reported in the order in which they are
complete.
-/

namespace DashCalc

/-- The state of a search: what was begun, and what is done, the last name first. -/
structure Search where
  begun : List String
  done : List String

namespace Search

/-- Before the search. -/
def start : Search := ⟨[], []⟩

def isNew (s : Search) (name : String) : Bool := !s.begun.contains name

def begin (s : Search) (name : String) : Search := { s with begun := name :: s.begun }

/-- A name may come off the stack more than once, but it is done only once. -/
def finish (s : Search) (name : String) : Search :=
  if name ∈ s.done then s else { s with done := name :: s.done }

/-- Looks at the top of a stack: a name that was begun is taken off, a new one is begun, stays, and
the new names behind it are put above it. From there `next` goes on. -/
def unwind (behind : String → List String) (next : List String → Search → Search) :
    List String → Search → Search
  | [], s => s
  | name :: stack, s =>
    if name ∈ s.begun then unwind behind next stack (s.finish name)
    else next ((behind name).filter (s.begin name).isNew ++ name :: stack) (s.begin name)

/-- Looks at all names of a stack, and at those that are put on it, where fewer than `rounds` of them
are new. -/
def exhaust (behind : String → List String) : Nat → List String → Search → Search
  | 0 => fun _ s => s
  | rounds + 1 => unwind behind (exhaust behind rounds)

end Search

namespace ReferenceGraph

/-- All names, the one first that the search is done with last. -/
def finishing (g : ReferenceGraph) : List String :=
  (g.nodes.foldl (fun s name =>
    if name ∈ s.begun then s else Search.exhaust g.dependents (g.nodes.length + 1) [name] s)
    Search.start).done

/-- Whether each of some names refers only to itself and to names that come before it. -/
def leadsBack (g : ReferenceGraph) (earlier : List String) : List String → Bool
  | [] => true
  | name :: later =>
    ((g.references.filter fun r => r.1 == name).all fun r => (name :: earlier).contains r.2) &&
      leadsBack g (name :: earlier) later

/-- All names, each after those it refers to; nothing if there is a cycle. -/
def evaluationOrder (g : ReferenceGraph) : Option (List String) :=
  let order := g.finishing
  if (g.references.any fun r => r.1 == r.2) || !g.leadsBack [] order then none else some order

end ReferenceGraph

/-- The state of a search for groups: the names whose group is not complete yet, the last one first,
and the groups that are, the last one first. -/
structure Grouping where
  pending : List String
  groups : List (List String)

/-- How many names stand below a name in a list. -/
def heightIn (name : String) : List String → Option Nat
  | [] => none
  | top :: below => if name = top then some below.length else heightIn name below

namespace Grouping

/-- Before the search. -/
def start : Grouping := ⟨[], []⟩

/-- The names from a height upwards are a group. -/
def complete (s : Grouping) (height : Nat) : Grouping where
  pending := s.pending.drop (s.pending.length - height)
  groups := s.pending.take (s.pending.length - height) :: s.groups

/-- Goes into a new name, where `next` goes through the names behind it; gives its low mark. -/
def enter (behind : String → List String)
    (next : List String → Nat × Grouping → Nat × Grouping) (s : Grouping) (name : String) :
    Nat × Grouping :=
  let height := s.pending.length
  let (low, after) := next (behind name) (height, { s with pending := name :: s.pending })
  (low, if low < height then after else after.complete height)

/-- Looks at a name, with the low mark so far: a pending name lowers it to its height, and a new one
to its own low mark. -/
def look (behind : String → List String)
    (next : List String → Nat × Grouping → Nat × Grouping) (found : Nat × Grouping)
    (name : String) : Nat × Grouping :=
  match heightIn name found.2.pending with
  | some height => (min found.1 height, found.2)
  | none =>
    if found.2.groups.any fun group => group.contains name then found
    else
      let (low, after) := found.2.enter behind next name
      (min found.1 low, after)

/-- Looks at names one after the other, where new ones are nested less than `depth` deep. -/
def gather (behind : String → List String) : Nat → List String → Nat × Grouping → Nat × Grouping
  | 0 => fun _ found => found
  | depth + 1 => fun names found => names.foldl (look behind (gather behind depth)) found

end Grouping

namespace ReferenceGraph

/-- The groups of names that reach each other, in the order in which they are complete. -/
def groups (g : ReferenceGraph) : List (List String) :=
  (Grouping.gather (fun name => (g.dependents name).reverse) (g.nodes.length + 1) g.nodes
    (0, .start)).2.groups.reverse

/-- Whether a group has several names, or one that refers to itself. -/
def isCycle (g : ReferenceGraph) : List String → Bool
  | [] => false
  | [name] => g.references.contains (name, name)
  | _ :: _ :: _ => true

/-- The cycles, each as a sorted list of names. -/
def cycles (g : ReferenceGraph) : List (List String) := (g.groups.filter g.isCycle).map sortNames

end ReferenceGraph

end DashCalc
