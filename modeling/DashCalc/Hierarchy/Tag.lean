/-!
# Tags

Tags mark requests, and all that holds them, for attention. A set of tags is listed by priority.
-/

namespace DashCalc.Hierarchy

/-- A mark for attention. -/
inductive Tag
  | longDuration | highCost | parsingError
  deriving DecidableEq

namespace Tag

/-- All tags by priority. -/
def all : List Tag := [longDuration, highCost, parsingError]

def name : Tag → String
  | longDuration => "longDuration"
  | highCost => "highCost"
  | parsingError => "parsingError"

def ofName? (name : String) : Option Tag := all.find? fun t => t.name == name

/-- Where a tag stands when they are shown; a lower number comes first. -/
def priority : Tag → Nat
  | longDuration => 1
  | highCost => 2
  | parsingError => 3

end Tag

/-- A set of tags. -/
structure TagSet where
  longDuration : Bool := false
  highCost : Bool := false
  parsingError : Bool := false
  deriving DecidableEq

namespace TagSet

instance : EmptyCollection TagSet := ⟨{}⟩

def contains (s : TagSet) : Tag → Bool
  | .longDuration => s.longDuration
  | .highCost => s.highCost
  | .parsingError => s.parsingError

def insert (s : TagSet) : Tag → TagSet
  | .longDuration => { s with longDuration := true }
  | .highCost => { s with highCost := true }
  | .parsingError => { s with parsingError := true }

/-- The set with one more tag if the condition holds. -/
def insertIf (condition : Bool) (t : Tag) (s : TagSet) : TagSet :=
  if condition then s.insert t else s

def union (s other : TagSet) : TagSet :=
  ⟨s.longDuration || other.longDuration, s.highCost || other.highCost,
    s.parsingError || other.parsingError⟩

def ofList (tags : List Tag) : TagSet := tags.foldl insert ∅

/-- The tags of a set by priority. -/
def toList (s : TagSet) : List Tag := Tag.all.filter s.contains

theorem contains_insert (s : TagSet) (t u : Tag) :
    (s.insert t).contains u = (u == t || s.contains u) := by
  cases t <;> cases u <;> rfl

theorem contains_insertIf (condition : Bool) (t : Tag) (s : TagSet) (u : Tag) :
    (s.insertIf condition t).contains u = true ↔
      s.contains u = true ∨ u = t ∧ condition = true := by
  unfold insertIf
  cases condition with
  | false => simp
  | true => simp [contains_insert, or_comm]

theorem contains_union (s other : TagSet) (t : Tag) :
    (s.union other).contains t = (s.contains t || other.contains t) := by
  cases t <;> rfl

/-- A set is known by its members. -/
theorem ext {s other : TagSet} (h : ∀ t, s.contains t = other.contains t) : s = other := by
  cases s
  cases other
  simp only [mk.injEq]
  exact ⟨h .longDuration, h .highCost, h .parsingError⟩

/-- Exactly the members of a set are listed. -/
theorem mem_toList {s : TagSet} {t : Tag} : t ∈ s.toList ↔ s.contains t = true := by
  cases t <;> simp [toList, Tag.all]

end TagSet

end DashCalc.Hierarchy
