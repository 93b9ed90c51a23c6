/-!
# Dictionaries

A dictionary maps names to values and keeps its entries in the order of the names, without
repetition; the order is part of the type. `get?_insert` says what insertion does to look-ups, and
`ofList_entries` that a dictionary is rebuilt from its entries.
-/

namespace DashCalc

/-- Entries sorted by name, each name once. -/
def Ascending {α : Type} (entries : List (String × α)) : Prop :=
  entries.Pairwise fun a b => a.1 < b.1

/-- Puts an entry in its place; an entry of the same name gives way. -/
def insertEntry {α : Type} (name : String) (value : α) :
    List (String × α) → List (String × α)
  | [] => [(name, value)]
  | (other, held) :: rest =>
    if name < other then (name, value) :: (other, held) :: rest
    else if other < name then (other, held) :: insertEntry name value rest
    else (name, value) :: rest

theorem mem_insertEntry {α : Type} {name : String} {value : α} {entries : List (String × α)}
    {e : String × α} (h : e ∈ insertEntry name value entries) :
    e = (name, value) ∨ e ∈ entries := by
  induction entries with
  | nil => simpa [insertEntry] using h
  | cons head rest ih =>
    obtain ⟨other, held⟩ := head
    simp only [insertEntry] at h
    split at h
    · simpa using h
    · split at h
      · rcases List.mem_cons.1 h with h | h
        · exact .inr (by simp [h])
        · exact (ih h).imp_right (by simp +contextual)
      · rcases List.mem_cons.1 h with h | h
        · exact .inl h
        · exact .inr (by simp [h])

theorem ascending_insertEntry {α : Type} {name : String} {value : α}
    {entries : List (String × α)} (h : Ascending entries) :
    Ascending (insertEntry name value entries) := by
  induction entries with
  | nil => simp [insertEntry, Ascending]
  | cons head rest ih =>
    obtain ⟨other, held⟩ := head
    obtain ⟨below, tail⟩ := List.pairwise_cons.1 h
    simp only [insertEntry]
    split
    · rename_i lt
      refine List.pairwise_cons.2 ⟨fun e he => ?_, h⟩
      rcases List.mem_cons.1 he with rfl | he
      · exact lt
      · exact String.lt_trans lt (below e he)
    · split
      · rename_i lt
        refine List.pairwise_cons.2 ⟨fun e he => ?_, ih tail⟩
        rcases mem_insertEntry he with rfl | he
        · exact lt
        · exact below e he
      · rename_i notBelow notAbove
        have same : name = other :=
          String.le_antisymm (String.not_lt.1 notAbove) (String.not_lt.1 notBelow)
        refine List.pairwise_cons.2 ⟨fun e he => ?_, tail⟩
        rw [same]
        exact below e he

/-- A map from names to values. -/
structure Dictionary (α : Type) where
  entries : List (String × α)
  ascending : Ascending entries
  deriving DecidableEq

namespace Dictionary

variable {α : Type}

def empty : Dictionary α := ⟨[], List.Pairwise.nil⟩

instance : EmptyCollection (Dictionary α) := ⟨empty⟩

instance : Inhabited (Dictionary α) := ⟨empty⟩

/-- Gives a name a value. -/
def insert (d : Dictionary α) (name : String) (value : α) : Dictionary α :=
  ⟨insertEntry name value d.entries, ascending_insertEntry d.ascending⟩

/-- The dictionary of a list of pairs; the last pair of a name counts. -/
def ofList (pairs : List (String × α)) : Dictionary α :=
  pairs.foldl (fun d (name, value) => d.insert name value) empty

/-- The value of a name. -/
def get? (d : Dictionary α) (name : String) : Option α := d.entries.lookup name

def contains (d : Dictionary α) (name : String) : Bool := (d.get? name).isSome

theorem get?_insert (d : Dictionary α) (name other : String) (value : α) :
    (d.insert name value).get? other = if other = name then some value else d.get? other := by
  obtain ⟨entries, _⟩ := d
  simp only [get?, insert]
  induction entries with
  | nil =>
    by_cases h : other = name
    · simp [insertEntry, h]
    · simp [insertEntry, List.lookup_cons, beq_eq_false_iff_ne.2 h, h]
  | cons head rest ih =>
    obtain ⟨first, held⟩ := head
    have ih := ih (List.pairwise_cons.1 ‹_›).2
    simp only [insertEntry]
    split
    · by_cases h : other = name
      · simp [h]
      · simp [List.lookup_cons, beq_eq_false_iff_ne.2 h, h]
    · split
      · rename_i lt
        by_cases h : other = first
        · have : first ≠ name := fun e => String.lt_irrefl name (e ▸ lt)
          simp [h, this]
        · have h' : (other == first) = false := by simp [h]
          simp only [List.lookup_cons, h', ih]
      · rename_i notBelow notAbove
        have same : name = first :=
          String.le_antisymm (String.not_lt.1 notAbove) (String.not_lt.1 notBelow)
        subst same
        by_cases h : other = name
        · simp [h]
        · have h' : (other == name) = false := by simp [h]
          simp [List.lookup_cons, h', h]

theorem insertEntry_of_above {name : String} {value : α} {entries : List (String × α)}
    (h : ∀ e ∈ entries, e.1 < name) :
    insertEntry name value entries = entries ++ [(name, value)] := by
  induction entries with
  | nil => rfl
  | cons head rest ih =>
    obtain ⟨first, held⟩ := head
    have lt : first < name := h (first, held) (by simp)
    have notBelow : ¬ name < first := String.lt_asymm lt
    simp only [insertEntry, notBelow, lt, if_false, if_true, List.cons_append]
    rw [ih fun e he => h e (List.mem_cons_of_mem _ he)]

theorem entries_foldl_insert (pairs : List (String × α)) (d : Dictionary α)
    (h : Ascending (d.entries ++ pairs)) :
    (pairs.foldl (fun d (name, value) => d.insert name value) d).entries = d.entries ++ pairs := by
  induction pairs generalizing d with
  | nil => simp
  | cons head rest ih =>
    obtain ⟨name, value⟩ := head
    have above : ∀ e ∈ d.entries, e.1 < name := fun e he =>
      (List.pairwise_append.1 h).2.2 e he (name, value) (by simp)
    have step : (d.insert name value).entries = d.entries ++ [(name, value)] :=
      insertEntry_of_above above
    rw [List.foldl_cons, ih _ (by rw [step]; simpa using h), step]
    simp

/-- A dictionary is rebuilt from its entries. -/
theorem ofList_entries (d : Dictionary α) : ofList d.entries = d := by
  have h := entries_foldl_insert d.entries empty (by simpa [empty] using d.ascending)
  have same : (ofList d.entries).entries = d.entries := by simpa [ofList, empty] using h
  cases hd : ofList d.entries
  cases d
  simp_all

end Dictionary

end DashCalc
