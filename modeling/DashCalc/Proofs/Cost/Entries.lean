import DashCalc.Proofs.Cost.Pass

/-!
# Records and their keys

Every record has a key: the id of its call or the name of its reference. `Scope.entries` lists the
records of a tree with their keys, and the exhaustive mode records them all
(`Scope.dependencies_exhaustive`). `firstPerKey` keeps the first entry of each key.
-/

namespace DashCalc.Cost

/-! ## Entries -/

/-- What a record is recognised by. -/
inductive Key
  | call (id : NodeId)
  | name (name : String)
  deriving DecidableEq

/-- A record with its key. -/
structure Entry where
  key : Key
  dependency : Dependency

/-- The entries without those whose key was seen or came before. -/
def firstPerKey : List Key → List Entry → List Entry
  | _, [] => []
  | seen, e :: es =>
    if e.key ∈ seen then firstPerKey seen es else e :: firstPerKey (e.key :: seen) es

theorem firstPerKey_singleton (seen : List Key) (e : Entry) :
    firstPerKey seen [e] = if e.key ∈ seen then [] else [e] := by
  unfold firstPerKey
  split <;> rfl

theorem firstPerKey_congr {seen seen' : List Key} (h : ∀ k, k ∈ seen ↔ k ∈ seen')
    (es : List Entry) : firstPerKey seen es = firstPerKey seen' es := by
  induction es generalizing seen seen' with
  | nil => rfl
  | cons e es ih =>
    have next : ∀ k, k ∈ e.key :: seen ↔ k ∈ e.key :: seen' := by
      intro k
      rw [List.mem_cons, List.mem_cons, h k]
    simp only [firstPerKey, h e.key, ih h, ih next]

theorem firstPerKey_append {seen seen' : List Key} {es : List Entry}
    (h : ∀ k, k ∈ seen' ↔ k ∈ seen ∨ k ∈ es.map Entry.key) (fs : List Entry) :
    firstPerKey seen (es ++ fs) = firstPerKey seen es ++ firstPerKey seen' fs := by
  induction es generalizing seen with
  | nil => exact firstPerKey_congr (fun k => by simpa using (h k).symm) fs
  | cons e es ih =>
    rw [List.cons_append]
    by_cases hmem : e.key ∈ seen
    · simp only [firstPerKey, if_pos hmem]
      refine ih fun k => ?_
      rw [h k, List.map_cons, List.mem_cons]
      constructor
      · rintro (hk | rfl | hk)
        · exact .inl hk
        · exact .inl hmem
        · exact .inr hk
      · rintro (hk | hk)
        · exact .inl hk
        · exact .inr (.inr hk)
    · simp only [firstPerKey, if_neg hmem, List.cons_append]
      refine congrArg (e :: ·) (ih fun k => ?_)
      rw [h k, List.map_cons, List.mem_cons, List.mem_cons, or_left_comm, or_assoc]

theorem firstPerKey_eq_nil {seen : List Key} {es : List Entry} (h : ∀ e ∈ es, e.key ∈ seen) :
    firstPerKey seen es = [] := by
  induction es with
  | nil => rfl
  | cons e es ih =>
    unfold firstPerKey
    rw [if_pos (h e List.mem_cons_self)]
    exact ih fun e' he => h e' (List.mem_cons_of_mem _ he)

theorem mem_of_mem_firstPerKey {seen : List Key} {es : List Entry} {e : Entry}
    (h : e ∈ firstPerKey seen es) : e ∈ es := by
  induction es generalizing seen with
  | nil => exact h
  | cons x es ih =>
    by_cases hx : x.key ∈ seen
    · simp only [firstPerKey, if_pos hx] at h
      exact List.mem_cons_of_mem x (ih h)
    · simp only [firstPerKey, if_neg hx] at h
      rcases List.mem_cons.1 h with rfl | h
      · exact List.mem_cons_self
      · exact List.mem_cons_of_mem x (ih h)

/-- Every key that was not seen has a first entry. -/
theorem exists_mem_firstPerKey {seen : List Key} {es : List Entry} {k : Key}
    (hk : k ∈ es.map Entry.key) (hnew : k ∉ seen) : ∃ e ∈ firstPerKey seen es, e.key = k := by
  induction es generalizing seen with
  | nil => exact absurd hk List.not_mem_nil
  | cons x es ih =>
    by_cases hx : x.key ∈ seen
    · simp only [firstPerKey, if_pos hx]
      rcases List.mem_cons.1 hk with rfl | hk
      · exact absurd hx hnew
      · exact ih hk hnew
    · simp only [firstPerKey, if_neg hx]
      by_cases same : x.key = k
      · exact ⟨x, List.mem_cons_self, same⟩
      · have hk : k ∈ es.map Entry.key := by
          rcases List.mem_cons.1 hk with e | hk
          · exact absurd e.symm same
          · exact hk
        have hnew : k ∉ x.key :: seen := by
          rw [List.mem_cons, not_or]
          exact ⟨fun e => same e.symm, hnew⟩
        obtain ⟨e, he, hkey⟩ := ih hk hnew
        exact ⟨e, List.mem_cons_of_mem x he, hkey⟩

/-- The key of the record that a step leads to. -/
def Step.key? : Step → Option Key
  | .call id _ _ => some (.call id)
  | .callAgain id _ _ => some (.call id)
  | .reference name => some (.name name)
  | .referenceAgain name => some (.name name)
  | .deeper => none
  | .shallower => none

namespace Scope

/-- The record of a call. -/
def callRecord (scope : Scope) (level : Nat) (aggregate : Bool) (name : String) : Dependency :=
  ⟨name, if aggregate then .aggregate else .function, "", Catalog.cost name, level,
    scope.links.link name⟩

/-- The record of a reference. -/
def referenceRecord (scope : Scope) (level : Nat) (name : String) : Dependency :=
  match scope.referent name with
  | .parameter value => ⟨name, .parameter, value, 0, level, none⟩
  | .calculatedField e => ⟨name, .calculatedField, e.formula, e.cost.getD 0, level, none⟩
  | .field e => ⟨name, .field, e.formula, e.cost.getD 0, level, none⟩
  | .unknown => ⟨name, .field, "", 0, level, none⟩

/-- The entry of a step. -/
def entryOf? (scope : Scope) (level : Nat) : Step → Option Entry
  | .call id aggregate name => some ⟨.call id, scope.callRecord level aggregate name⟩
  | .callAgain id aggregate name => some ⟨.call id, scope.callRecord level aggregate name⟩
  | .reference name => some ⟨.name name, scope.referenceRecord level name⟩
  | .referenceAgain name => some ⟨.name name, scope.referenceRecord level name⟩
  | .deeper => none
  | .shallower => none

/-- The entries of some steps that start on a level. -/
def entriesFrom (scope : Scope) : Nat → List Step → List Entry
  | _, [] => []
  | level, s :: σ => (scope.entryOf? level s).toList ++ scope.entriesFrom (s.levelAfter level) σ

/-- All records of the exhaustive mode for a tree, with their keys. -/
def entries (scope : Scope) (own : Option String) (n : Node) : List Entry :=
  scope.entriesFrom 0 (scope.trail own n)

variable {scope : Scope}

theorem map_key_entryOf? (level : Nat) (s : Step) :
    (scope.entryOf? level s).toList.map Entry.key = s.key?.toList := by
  cases s <;> rfl

theorem map_key_entriesFrom (level : Nat) (σ : List Step) :
    (scope.entriesFrom level σ).map Entry.key = σ.filterMap Step.key? := by
  induction σ generalizing level with
  | nil => rfl
  | cons s σ ih =>
    rw [entriesFrom, List.map_append, map_key_entryOf?, ih]
    cases s <;> rfl

theorem entriesFrom_append (level : Nat) (σ τ : List Step) :
    scope.entriesFrom level (σ ++ τ) =
      scope.entriesFrom level σ ++ scope.entriesFrom (levelAfter level σ) τ := by
  induction σ generalizing level with
  | nil => rfl
  | cons s σ ih =>
    rw [List.cons_append, entriesFrom, ih, entriesFrom, List.append_assoc]
    rfl

/-- An entry comes from a step, with the step's key. -/
theorem exists_of_mem_entriesFrom {level : Nat} {σ : List Step} {e : Entry}
    (h : e ∈ scope.entriesFrom level σ) : ∃ l, ∃ s ∈ σ, scope.entryOf? l s = some e := by
  induction σ generalizing level with
  | nil => exact absurd h List.not_mem_nil
  | cons s σ ih =>
    rcases List.mem_append.1 h with h | h
    · exact ⟨level, s, List.mem_cons_self, by simpa using h⟩
    · obtain ⟨l, r, hr, he⟩ := ih h
      exact ⟨l, r, List.mem_cons_of_mem _ hr, he⟩

end Scope

/-! ## Recording -/

namespace Tally

variable {scope : Scope}

theorem recordReferent_eq (t : Tally) (name : String) :
    t.recordReferent name (scope.referent name) =
      t.record (scope.referenceRecord t.level name) := by
  unfold Scope.referenceRecord
  cases scope.referent name <;> rfl

/-- The exhaustive mode records the entry of every step. -/
theorem dependencies_meet_exhaustive (hmode : scope.mode = .exhaustive) (t : Tally) (s : Step) :
    (t.meet scope s).dependencies.toList =
      t.dependencies.toList ++ (scope.entryOf? t.level s).toList.map Entry.dependency := by
  have reference (name : String) : (t.reference scope none name).dependencies.toList =
      t.dependencies.toList ++ [scope.referenceRecord t.level name] := by
    simp only [Tally.reference, hmode, recordReferent_eq, record, Array.toList_push]
  cases s with
  | call id aggregate name =>
    simp only [meet, recordCall, hmode, record, Array.toList_push]
    rfl
  | callAgain id aggregate name =>
    simp only [meet, recordCall, hmode, record, Array.toList_push]
    rfl
  | reference name => exact reference name
  | referenceAgain name => exact reference name
  | deeper => exact (List.append_nil _).symm
  | shallower => exact (List.append_nil _).symm

theorem dependencies_foldl_exhaustive (hmode : scope.mode = .exhaustive) (σ : List Step)
    (t : Tally) : (σ.foldl (meet scope) t).dependencies.toList =
      t.dependencies.toList ++ (scope.entriesFrom t.level σ).map Entry.dependency := by
  induction σ generalizing t with
  | nil => exact (List.append_nil _).symm
  | cons s σ ih =>
    rw [List.foldl_cons, ih, dependencies_meet_exhaustive hmode, (meet_sums scope t s).level,
      Scope.entriesFrom, List.map_append, List.append_assoc]

end Tally

namespace Scope

variable {scope : Scope}

/-- The exhaustive mode records every entry. -/
theorem dependencies_exhaustive (hmode : scope.mode = .exhaustive) (own : Option String)
    (n : Node) : (scope.report own n).dependencies = (scope.entries own n).map Entry.dependency := by
  rw [report_exhaustive hmode]
  exact (Tally.dependencies_foldl_exhaustive hmode _ _).trans (List.nil_append _)

end Scope

end DashCalc.Cost
