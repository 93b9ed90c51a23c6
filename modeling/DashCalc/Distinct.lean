/-!
# Lists without repetition

`addNew` puts an item at the end of a list unless the list has it. So items stand in the order in
which they first came, and none repeats.
-/

namespace DashCalc

/-- Puts an item at the end of a list that does not have it. -/
def addNew {α : Type} [DecidableEq α] (items : List α) (item : α) : List α :=
  if item ∈ items then items else items ++ [item]

theorem mem_addNew {α : Type} [DecidableEq α] {items : List α} {item x : α} :
    x ∈ addNew items item ↔ x ∈ items ∨ x = item := by
  unfold addNew
  split
  · constructor
    · exact .inl
    · rintro (h | rfl) <;> assumption
  · simp

theorem nodup_addNew {α : Type} [DecidableEq α] {items : List α} (item : α)
    (h : items.Nodup) : (addNew items item).Nodup := by
  unfold addNew
  split
  · exact h
  · rename_i fresh
    rw [List.nodup_append]
    refine ⟨h, by simp, ?_⟩
    intro a ha b hb
    rw [List.mem_singleton] at hb
    exact fun e => fresh (hb ▸ e ▸ ha)

theorem addNew_cons {α : Type} [DecidableEq α] {items : List α} {first item : α}
    (h : item ≠ first) : addNew (first :: items) item = first :: addNew items item := by
  unfold addNew
  by_cases known : item ∈ items
  · rw [if_pos known, if_pos (List.mem_cons_of_mem first known)]
  · have fresh : item ∉ first :: items := by
      rw [List.mem_cons, not_or]
      exact ⟨h, known⟩
    rw [if_neg known, if_neg fresh, List.cons_append]

/-- Where no two items have the same key, an item is found by its key. -/
theorem find?_key {α : Type} {key : α → String} {items : List α} (h : (items.map key).Nodup)
    {item : α} (hmem : item ∈ items) : items.find? (fun x => key x == key item) = some item := by
  induction items with
  | nil => exact absurd hmem List.not_mem_nil
  | cons x rest ih =>
    obtain ⟨hx, hrest⟩ := List.nodup_cons.1 h
    rcases List.mem_cons.1 hmem with rfl | hmem
    · exact List.find?_cons_of_pos (beq_iff_eq.2 rfl)
    · have other : (key x == key item) = false := by
        rw [beq_eq_false_iff_ne]
        exact fun same => hx (same ▸ List.mem_map_of_mem hmem)
      rw [List.find?_cons, other]
      exact ih hrest hmem

end DashCalc
