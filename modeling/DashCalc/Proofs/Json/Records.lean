import DashCalc.Json.Decode
import Mathlib.Data.List.Forall2
import Mathlib.Data.List.Nodup
import Mathlib.Data.Option.Basic

/-!
# Records in JSON

The fields of an object may come in any order: two values are the `Same` if their objects lead from
each name to the same. Decoders look fields up by their names, so they give the same for such values
(`Respects`); it is enough to know this of the decoders that they are made of.

Lists and fields that may be left out are read back from what was written of them
(`list?_map`, `optional?_of_lookup`).
-/

namespace DashCalc.Json

/-- Whether two values differ at most in the order of the fields of their objects. -/
inductive Same : Json → Json → Prop
  | refl (j : Json) : Same j j
  | arr {items items' : List Json} : List.Forall₂ Same items items' → Same (arr items) (arr items')
  | obj {fields fields' : List (String × Json)} : (fields.map Prod.fst).Nodup →
    (fields'.map Prod.fst).Nodup →
    (∀ name, Option.Rel Same (fields.lookup name) (fields'.lookup name)) →
    Same (obj fields) (obj fields')

/-- Whether each name leads to the same among these fields. -/
def SameFields (fields fields' : List (String × Json)) : Prop :=
  ∀ name, Option.Rel Same (fields.lookup name) (fields'.lookup name)

theorem SameFields.refl (fields : List (String × Json)) : SameFields fields fields := by
  intro name
  cases fields.lookup name with
  | none => exact .none
  | some j => exact .some (.refl j)

theorem SameFields.lookup_cases {fields fields' : List (String × Json)}
    (same : SameFields fields fields') (name : String) :
    (fields.lookup name = none ∧ fields'.lookup name = none) ∨
      ∃ j j', fields.lookup name = some j ∧ fields'.lookup name = some j' ∧ Same j j' := by
  have led := same name
  generalize fields.lookup name = found, fields'.lookup name = found' at led
  cases led with
  | none => exact .inl ⟨rfl, rfl⟩
  | some one => exact .inr ⟨_, _, rfl, rfl, one⟩

theorem SameFields.getD {fields fields' : List (String × Json)} (same : SameFields fields fields')
    (name : String) (default : Json) :
    Same ((fields.lookup name).getD default) ((fields'.lookup name).getD default) := by
  rcases same.lookup_cases name with ⟨absent, absent'⟩ | ⟨j, j', hj, hj', one⟩
  · rw [absent, absent']
    exact .refl default
  · rw [hj, hj']
    exact one

theorem Same.of_arr {items : List Json} {j : Json} (same : Same (.arr items) j) :
    ∃ items', j = .arr items' ∧ List.Forall₂ Same items items' := by
  cases same with
  | refl => exact ⟨items, rfl, List.forall₂_same.2 fun j _ => .refl j⟩
  | arr same => exact ⟨_, rfl, same⟩

theorem Same.of_obj {fields : List (String × Json)} {j : Json} (same : Same (.obj fields) j) :
    ∃ fields', j = .obj fields' ∧ SameFields fields fields' := by
  cases same with
  | refl => exact ⟨fields, rfl, .refl fields⟩
  | obj _ _ same => exact ⟨_, rfl, same⟩

/-- Objects with a single field have no other order. -/
theorem SameFields.single {name name' : String} {j j' : Json}
    (same : SameFields [(name, j)] [(name', j')]) : name = name' ∧ Same j j' := by
  rcases same.lookup_cases name' with ⟨-, absent⟩ | ⟨k, k', hk, hk', one⟩
  · rw [List.lookup_cons_self] at absent
    cases absent
  · rw [List.lookup_cons_self] at hk'
    cases hk'
    by_cases here : name' = name
    · subst here
      rw [List.lookup_cons_self] at hk
      cases hk
      exact ⟨rfl, one⟩
    · rw [List.lookup_cons, beq_eq_false_iff_ne.2 here] at hk
      cases hk

/-- Where no name repeats, a field is what its name leads to. -/
theorem lookup_eq_some {α : Type} {fields : List (String × α)}
    (distinct : (fields.map Prod.fst).Nodup) {name : String} {j : α} :
    fields.lookup name = some j ↔ (name, j) ∈ fields := by
  induction fields with
  | nil => simp
  | cons field fields ih =>
    obtain ⟨first, value⟩ := field
    obtain ⟨fresh, distinct⟩ := List.nodup_cons.1 distinct
    rw [List.lookup_cons, List.mem_cons, Prod.mk.injEq]
    by_cases here : name = first
    · subst here
      have absent : (name, j) ∉ fields := fun hmem => fresh (List.mem_map.2 ⟨_, hmem, rfl⟩)
      simp [absent, eq_comm]
    · simp [here, beq_eq_false_iff_ne.2 here, ih distinct]

section Inside

variable {before after : List (String × Json)} {name other : String}

theorem lookup_append_cons_self (absent : before.lookup name = none) (j : Json) :
    (before ++ (name, j) :: after).lookup name = some j := by
  rw [List.lookup_append, absent, Option.none_or, List.lookup_cons_self]

theorem lookup_append_cons_of_ne (h : name ≠ other) (j : Json) :
    (before ++ (other, j) :: after).lookup name = (before ++ after).lookup name := by
  rw [List.lookup_append, List.lookup_append, List.lookup_cons, beq_eq_false_iff_ne.2 h]

end Inside

/-- Objects whose names do not repeat are the same in whichever order their fields come. -/
theorem Same.of_perm {fields fields' : List (String × Json)}
    (distinct : (fields.map Prod.fst).Nodup) (perm : fields.Perm fields') :
    Same (.obj fields) (.obj fields') := by
  have distinct' : (fields'.map Prod.fst).Nodup := (perm.map Prod.fst).nodup_iff.1 distinct
  refine .obj distinct distinct' fun name => ?_
  have same : fields.lookup name = fields'.lookup name := Option.ext fun j => by
    rw [lookup_eq_some distinct, lookup_eq_some distinct', perm.mem_iff]
  rw [← same]
  exact SameFields.refl fields name

theorem isSome_lookup {α : Type} {fields : List (String × α)} {name : String} :
    (fields.lookup name).isSome ↔ name ∈ fields.map Prod.fst := by
  induction fields with
  | nil => simp
  | cons field fields ih =>
    obtain ⟨first, value⟩ := field
    rw [List.lookup_cons, List.map_cons, List.mem_cons]
    by_cases here : name = first
    · simp [here]
    · simp [here, beq_eq_false_iff_ne.2 here, ih]

theorem SameFields.length_eq {fields fields' : List (String × Json)}
    (same : SameFields fields fields') (distinct : (fields.map Prod.fst).Nodup)
    (distinct' : (fields'.map Prod.fst).Nodup) : fields.length = fields'.length := by
  have names : (fields.map Prod.fst).Perm (fields'.map Prod.fst) := by
    refine (List.perm_ext_iff_of_nodup distinct distinct').2 fun name => ?_
    rw [← isSome_lookup, ← isSome_lookup]
    rcases same.lookup_cases name with ⟨absent, absent'⟩ | ⟨j, j', hj, hj', -⟩
    · rw [absent, absent']
    · rw [hj, hj']
      exact Iff.rfl
  simpa using names.length_eq

/-! ## Heights -/

theorem heightOfItems_le {items : List Json} {h : Nat} :
    heightOfItems items ≤ h ↔ ∀ j ∈ items, j.height ≤ h := by
  induction items with
  | nil => simp [heightOfItems]
  | cons j items ih => rw [heightOfItems, Nat.max_le, ih, List.forall_mem_cons]

theorem heightOfFields_le {fields : List (String × Json)} {h : Nat} :
    heightOfFields fields ≤ h ↔ ∀ name j, (name, j) ∈ fields → j.height ≤ h := by
  induction fields with
  | nil => simp [heightOfFields]
  | cons field fields ih =>
    obtain ⟨name, j⟩ := field
    simp only [heightOfFields, Nat.max_le, ih, List.mem_cons, Prod.mk.injEq]
    constructor
    · rintro ⟨first, rest⟩ other k (⟨-, rfl⟩ | hmem)
      · exact first
      · exact rest other k hmem
    · exact fun all => ⟨all name j (.inl ⟨rfl, rfl⟩), fun other k hmem => all other k (.inr hmem)⟩

theorem height_le_of_item {items : List Json} {j : Json} {h : Nat}
    (low : (arr items).height ≤ h) (hj : j ∈ items) : j.height ≤ h :=
  heightOfItems_le.1 (Nat.le_of_succ_le low) j hj

theorem height_le_of_field {fields : List (String × Json)} {h : Nat}
    (low : (obj fields).height ≤ h + 1) {j : Json} (name : String) (hj : (name, j) ∈ fields) :
    j.height ≤ h :=
  heightOfFields_le.1 (Nat.le_of_succ_le_succ low) name j hj

/-- The order of fields makes no difference to how deep values are nested. -/
theorem Same.height_le_iff (h : Nat) : ∀ {j j' : Json},
    Same j j' → (j.height ≤ h ↔ j'.height ≤ h) := by
  induction h with
  | zero =>
    intro j j' same
    cases same with
    | refl => exact Iff.rfl
    | arr => simp [height]
    | obj => simp [height]
  | succ h ih =>
    intro j j' same
    cases same with
    | refl => exact Iff.rfl
    | arr items =>
      rw [height, height, Nat.succ_le_succ_iff, Nat.succ_le_succ_iff]
      induction items with
      | nil => exact Iff.rfl
      | cons first _ ihItems =>
        rw [heightOfItems, heightOfItems, Nat.max_le, Nat.max_le, ih first, ihItems]
    | obj distinct distinct' fields =>
      rw [height, height, Nat.succ_le_succ_iff, Nat.succ_le_succ_iff, heightOfFields_le,
        heightOfFields_le]
      simp only [← lookup_eq_some distinct, ← lookup_eq_some distinct']
      refine forall_congr' fun name => ?_
      rcases SameFields.lookup_cases fields name with ⟨absent, absent'⟩ | ⟨j, j', hj, hj', one⟩
      · simp [absent, absent']
      · simp [hj, hj', ih one]

theorem Same.height_eq {j j' : Json} (same : Same j j') : j'.height = j.height :=
  Nat.le_antisymm ((same.height_le_iff _).1 j.height.le_refl)
    ((same.height_le_iff _).2 j'.height.le_refl)

/-! ## Decoders -/

/-- Whether a decoder gives the same in whichever order fields come. -/
def Respects {α : Type} (decode : Json → Option α) : Prop :=
  ∀ ⦃j j' : Json⦄, Same j j' → decode j' = decode j

theorem respects_text? : Respects text? := by
  intro j j' same
  cases same <;> rfl

theorem respects_bool? : Respects bool? := by
  intro j j' same
  cases same <;> rfl

theorem respects_natBits? (bits : Nat) : Respects (natBits? bits) := by
  intro j j' same
  cases same <;> rfl

namespace Respects

variable {α : Type} {decode : Json → Option α} {fields fields' : List (String × Json)}

theorem nullable? (h : Respects decode) : Respects (Json.nullable? decode) := by
  intro j j' same
  cases same with
  | refl => rfl
  | arr items => exact congrArg (Option.map some) (h (.arr items))
  | obj distinct distinct' fields =>
    exact congrArg (Option.map some) (h (.obj distinct distinct' fields))

theorem list? (h : Respects decode) : Respects (Json.list? decode) := by
  intro j j' same
  cases same with
  | refl => rfl
  | obj => rfl
  | arr items =>
    show List.mapM decode _ = List.mapM decode _
    induction items with
    | nil => rfl
    | cons first _ ih => rw [List.mapM_cons, List.mapM_cons, h first, ih]

theorem field? (h : Respects decode) (same : SameFields fields fields') (name : String) :
    Json.field? decode name fields' = Json.field? decode name fields := by
  unfold Json.field?
  rcases same.lookup_cases name with ⟨absent, absent'⟩ | ⟨j, j', hj, hj', one⟩
  · rw [absent, absent']
  · rw [hj, hj']
    exact h one

theorem fieldOr (h : Respects decode) (same : SameFields fields fields') (default : α)
    (name : String) :
    Json.fieldOr default decode name fields' = Json.fieldOr default decode name fields := by
  unfold Json.fieldOr
  rcases same.lookup_cases name with ⟨absent, absent'⟩ | ⟨j, j', hj, hj', one⟩
  · rw [absent, absent']
  · rw [hj, hj']
    exact h one

theorem optional? (h : Respects decode) (same : SameFields fields fields') (name : String) :
    Json.optional? decode name fields' = Json.optional? decode name fields :=
  h.nullable?.fieldOr same none name

/-- A record is read from its fields, or from an array by position. -/
theorem record {required : Nat} {names : List String} {read : List (String × Json) → Option α}
    (h : ∀ fields fields', SameFields fields fields' → read fields' = read fields) :
    Respects fun j => (j.record? required names).bind read := by
  intro j j' same
  cases same with
  | refl => rfl
  | obj _ _ fields => exact h _ _ fields
  | arr items =>
    rename_i before after
    have zipped : SameFields (names.zip before) (names.zip after) := by
      intro name
      induction items generalizing names with
      | nil => simp
      | cons first _ ih =>
        cases names with
        | nil => exact .none
        | cons head names =>
          rw [List.zip_cons_cons, List.zip_cons_cons, List.lookup_cons, List.lookup_cons]
          split
          · exact .some first
          · exact ih
    simp only [record?, items.length_eq]
    split
    · exact h _ _ zipped
    · rfl

end Respects

/-! ## What was written -/

section Written

variable {α β : Type} {encode : α → Json} {decode : Json → Option α} {name other : String}

theorem list?_map {items : List α} (h : ∀ x ∈ items, decode (encode x) = some x) :
    list? decode (.arr (items.map encode)) = some items := by
  show List.mapM decode _ = _
  induction items with
  | nil => rfl
  | cons x items ih =>
    rw [List.map_cons, List.mapM_cons, h x List.mem_cons_self,
      ih fun y hy => h y (List.mem_cons_of_mem x hy)]
    rfl

theorem nullable?_of_ne {j : Json} (present : j ≠ .null) :
    nullable? decode j = (decode j).map some := by
  cases j with
  | null => exact absurd rfl present
  | _ => rfl

@[simp]
theorem field?_cons_self (j : Json) (fields : List (String × Json)) :
    field? decode name ((name, j) :: fields) = decode j := by
  rw [field?, List.lookup_cons_self, Option.bind_some]

theorem field?_cons_of_ne (h : name ≠ other) (j : Json) (fields : List (String × Json)) :
    field? decode name ((other, j) :: fields) = field? decode name fields := by
  rw [field?, List.lookup_cons, beq_eq_false_iff_ne.2 h, field?]

@[simp]
theorem fieldOr_cons_self (default : α) (j : Json) (fields : List (String × Json)) :
    fieldOr default decode name ((name, j) :: fields) = decode j := by
  rw [fieldOr, List.lookup_cons_self]

theorem fieldOr_cons_of_ne (h : name ≠ other) (default : α) (j : Json)
    (fields : List (String × Json)) :
    fieldOr default decode name ((other, j) :: fields) = fieldOr default decode name fields := by
  rw [fieldOr, List.lookup_cons, beq_eq_false_iff_ne.2 h, fieldOr]

/-- A value that is written even if it is absent is read back if no value is written as `null`. -/
theorem nullable?_ofOption {value : Option α} (present : ∀ x, encode x ≠ .null)
    (back : ∀ x, decode (encode x) = some x) :
    nullable? decode (.ofOption encode value) = some value := by
  cases value with
  | none => rfl
  | some x =>
    show nullable? decode (encode x) = _
    rw [nullable?_of_ne (present x), back x]
    rfl

theorem lookup_fieldIf (name other : String) (value : Option α) :
    (fieldIf name encode value).lookup other = if other = name then value.map encode else none := by
  cases value with
  | none => simp [fieldIf]
  | some x =>
    by_cases here : other = name
    · simp [fieldIf, here]
    · simp [fieldIf, List.lookup_cons, beq_eq_false_iff_ne.2 here, here]

theorem field?_fieldIf_append (h : name ≠ other) {encode : β → Json} (value : Option β)
    (fields : List (String × Json)) :
    field? decode name (fieldIf other encode value ++ fields) = field? decode name fields := by
  rw [field?, List.lookup_append, lookup_fieldIf, if_neg h, Option.none_or, field?]

/-- A field that is left out where there is no value is read back if no value is written as
`null`. -/
theorem optional?_of_lookup {fields : List (String × Json)} {value : Option α}
    (found : fields.lookup name = value.map encode) (present : ∀ x, encode x ≠ .null)
    (back : ∀ x, (name, encode x) ∈ fields → decode (encode x) = some x) :
    optional? decode name fields = some value := by
  unfold optional? fieldOr
  rw [found]
  cases value with
  | none => rfl
  | some x =>
    obtain ⟨before, after, split, -⟩ := List.lookup_eq_some_iff.1 found
    have hmem : (name, encode x) ∈ fields := split ▸ List.mem_append_right before List.mem_cons_self
    show nullable? decode (encode x) = _
    rw [nullable?_of_ne (present x), back x hmem]
    rfl

end Written

end DashCalc.Json
