import DashCalc.Proofs.Json.Records
import Mathlib.Data.List.Nodup

/-!
# Dictionaries in JSON

A dictionary is what its look-ups are (`Dictionary.ext_get?`), so an object is read as a dictionary
exactly if each of its names leads to the text that the dictionary has for it
(`Json.dictionary?_eq_some`). Hence a dictionary is read back from what was written of it, and the
order of the fields makes no difference to it.
-/

namespace DashCalc

/-! ## Look-ups -/

namespace Dictionary

variable {α : Type} {d d' : Dictionary α} {pairs : List (String × α)} {name : String}

theorem nodup_names (d : Dictionary α) : (d.entries.map Prod.fst).Nodup := by
  rw [List.Nodup, List.pairwise_map]
  refine d.ascending.imp fun {e e'} below same => ?_
  rw [same] at below
  exact String.lt_irrefl _ below

/-- Dictionaries with the same look-ups are the same. -/
theorem ext_get? (h : ∀ name, d.get? name = d'.get? name) : d = d' := by
  have perm : d.entries.Perm d'.entries := by
    refine (List.perm_ext_iff_of_nodup d.nodup_names.of_map d'.nodup_names.of_map).2 ?_
    rintro ⟨name, value⟩
    rw [← Json.lookup_eq_some d.nodup_names, ← Json.lookup_eq_some d'.nodup_names]
    exact Eq.congr_left (h name)
  have same : d.entries = d'.entries :=
    perm.eq_of_pairwise (fun _ _ _ _ below above => absurd above (String.lt_asymm below))
      d.ascending d'.ascending
  cases d
  cases d'
  cases same
  rfl

theorem get?_foldl_insert (distinct : (pairs.map Prod.fst).Nodup) :
    (pairs.foldl (fun d (name, value) => d.insert name value) d).get? name =
      (pairs.lookup name).or (d.get? name) := by
  induction pairs generalizing d with
  | nil => rfl
  | cons pair pairs ih =>
    obtain ⟨first, value⟩ := pair
    obtain ⟨fresh, distinct⟩ := List.nodup_cons.1 distinct
    rw [List.foldl_cons, ih distinct, get?_insert, List.lookup_cons]
    by_cases here : name = first
    · subst here
      have absent : pairs.lookup name = none :=
        Option.not_isSome_iff_eq_none.1 fun found => fresh (Json.isSome_lookup.1 found)
      rw [absent, if_pos rfl, beq_self_eq_true]
      rfl
    · rw [if_neg here, beq_eq_false_iff_ne.2 here]

/-- The dictionary of pairs whose names do not repeat has their values. -/
theorem get?_ofList (distinct : (pairs.map Prod.fst).Nodup) :
    (ofList pairs).get? name = pairs.lookup name := by
  rw [ofList, get?_foldl_insert distinct]
  exact Option.or_none

end Dictionary

/-! ## Reading and writing -/

namespace Json

variable {fields : List (String × Json)} {d : Dictionary String}

/-- Names and texts as the fields of an object. -/
def ofPairs (pairs : List (String × String)) : List (String × Json) :=
  pairs.map fun (name, value) => (name, .str value)

theorem map_fst_ofPairs (pairs : List (String × String)) :
    (ofPairs pairs).map Prod.fst = pairs.map Prod.fst := by
  rw [ofPairs, List.map_map]
  rfl

theorem lookup_ofPairs (pairs : List (String × String)) (name : String) :
    (ofPairs pairs).lookup name = (pairs.lookup name).map .str := by
  induction pairs with
  | nil => rfl
  | cons pair pairs ih =>
    obtain ⟨first, value⟩ := pair
    rw [ofPairs, List.map_cons, List.lookup_cons, List.lookup_cons]
    split
    · rfl
    · exact ih

/-- Pairs are read from fields that have them and nothing else. -/
theorem mapM_text?_eq_some {pairs : List (String × String)} :
    fields.mapM (fun (name, value) => value.text?.map (name, ·)) = some pairs ↔
      fields = ofPairs pairs := by
  induction fields generalizing pairs with
  | nil => cases pairs <;> simp [ofPairs]
  | cons field fields ih =>
    obtain ⟨name, value⟩ := field
    rw [List.mapM_cons]
    cases value with
    | str text =>
      have first : (Json.str text).text?.map (name, ·) = some (name, text) := rfl
      simp only [first, Option.bind_eq_bind, Option.bind_some, Option.bind_eq_some_iff, ih,
        Option.pure_def, Option.some.injEq]
      constructor
      · rintro ⟨rest, rfl, rfl⟩
        rfl
      · intro written
        cases pairs with
        | nil => cases written
        | cons pair pairs =>
          cases written
          exact ⟨pairs, rfl, rfl⟩
    | _ =>
      cases pairs <;> simp [text?, ofPairs]

/-- An object whose names do not repeat is read as the dictionary to whose texts its names lead. -/
theorem dictionary?_eq_some (distinct : (fields.map Prod.fst).Nodup) :
    dictionary? (.obj fields) = some d ↔
      ∀ name, fields.lookup name = (d.get? name).map .str := by
  have read : dictionary? (.obj fields) = some d ↔
      ∃ pairs, fields = ofPairs pairs ∧ Dictionary.ofList pairs = d := by
    simp only [dictionary?, Option.bind_eq_bind, Option.bind_eq_some_iff, mapM_text?_eq_some,
      Option.some.injEq]
  rw [read]
  constructor
  · rintro ⟨pairs, rfl, rfl⟩ name
    rw [map_fst_ofPairs] at distinct
    rw [lookup_ofPairs, Dictionary.get?_ofList distinct]
  · intro led
    let pairs := fields.map fun (name, j) => (name, j.text?.getD "")
    have texts : fields = ofPairs pairs := by
      rw [ofPairs, List.map_map]
      refine (List.map_id fields).symm.trans (List.map_congr_left ?_)
      rintro ⟨name, j⟩ hj
      have found : fields.lookup name = some j := (lookup_eq_some distinct).2 hj
      obtain ⟨text, -, rfl⟩ := Option.map_eq_some_iff.1 ((led name).symm.trans found)
      rfl
    refine ⟨pairs, texts, Dictionary.ext_get? fun name => ?_⟩
    have distinct' : (pairs.map Prod.fst).Nodup := by
      rwa [← map_fst_ofPairs, ← texts]
    rw [Dictionary.get?_ofList distinct']
    refine Option.map_injective (fun _ _ => Json.str.inj) ?_
    rw [← led name, ← lookup_ofPairs, ← texts]

theorem dictionary?_ofDictionary (d : Dictionary String) :
    dictionary? (ofDictionary d) = some d := by
  have distinct : ((ofPairs d.entries).map Prod.fst).Nodup := by
    rw [map_fst_ofPairs]
    exact d.nodup_names
  exact (dictionary?_eq_some distinct).2 (lookup_ofPairs d.entries)

/-- The order of the fields makes no difference to the dictionary that is read. -/
theorem respects_dictionary? : Respects dictionary? := by
  intro j j' same
  cases same with
  | refl => rfl
  | arr => rfl
  | @obj fields fields' distinct distinct' same =>
    refine Option.ext fun d => ?_
    rw [dictionary?_eq_some distinct, dictionary?_eq_some distinct']
    refine forall_congr' fun name => ?_
    rcases SameFields.lookup_cases same name with ⟨absent, absent'⟩ | ⟨j, j', hj, hj', one⟩
    · rw [absent, absent']
    · rw [hj, hj']
      cases d.get? name with
      | none => simp
      | some text =>
        simp only [Option.map_some, Option.some.injEq]
        cases one <;> simp

end Json

end DashCalc
