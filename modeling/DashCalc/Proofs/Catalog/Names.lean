import DashCalc.Catalog.Docs
import DashCalc.Distinct
import DashCalc.Proofs.Formula.Rendering

/-!
# Names of one function

A function is found by its canonical name and by its formula name, in any case. Pricing looks at the
canonical names first and rewriting at the formula names first; both come to the same entry
(`keyFor_eq_map_find`), because a formula name that is the canonical name of an entry belongs to
that entry before any other. So whatever a call is rewritten to, it is priced and linked as before
(`alike_rewritten`).
-/

namespace DashCalc

/-! ## Names in another case -/

/-- A letter in lower case and then in upper case is the letter in upper case. -/
theorem toUpper_toLower (c : Char) : c.toLower.toUpper = c.toUpper := by
  unfold Char.toLower
  split
  case isTrue upper =>
    have back : c.val + ('a'.val - 'A'.val) + ('A'.val - 'a'.val) = c.val := by
      rw [UInt32.add_assoc]
      exact UInt32.add_zero c.val
    simp only [ge_iff_le, Char.reduceVal, UInt32.le_iff_toNat_le, UInt32.reduceToNat] at upper
    have lower : (c.val + ('a'.val - 'A'.val)).toNat = c.val.toNat + 32 := by
      simp only [Char.reduceVal, UInt32.reduceSub, UInt32.toNat_add, UInt32.reduceToNat]
      omega
    unfold Char.toUpper
    simp only [Char.reduceVal, UInt32.le_iff_toNat_le, UInt32.reduceToNat] at lower ⊢
    rw [dif_pos (by omega), dif_neg (by omega)]
    exact Char.ext back
  case isFalse => rfl

theorem upperName_lowerName (name : String) : upperName (lowerName name) = upperName name := by
  unfold upperName lowerName Text.upper Text.lower
  rw [String.toList_ofList, List.map_map]
  exact congrArg String.ofList (List.map_congr_left fun c _ => toUpper_toLower c)

theorem lowerName_eq_of_sameName {a b : String} (h : sameName a b = true) :
    lowerName a = lowerName b := beq_iff_eq.1 h

theorem upperName_eq_of_sameName {a b : String} (h : sameName a b = true) :
    upperName a = upperName b := by
  rw [← upperName_lowerName a, lowerName_eq_of_sameName h, upperName_lowerName]

namespace Catalog

/-! ## The table -/

theorem upperName_canonical : ∀ e ∈ table, upperName e.canonical = e.canonical := by
  decide +kernel

theorem nodup_canonical : (table.map Entry.canonical).Nodup := by decide +kernel

/-- A formula name is the canonical name of its entry in another case, or it is no canonical name,
or it belongs to an entry further up. -/
theorem formulaName_cases : ∀ e ∈ table, upperName e.formulaName = e.canonical ∨
    byCanonical e.formulaName = none ∨ byFormulaName e.formulaName ≠ some e := by
  decide +kernel

/-- The entry with a canonical name is the only one with it. -/
theorem byCanonical_eq_some_iff {name : String} {e : Entry} :
    byCanonical name = some e ↔ e ∈ table ∧ e.canonical = upperName name := by
  constructor
  · intro h
    have found : table.find? (fun e => e.canonical == upperName name) = some e := h
    exact ⟨List.mem_of_find?_eq_some found, by simpa using List.find?_some found⟩
  · rintro ⟨hmem, hname⟩
    unfold byCanonical
    rw [← hname]
    exact find?_key nodup_canonical hmem

theorem mem_of_byFormulaName {name : String} {e : Entry} (h : byFormulaName name = some e) :
    e ∈ table ∧ sameName e.formulaName name = true := by
  have found : table.find? (fun e => sameName e.formulaName name) = some e := h
  exact ⟨List.mem_of_find?_eq_some found, by simpa using List.find?_some found⟩

section SameName

variable {a b : String} (h : sameName a b = true)

include h

theorem byCanonical_eq_of_sameName : byCanonical a = byCanonical b := by
  unfold byCanonical
  rw [upperName_eq_of_sameName h]

theorem byFormulaName_eq_of_sameName : byFormulaName a = byFormulaName b := by
  unfold byFormulaName
  rw [lowerName_eq_of_sameName h]

theorem find_eq_of_sameName : find a = find b := by
  unfold find
  rw [byCanonical_eq_of_sameName h, byFormulaName_eq_of_sameName h]

end SameName

/-! ## One entry for both orders -/

/-- Where both indexes have a name, they have the same entry for it. -/
theorem eq_of_byCanonical_of_byFormulaName {name : String} {e f : Entry}
    (he : byCanonical name = some e) (hf : byFormulaName name = some f) : e = f := by
  obtain ⟨hmem, same⟩ := mem_of_byFormulaName hf
  have canonical : byCanonical f.formulaName = some e := by
    rw [byCanonical_eq_of_sameName same, he]
  have first : byFormulaName f.formulaName = some f := by
    rw [byFormulaName_eq_of_sameName same, hf]
  rcases formulaName_cases f hmem with own | none | further
  · rw [byCanonical_eq_some_iff.2 ⟨hmem, own.symm⟩] at canonical
    exact (Option.some.inj canonical).symm
  · rw [none] at canonical
    cases canonical
  · exact absurd first further

/-- The two orders in which the indexes are asked make no difference. -/
theorem keyFor_eq_map_find (name : String) : keyFor name = (find name).map Entry.canonical := by
  unfold keyFor find
  cases he : byCanonical name with
  | none => cases byFormulaName name <;> rfl
  | some e =>
    cases hf : byFormulaName name with
    | none => rfl
    | some f => rw [eq_of_byCanonical_of_byFormulaName he hf]

theorem mem_of_find {name : String} {e : Entry} (h : find name = some e) : e ∈ table := by
  unfold find at h
  rw [Option.orElse_eq_orElse, Option.orElse_eq_or, Option.or_eq_some_iff] at h
  rcases h with found | ⟨-, found⟩
  · exact (byCanonical_eq_some_iff.1 found).1
  · exact (mem_of_byFormulaName found).1

/-- The canonical name of an entry leads back to it. -/
theorem find_canonical {e : Entry} (h : e ∈ table) : find e.canonical = some e := by
  have found : byCanonical e.canonical = some e :=
    byCanonical_eq_some_iff.2 ⟨h, (upperName_canonical e h).symm⟩
  unfold find
  rw [found]
  rfl

/-! ## Names that are priced alike -/

/-- Whether two names are the same to all that the catalogue knows of functions. -/
structure Alike (a b : String) : Prop where
  find : find a = find b
  keyFor : keyFor a = keyFor b
  cost : (lookup a).cost = (lookup b).cost
  category : (lookup a).category = (lookup b).category
  leastAggregated : (lookup a).leastAggregated = (lookup b).leastAggregated
  link : ∀ links : DocLinks, links.link a = links.link b

theorem Alike.of_page {a b : String} (h : Catalog.find a = Catalog.find b)
    (page : pageFor a = pageFor b) : Alike a b := by
  have known {α : Type} (view : Info → α)
      (rename : ∀ i name, view { i with canonical := name } = view i) :
      view (lookup a) = view (lookup b) := by
    unfold lookup
    rw [h]
    cases Catalog.find b with
    | some e => rfl
    | none => exact rename ⟨b, none, defaultCost, false⟩ a
  refine ⟨h, ?_, known _ fun _ _ => rfl, known _ fun _ _ => rfl, known _ fun _ _ => rfl, ?_⟩
  · rw [keyFor_eq_map_find, keyFor_eq_map_find, h]
  · intro links
    cases links with
    | off => rfl
    | below base => simp only [DocLinks.link, page]

theorem Alike.trans {a b c : String} (h : Alike a b) (h' : Alike b c) : Alike a c where
  find := h.find.trans h'.find
  keyFor := h.keyFor.trans h'.keyFor
  cost := h.cost.trans h'.cost
  category := h.category.trans h'.category
  leastAggregated := h.leastAggregated.trans h'.leastAggregated
  link links := (h.link links).trans (h'.link links)

theorem alike_of_sameName {a b : String} (h : sameName a b = true) : Alike a b := by
  have found := find_eq_of_sameName h
  refine .of_page found ?_
  unfold pageFor
  rw [found]
  cases Catalog.find b with
  | some e => rfl
  | none =>
    simp only [sameName, lowerName_eq_of_sameName h]

/-- A name is priced like its key. -/
theorem alike_of_keyFor {name key : String} (h : keyFor name = some key) : Alike key name := by
  rw [keyFor_eq_map_find] at h
  obtain ⟨e, he, rfl⟩ := Option.map_eq_some_iff.1 h
  have back := find_canonical (mem_of_find he)
  exact .of_page (back.trans he.symm) (pageFor_eq_of_find back he)

/-! ## Rewritten calls -/

open Formula (Word Strategy foldIfElse_cons plainCall rankCall renderCall splitAtList windowedCall
  windowedCall_of_list windowedCall_of_none word_of_keyFor)

/-- Only chains of conditions are rewritten as such. -/
theorem eq_of_ofKey_ifElse {name key : String} (h : keyFor name = some key)
    (chain : Strategy.ofKey key = .ifElse) : key = "IFELSE" := by
  rw [keyFor_eq_map_find] at h
  obtain ⟨e, he, rfl⟩ := Option.map_eq_some_iff.1 h
  have upper : Text.upper e.canonical.toList = "IFELSE".toList := by
    unfold Strategy.ofKey at chain
    dsimp only at chain
    split at chain <;> try cases chain
    split at chain <;> try cases chain
    split at chain <;> try cases chain
    split at chain <;> try cases chain
    split at chain
    · assumption
    · cases chain
  rw [← upperName_canonical e (mem_of_find he), upperName, upper, String.ofList_toList]

/-- Whether a text begins with a call of a function that is priced like the one with this name. -/
def IsCallOf (name : String) (t : Text) : Prop :=
  ∃ written rest, Word written.toList ∧ t = written.toList ++ '(' :: rest ∧ Alike written name

theorem IsCallOf.append {name : String} {t : Text} (h : IsCallOf name t) (u : Text) :
    IsCallOf name (t ++ u) := by
  obtain ⟨written, rest, word, rfl, alike⟩ := h
  exact ⟨written, rest ++ u, word, List.append_assoc .., alike⟩

section Written

variable {name written : String} (word : Word written.toList) (alike : Alike written name)

include word alike

theorem isCallOf_plainCall (arguments : List Text) :
    IsCallOf name (plainCall written.toList arguments) :=
  ⟨written, _, word, rfl, alike⟩

theorem isCallOf_rankCall (arguments : List Text) :
    IsCallOf name (rankCall written.toList arguments) :=
  ⟨written, _, word, List.append_assoc .., alike⟩

theorem isCallOf_windowedCall (always : Bool) (arguments : List Text) :
    IsCallOf name (windowedCall always written.toList arguments) := by
  have plain := isCallOf_plainCall word alike
  cases hsplit : splitAtList arguments with
  | mk before list =>
    cases list with
    | none =>
      rw [windowedCall_of_none hsplit]
      split
      · exact (plain _).append _
      · exact plain _
    | some items =>
      rw [windowedCall_of_list hsplit]
      split
      · exact plain _
      · exact (plain _).append _

end Written

/-- What is written in the place of a call begins with a call that is priced alike. Only a chain of
conditions without a condition leaves no call. -/
theorem isCallOf_renderCall {name : String} (word : Word name.toList) (arguments : List Text)
    (chain : keyFor name = some "IFELSE" → 2 ≤ arguments.length) :
    IsCallOf name (renderCall name.toList arguments) := by
  unfold renderCall
  rw [String.ofList_toList]
  cases hkey : keyFor name with
  | none => exact isCallOf_plainCall word (alike_of_sameName (beq_self_eq_true _)) arguments
  | some key =>
    have wordKey := word_of_keyFor hkey
    have alike := alike_of_keyFor hkey
    dsimp only
    cases hfamily : Strategy.ofKey key with
    | rank => exact isCallOf_rankCall wordKey alike arguments
    | leastAggregated => exact isCallOf_windowedCall wordKey alike false arguments
    | windowed => exact isCallOf_windowedCall wordKey alike true arguments
    | membership => exact isCallOf_plainCall wordKey alike _
    | passThrough => exact isCallOf_plainCall wordKey alike arguments
    | ifElse =>
      obtain rfl := eq_of_ofKey_ifElse hkey hfamily
      obtain ⟨condition, result, rest, rfl⟩ :
          ∃ condition result rest, arguments = condition :: result :: rest := by
        match arguments, chain hkey with
        | condition :: result :: rest, _ => exact ⟨condition, result, rest, rfl⟩
      have wordBack : Word "ifelse".toList := ⟨by decide, List.all_eq_true.1 (by decide)⟩
      have back : Alike "ifelse" name :=
        (alike_of_sameName (b := "IFELSE") (by decide)).trans alike
      exact ⟨"ifelse", _, wordBack, foldIfElse_cons condition result rest, back⟩

/-- **Rewriting keeps the entry.** A name in another case leads to the same entry and the same key,
and the key is the canonical name of the entry, if there is one. So category, cost, family and link
of a function are the same under the name of a call, under its key and under the name that the call
has once it is rewritten. -/
theorem alike_rewritten (name variant : String) (same : sameName variant name = true) :
    Alike variant name ∧ keyFor name = (find name).map Entry.canonical ∧
      (∀ key, keyFor name = some key → Alike key name) ∧
      (Word name.toList → ∀ arguments : List Text,
        (keyFor name = some "IFELSE" → 2 ≤ arguments.length) →
          IsCallOf name (renderCall name.toList arguments)) :=
  ⟨alike_of_sameName same, keyFor_eq_map_find name, fun _ => alike_of_keyFor,
    fun word arguments => isCallOf_renderCall word arguments⟩

/-- An average in capitals is the plain one, although another entry has the same formula name, and a
windowed average is linked to its own page under each of its names. -/
theorem alike_rewritten_average :
    sameName "AVG" "avg" = true ∧ (lookup "AVG").cost = 5 ∧ keyFor "avg" = some "AVG" ∧
      sameName "AVGoVER" "avgOver" = true ∧ keyFor "avgOver" = some "AVG_OVER" ∧
      DocLinks.standard.link "AVG_OVER" = DocLinks.standard.link "AVGoVER" ∧
      IsCallOf "avgOver" (renderCall "avgOver".toList ["a".toList, "[b]".toList]) := by
  have same : sameName "AVG" "avg" = true := by decide
  have sameWindowed : sameName "AVGoVER" "avgOver" = true := by decide
  obtain ⟨plain, plainKey, -, -⟩ := alike_rewritten "avg" "AVG" same
  obtain ⟨windowed, windowedKey, keys, rewritten⟩ :=
    alike_rewritten "avgOver" "AVGoVER" sameWindowed
  have found : find "avg" = some (.aggregate "AVG" "avg" 5) := by decide +kernel
  have foundWindowed : find "avgOver" = some (.other "AVG_OVER" "avgOver" .tableCalculation 7) := by
    decide +kernel
  rw [found] at plainKey
  rw [foundWindowed] at windowedKey
  have cost : (lookup "avg").cost = 5 := by
    rw [lookup, found]
    rfl
  have word : Word "avgOver".toList := ⟨by decide, List.all_eq_true.1 (by decide)⟩
  refine ⟨same, plain.cost.trans cost, plainKey, sameWindowed, windowedKey, ?_, ?_⟩
  · exact ((keys _ windowedKey).link _).trans (windowed.link _).symm
  · refine rewritten word _ fun h => ?_
    rw [windowedKey] at h
    exact absurd h (by decide)

end Catalog

end DashCalc
