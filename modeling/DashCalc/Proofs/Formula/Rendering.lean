import DashCalc.Proofs.Formula.Words
import Mathlib.Data.List.TakeDrop

/-!
# What a call becomes is one item

A rendered call is an item (`Item`): it neither is empty nor has blanks around it, it is well
nested, and its commas are in quotes or parentheses. So expansion turns items into items
(`Item.expandCalls`), and the text of a call can be cut again where its arguments were cut before.
-/

namespace DashCalc.Formula

open Text (Tight Blanks isBlank isWordChar)

/-- An item of an argument list: a non-empty trimmed text that is well nested, with all its commas
in quotes or parentheses. -/
structure Item (t : Text) : Prop where
  nonempty : t ≠ []
  trimmed : Text.trim t = t
  nested : Nested false t

theorem Item.tight {t : Text} (h : Item t) : Tight t :=
  Text.tight_of_trim_eq h.nonempty h.trimmed

theorem Item.of_tight {t : Text} (tight : Tight t) (nested : Nested false t) : Item t :=
  ⟨tight.nonempty, tight.trim_eq, nested⟩

/-! ## Ends of a text -/

theorem getLast?_append_of_ne_nil (s : Text) {t : Text} (ht : t ≠ []) :
    (s ++ t).getLast? = t.getLast? := by
  rw [List.getLast?_append, List.getLast?_eq_some_getLast ht]
  rfl

/-- Whatever stands between two tight texts, the whole is tight. -/
theorem tight_around {s u : Text} (hs : Tight s) (t : Text) (hu : Tight u) :
    Tight (s ++ (t ++ u)) := by
  obtain ⟨c, cs, rfl⟩ := List.exists_cons_of_ne_nil hs.nonempty
  refine ⟨List.cons_ne_nil _ _, hs.first, fun d hd => hu.last d ?_⟩
  rwa [← List.append_assoc, getLast?_append_of_ne_nil _ hu.nonempty] at hd

theorem tight_close : Tight [')'] := by decide

theorem Word.tight {w : Text} (hw : Word w) : Tight w := by
  have noBlank : ∀ c ∈ w, isBlank c = false := by
    intro c hc
    rw [← Bool.not_eq_true]
    intro blank
    have := hw.all c hc
    rw [isWordChar_false_of_isBlank blank] at this
    cases this
  exact ⟨hw.nonempty, fun c hc => noBlank c (List.mem_of_mem_head? hc),
    fun c hc => noBlank c (List.mem_of_getLast? hc)⟩

/-! ## Rendered calls -/

/-- The canonical names of the catalogue are words. -/
theorem word_of_keyFor {name key : String} (h : Catalog.keyFor name = some key) :
    Word key.toList := by
  have table : ∀ e ∈ Catalog.table,
      e.canonical.toList ≠ [] ∧ e.canonical.toList.all isWordChar = true := by
    decide +kernel
  obtain ⟨e, he, rfl⟩ := Option.map_eq_some_iff.1 h
  have mem : e ∈ Catalog.table := by
    rw [Option.orElse_eq_orElse, Option.orElse_eq_or, Option.or_eq_some_iff] at he
    unfold Catalog.byFormulaName Catalog.byCanonical at he
    rcases he with found | ⟨-, found⟩
    · exact List.mem_of_find?_eq_some found
    · exact List.mem_of_find?_eq_some found
  exact ⟨(table e mem).1, fun c hc => List.all_eq_true.1 (table e mem).2 c hc⟩

theorem tight_plainCall {name : Text} (h : Tight name) (arguments : List Text) :
    Tight (plainCall name arguments) := by
  show Tight (name ++ (('(' :: Text.joinWith commaBlank arguments) ++ [')']))
  exact tight_around h _ tight_close

theorem tight_windowClause (partitions sortKeys : List Text) :
    Tight (windowClause partitions sortKeys) := by
  unfold windowClause
  dsimp only
  rw [List.append_assoc]
  exact tight_around (by decide) _ tight_close

theorem isBracketed_brackets (t : Text) : isBracketed ('[' :: (t ++ [']'])) = true := by
  have first : ('[' :: (t ++ [']'])).head? = some '[' := rfl
  have last : ('[' :: (t ++ [']'])).getLast? = some ']' :=
    getLast?_append_of_ne_nil ('[' :: t) (List.cons_ne_nil ']' [])
  unfold isBracketed
  rw [decide_eq_true first, decide_eq_true last]
  rfl

/-- The items of a list are the pieces between its brackets, but for empty ones. -/
theorem listItems_brackets (t : Text) :
    listItems ('[' :: (t ++ [']'])) = (pieces t).filter fun item => !item.isEmpty := by
  have inside : (('[' :: (t ++ [']'])).drop 1).dropLast = t := List.dropLast_concat
  unfold listItems
  rw [isBracketed_brackets, if_pos rfl, inside]

theorem listItems_of_bare {t : Text} (h : isBracketed t = false) :
    listItems t = (pieces t).filter fun item => !item.isEmpty := by
  unfold listItems
  rw [h]
  rfl

theorem splitAtList_cons_of_list {a : Text} (h : isBracketed a = true) (rest : List Text) :
    splitAtList (a :: rest) = ([], some (listItems a)) := by
  have stop : ¬ (!isBracketed a) = true := by
    rw [h]
    exact Bool.false_ne_true
  unfold splitAtList
  rw [List.span_eq_takeWhile_dropWhile,
    List.takeWhile_cons_of_neg (p := fun a => !isBracketed a) stop,
    List.dropWhile_cons_of_neg (p := fun a => !isBracketed a) stop]

theorem splitAtList_cons {a : Text} (h : isBracketed a = false) (rest : List Text) :
    splitAtList (a :: rest) = (a :: (splitAtList rest).1, (splitAtList rest).2) := by
  have go : (!isBracketed a) = true := by
    rw [h]
    rfl
  unfold splitAtList
  rw [List.span_eq_takeWhile_dropWhile, List.span_eq_takeWhile_dropWhile,
    List.takeWhile_cons_of_pos (p := fun a => !isBracketed a) go,
    List.dropWhile_cons_of_pos (p := fun a => !isBracketed a) go]
  cases rest.dropWhile fun a => !isBracketed a <;> rfl

section Windowed

variable {always : Bool} {key : Text} {arguments before items : List Text}

theorem windowedCall_of_list (h : splitAtList arguments = (before, some items)) :
    windowedCall always key arguments =
      if items.isEmpty && !always then plainCall key before
      else plainCall key before ++ ([' '] ++ windowClause (items.map partitionItem) []) := by
  unfold windowedCall
  rw [h]
  cases items <;> rfl

theorem windowedCall_of_none (h : splitAtList arguments = (before, none)) :
    windowedCall always key arguments =
      if always then plainCall key (before.take 1) ++ ([' '] ++ windowClause [] [])
      else plainCall key before := by
  unfold windowedCall
  rw [h]
  cases always <;> rfl

end Windowed

theorem tight_windowedCall {key : Text} (h : Tight key) (always : Bool) (arguments : List Text) :
    Tight (windowedCall always key arguments) := by
  have windowed (kept partitions : List Text) :
      Tight (plainCall key kept ++ ([' '] ++ windowClause partitions [])) :=
    tight_around (tight_plainCall h kept) [' '] (tight_windowClause partitions [])
  cases hsplit : splitAtList arguments with
  | mk before list =>
    cases list with
    | none =>
      rw [windowedCall_of_none hsplit]
      split
      · exact windowed _ _
      · exact tight_plainCall h _
    | some items =>
      rw [windowedCall_of_list hsplit]
      split
      · exact tight_plainCall h _
      · exact windowed _ _

theorem foldIfElse_cons (condition result : Text) (rest : List Text) :
    foldIfElse (condition :: result :: rest) = "ifelse(".toList ++
      ((condition ++ commaBlank ++ result ++ commaBlank ++ foldIfElse rest) ++ [')']) := by
  have assoc (a b c d e f g : Text) :
      a ++ b ++ c ++ d ++ e ++ f ++ g = a ++ ((b ++ c ++ d ++ e ++ f) ++ g) := by
    simp only [List.append_assoc]
  exact assoc ..

/-- A chain of conditions is tight, but for a single text that stands for itself. -/
theorem tight_foldIfElse (arguments : List Text) (single : ∀ t, arguments = [t] → Tight t) :
    Tight (foldIfElse arguments) := by
  match arguments with
  | [] =>
    show Tight "NULL".toList
    decide
  | [otherwise] => exact single otherwise rfl
  | condition :: result :: rest =>
    rw [foldIfElse_cons]
    exact tight_around (by decide) _ tight_close

/-- A rendered call is tight. -/
theorem tight_renderCall {name : Text} (h : Word name) (arguments : Text) :
    Tight (renderCall name (pieces arguments)) := by
  unfold renderCall
  split
  · rename_i key found
    have key := (word_of_keyFor found).tight
    unfold Strategy.render
    split
    · unfold rankCall
      rw [List.append_assoc]
      exact tight_around key _ (tight_windowClause _ _)
    · exact tight_windowedCall key false _
    · exact tight_windowedCall key true _
    · exact tight_plainCall key _
    · exact tight_foldIfElse _ fun t ht => tight_of_pieces_eq_singleton ht
    · exact tight_plainCall key _
  · exact tight_plainCall h.tight _

theorem nested_commaBlank : Nested true commaBlank :=
  .char (by decide) (by decide) (fun _ => rfl) (.of_all (by decide))

theorem nested_joinWith {ts : List Text} (h : ∀ t ∈ ts, Nested false t) :
    Nested true (Text.joinWith commaBlank ts) := by
  match ts with
  | [] => exact .nil
  | [t] => exact (h t List.mem_cons_self).loosen
  | t :: u :: rest =>
    exact ((h t List.mem_cons_self).loosen.append nested_commaBlank).append
      (nested_joinWith fun v hv => h v (List.mem_cons_of_mem t hv))

theorem nested_plainCall {name : Text} (hname : Word name) {arguments : List Text}
    (h : ∀ t ∈ arguments, Nested false t) : Nested false (plainCall name arguments) :=
  hname.nested.append (.parens (nested_joinWith h) .nil)

theorem nested_windowClause {partitions sortKeys : List Text}
    (hpartitions : ∀ t ∈ partitions, Nested false t) (hsortKeys : ∀ t ∈ sortKeys, Nested false t) :
    Nested false (windowClause partitions sortKeys) := by
  have byPartition : Nested true ("PARTITION BY ".toList ++ Text.joinWith commaBlank partitions) :=
    (Nested.of_all (by decide)).append (nested_joinWith hpartitions)
  have bySortKey : Nested true ("ORDER BY ".toList ++ Text.joinWith commaBlank sortKeys) :=
    (Nested.of_all (by decide)).append (nested_joinWith hsortKeys)
  have blank : Nested true [' '] := .of_all (by decide)
  have inside : ∃ inside, Nested true inside ∧
      windowClause partitions sortKeys = "OVER ".toList ++ '(' :: (inside ++ [')']) := by
    unfold windowClause
    cases partitions with
    | nil =>
      cases sortKeys with
      | nil => exact ⟨[], .nil, rfl⟩
      | cons k ks => exact ⟨_, bySortKey, rfl⟩
    | cons p ps =>
      cases sortKeys with
      | nil => exact ⟨_, byPartition, rfl⟩
      | cons k ks => exact ⟨_, (byPartition.append blank).append bySortKey, rfl⟩
  obtain ⟨inside, nested, heq⟩ := inside
  rw [heq]
  exact (Nested.of_all (by decide)).append (.parens nested .nil)

theorem isPlain_of_isPlainName {item : Text} (h : isPlainName item = true) :
    ∀ c ∈ item, isPlain c = true := by
  intro c hc
  unfold isPlainName at h
  rw [Bool.and_eq_true] at h
  have named := List.all_eq_true.1 h.1 c hc
  refine isPlain_iff.2 ⟨?_, ?_, ?_⟩
  · rw [← Bool.not_eq_true]
    intro bracket
    simp only [isBracket, Bool.or_eq_true, decide_eq_true_eq] at bracket
    rcases bracket with ((rfl | rfl) | rfl) | rfl <;> exact absurd named (by decide)
  · rw [← Bool.not_eq_true]
    intro quote
    simp only [Nesting.isQuote, Bool.or_eq_true, decide_eq_true_eq] at quote
    rcases quote with (rfl | rfl) | rfl <;> exact absurd named (by decide)
  · rintro rfl
    exact absurd named (by decide)

theorem nested_partitionItem {t : Text} (h : Nested false t) : Nested false (partitionItem t) := by
  unfold partitionItem
  split
  · rename_i plain
    refine .quoted (by decide) (fun c hc => ?_) .nil
    obtain ⟨noBracket, noQuote, -⟩ := isPlain_iff.1 (isPlain_of_isPlainName plain c hc)
    refine ⟨?_, noBracket⟩
    rintro rfl
    cases noQuote
  · exact h

theorem nested_foldIfElse (arguments : List Text) (h : ∀ t ∈ arguments, Nested false t) :
    Nested false (foldIfElse arguments) := by
  match arguments with
  | [] =>
    show Nested false "NULL".toList
    exact .of_all (by decide)
  | [otherwise] => exact h otherwise List.mem_cons_self
  | condition :: result :: rest =>
    have hcondition := (h condition List.mem_cons_self).loosen
    have hresult := (h result (List.mem_cons_of_mem _ List.mem_cons_self)).loosen
    have hrest : Nested false (foldIfElse rest) :=
      nested_foldIfElse rest fun t ht => h t (List.mem_cons_of_mem _ (List.mem_cons_of_mem _ ht))
    have inside : Nested true
        (condition ++ commaBlank ++ result ++ commaBlank ++ foldIfElse rest) :=
      (((hcondition.append nested_commaBlank).append hresult).append nested_commaBlank).append
        hrest.loosen
    rw [foldIfElse_cons]
    exact (Nested.of_all (t := "ifelse".toList) (by decide)).append (.parens inside .nil)

theorem isBracketed_of_nested {t : Text} (h : Nested false t) : isBracketed t = false := by
  have first : t.head? ≠ some '[' := fun heq => h.first_ne_bracket '[' heq rfl
  unfold isBracketed
  rw [decide_eq_false first, Bool.false_and]

theorem nested_of_mem_listItems {t : Text} (h : Nested false t) :
    ∀ u ∈ listItems t, Nested false u := by
  intro u hu
  rw [listItems_of_bare (isBracketed_of_nested h)] at hu
  exact h.of_mem_pieces u (List.mem_filter.1 hu).1

section Arguments

variable {arguments : List Text} (h : ∀ t ∈ arguments, Nested false t)

include h

theorem splitAtList_of_nested : splitAtList arguments = (arguments, none) := by
  induction arguments with
  | nil => rfl
  | cons a rest ih =>
    rw [splitAtList_cons (isBracketed_of_nested (h a List.mem_cons_self)),
      ih fun t ht => h t (List.mem_cons_of_mem a ht)]

theorem nested_rankCall {key : Text} (hkey : Word key) : Nested false (rankCall key arguments) := by
  have items (index : Nat) : ∀ u ∈ (arguments[index]?.map listItems).getD [], Nested false u := by
    intro u hu
    cases harg : arguments[index]? with
    | none =>
      rw [harg] at hu
      cases hu
    | some t =>
      rw [harg] at hu
      exact nested_of_mem_listItems (h t (List.mem_of_getElem? harg)) u hu
  have partitions : ∀ u ∈ ((arguments[1]?.map listItems).getD []).map partitionItem,
      Nested false u := by
    intro u hu
    obtain ⟨v, hv, rfl⟩ := List.mem_map.1 hu
    exact nested_partitionItem (items 1 v hv)
  have empty : Nested false "() ".toList :=
    .parens (s := []) .nil (.of_all (t := [' ']) (by decide))
  exact (hkey.nested.append empty).append (nested_windowClause partitions (items 0))

theorem nested_windowedCall {key : Text} (hkey : Word key) (always : Bool) :
    Nested false (windowedCall always key arguments) := by
  rw [windowedCall_of_none (splitAtList_of_nested h)]
  split
  · have first : ∀ t ∈ arguments.take 1, Nested false t := fun t ht => h t (List.mem_of_mem_take ht)
    have clause : Nested false (windowClause [] []) :=
      nested_windowClause (fun _ ht => nomatch ht) fun _ ht => nomatch ht
    exact (nested_plainCall hkey first).append
      ((Nested.of_all (t := [' ']) (by decide)).append clause)
  · exact nested_plainCall hkey h

/-- A rendered call is well nested, with its commas in quotes or parentheses. -/
theorem nested_renderCall {name : Text} (hname : Word name) :
    Nested false (renderCall name arguments) := by
  unfold renderCall
  split
  · rename_i key found
    have key := word_of_keyFor found
    unfold Strategy.render
    split
    · exact nested_rankCall h key
    · exact nested_windowedCall h key false
    · exact nested_windowedCall h key true
    · exact nested_plainCall key fun t ht => h t (List.mem_of_mem_take ht)
    · exact nested_foldIfElse arguments h
    · exact nested_plainCall key h
  · exact nested_plainCall hname h

end Arguments

/-! ## Expanded items -/

/-- Whether one text is as tight as another: it is empty only with it, and has a blank at an end
only with it. -/
structure AsTight (t t' : Text) : Prop where
  nonempty : t ≠ [] → t' ≠ []
  empty : t = [] → t' = []
  first : (∀ c ∈ t.head?, isBlank c = false) → ∀ c ∈ t'.head?, isBlank c = false
  last : (∀ c ∈ t.getLast?, isBlank c = false) → ∀ c ∈ t'.getLast?, isBlank c = false

namespace AsTight

variable {s s' t t' : Text}

theorem refl (t : Text) : AsTight t t := ⟨id, id, id, id⟩

theorem of_tight (ht : t ≠ []) (h : Tight t') : AsTight t t' :=
  ⟨fun _ => h.nonempty, fun heq => absurd heq ht, fun _ => h.first, fun _ => h.last⟩

theorem append (hs : AsTight s s') (ht : AsTight t t') : AsTight (s ++ t) (s' ++ t') := by
  by_cases hsnil : s = []
  · rwa [hsnil, hs.empty hsnil]
  by_cases htnil : t = []
  · rwa [htnil, ht.empty htnil, List.append_nil, List.append_nil]
  obtain ⟨c, cs, rfl⟩ := List.exists_cons_of_ne_nil hsnil
  obtain ⟨d, ds, hs'⟩ := List.exists_cons_of_ne_nil (hs.nonempty hsnil)
  refine ⟨fun _ => List.append_ne_nil_of_left_ne_nil (hs.nonempty hsnil) t', fun h => ?_,
    fun first => ?_, fun last => ?_⟩
  · exact absurd (List.append_eq_nil_iff.1 h).1 hsnil
  · have kept := hs.first first
    rwa [hs'] at kept ⊢
  · rw [getLast?_append_of_ne_nil _ htnil] at last
    rw [getLast?_append_of_ne_nil _ (ht.nonempty htnil)]
    exact ht.last last

theorem tight (h : AsTight t t') (ht : Tight t) : Tight t' :=
  ⟨h.nonempty ht.nonempty, h.first ht.first, h.last ht.last⟩

end AsTight

/-- Expansion does not leave blanks at the ends of a text that had none there. Tightness itself is
not kept part by part, as the parts of a tight text need not be tight. -/
theorem Parts.asTight_expandCalls {commas : Bool} {t : Text} (h : Parts commas t) :
    AsTight t (expandCalls t) := by
  induction h with
  | nil =>
    rw [expandCalls_nil]
    exact .refl []
  | @mark commas c t noWord _ _ _ _ ih =>
    rw [expandCalls_cons noWord]
    exact (AsTight.refl [c]).append ih
  | @quoted commas q s t quote closed _ ih =>
    rw [expandCalls_quoted quote closed]
    have run := (AsTight.refl (q :: (s ++ [q]))).append ih
    rwa [enclosed_concat, enclosed_concat] at run
  | @group commas s t hs _ _ iht =>
    rw [expandCalls_group fun _ hu => hs.nested.expandCalls_append hu]
    have framed : Tight ('(' :: (expandCalls s ++ [')'])) :=
      tight_around (s := ['(']) (by decide) _ tight_close
    have run := (AsTight.of_tight (List.cons_ne_nil '(' (s ++ [')'])) framed).append iht
    rwa [enclosed_concat, enclosed_concat] at run
  | word hw apart _ ih =>
    rw [expandCalls_word hw apart]
    exact (AsTight.refl _).append ih
  | @call commas w s t hw hs _ _ iht =>
    obtain ⟨x, hx, expand⟩ := exists_expandCalls_call hw hs.nested
      fun _ hu => hs.nested.expandCalls_append hu
    have tight : Tight x := by
      rcases hx with rfl | rfl
      · exact tight_renderCall hw _
      · exact tight_around hw.tight ('(' :: expandCalls s) tight_close
    have nonempty : w ++ '(' :: (s ++ [')']) ≠ [] :=
      List.append_ne_nil_of_left_ne_nil hw.nonempty _
    have run := (AsTight.of_tight nonempty tight).append iht
    rw [expand]
    rwa [List.append_assoc, enclosed_concat] at run

theorem Parts.nested_expandCalls {commas : Bool} {t : Text} (h : Parts commas t) :
    Nested commas (expandCalls t) := by
  induction h with
  | nil =>
    rw [expandCalls_nil]
    exact .nil
  | mark noWord noBracket noQuote comma _ ih =>
    rw [expandCalls_cons noWord]
    exact .char noBracket noQuote comma ih
  | quoted quote closed _ ih =>
    rw [expandCalls_quoted quote closed]
    exact .quoted quote closed ih
  | group hs _ ihs iht =>
    rw [expandCalls_group fun _ hu => hs.nested.expandCalls_append hu]
    exact .parens ihs iht
  | word hw apart _ ih =>
    rw [expandCalls_word hw apart]
    exact hw.nested.append ih
  | @call commas w s t hw hs _ ihs iht =>
    obtain ⟨x, hx, expand⟩ := exists_expandCalls_call hw hs.nested
      fun _ hu => hs.nested.expandCalls_append hu
    have nested : Nested false x := by
      rcases hx with rfl | rfl
      · exact nested_renderCall (fun p hp => ihs.of_mem_pieces p hp) hw
      · exact hw.nested.append (.parens ihs .nil)
    rw [expand]
    exact nested.mono.append iht

/-- An expanded item is an item. -/
theorem Item.expandCalls {t : Text} (h : Item t) : Item (expandCalls t) :=
  .of_tight (h.nested.parts.asTight_expandCalls.tight h.tight) h.nested.parts.nested_expandCalls

end DashCalc.Formula
