import DashCalc.Proofs.Formula.Template

/-!
# Expansion of filled templates

What a call of filled templates becomes is a filled template (`uniform_renderCall`), and so is the
expansion of a filled template (`uniform_expandCalls`). Quoted runs of a template hold no
parentheses, so the calls of the text are those of the template: finding the end of a call passes
over its runs (`callBody_fill`), and no word goes on into a run.
-/

namespace DashCalc.Formula

open Text (isWordChar)

/-! ## Rendering -/

section Rendering

variable {paired : Prop} {fs gs : Text → List Text} {key : Text}

theorem Word.noQuote {w : Text} (h : Word w) : NoQuote w := fun c hc =>
  (isPlain_iff.1 (isPlain_of_isWordChar (h.all c hc))).2.1

theorem uniform_commaSeparated (h : UniformList paired fs) :
    Uniform paired fun x => Text.joinWith commaBlank (fs x) :=
  h.joinWith commaBlank (by decide)

theorem uniform_plainCall (hkey : NoQuote key) (h : UniformList paired fs) :
    Uniform paired fun x => plainCall key (fs x) := by
  have opens : Uniform paired fun _ => ['('] := uniform_text (by decide)
  have closes : Uniform paired fun _ => [')'] := uniform_text (by decide)
  exact (uniform_text hkey).append (opens.append ((uniform_commaSeparated h).append closes))

/-- A clause is left out if there are no templates for it. -/
theorem uniformList_clause (words : Text) (hwords : NoQuote words)
    (h : UniformList paired fs) : UniformList paired fun x =>
      if (fs x).isEmpty then [] else [words ++ Text.joinWith commaBlank (fs x)] := by
  have clause := (uniform_text hwords).append (uniform_commaSeparated h)
  obtain ⟨Ts, -, hTs⟩ := h
  cases Ts with
  | nil =>
    refine uniformList_nil.congr fun x hx => ?_
    rw [hTs x hx]
    rfl
  | cons T Ts =>
    refine (UniformList.cons clause uniformList_nil).congr fun x hx => ?_
    rw [hTs x hx]
    rfl

theorem uniform_windowClause (hpartitions : UniformList paired fs)
    (hsortKeys : UniformList paired gs) :
    Uniform paired fun x => windowClause (fs x) (gs x) := by
  have byPartition := uniformList_clause "PARTITION BY ".toList (by decide) hpartitions
  have bySortKey := uniformList_clause "ORDER BY ".toList (by decide) hsortKeys
  have clauses := (byPartition.append bySortKey).joinWith [' '] (by decide)
  have opens : Uniform paired fun _ => "OVER (".toList := uniform_text (by decide)
  exact (opens.append clauses).append (uniform_text (by decide))

theorem uniformList_itemsAt (h : UniformList paired fs) (index : Nat) :
    UniformList paired fun x => ((fs x)[index]?.map listItems).getD [] := by
  obtain ⟨Ts, sound, hTs⟩ := h
  cases hT : Ts[index]? with
  | none =>
    refine uniformList_nil.congr fun x hx => ?_
    rw [hTs x hx, List.getElem?_map, hT]
    rfl
  | some T =>
    refine (uniformList_listItems (sound T (List.mem_of_getElem? hT))).congr fun x hx => ?_
    rw [hTs x hx, List.getElem?_map, hT]
    rfl

theorem UniformList.partitionItems (h : UniformList paired fs) :
    UniformList paired fun x => (fs x).map partitionItem :=
  h.map fun _ hT => uniform_partitionItem hT

theorem uniform_rankCall (hkey : NoQuote key) (h : UniformList paired fs) :
    Uniform paired fun x => rankCall key (fs x) := by
  have window := uniform_windowClause (uniformList_itemsAt h 1).partitionItems
    (uniformList_itemsAt h 0)
  exact ((uniform_text hkey).append (uniform_text (by decide))).append window

/-- Whether there is a list among some arguments depends on their templates alone. -/
theorem uniform_splitAtList (h : UniformList paired fs) :
    UniformList paired (fun x => (splitAtList (fs x)).1) ∧
      ((∀ x, Sealed paired x → (splitAtList (fs x)).2 = none) ∨
        ∃ items, UniformList paired items ∧
          ∀ x, Sealed paired x → (splitAtList (fs x)).2 = some (items x)) := by
  obtain ⟨Ts, sound, hTs⟩ := h
  induction Ts generalizing fs with
  | nil =>
    refine ⟨uniformList_nil.congr fun x hx => ?_, .inl fun x hx => ?_⟩
    · rw [hTs x hx]
      rfl
    · rw [hTs x hx]
      rfl
  | cons T Ts ih =>
    obtain ⟨hT, hrest⟩ := List.forall_mem_cons.1 sound
    rcases isBracketed_fill hT with bare | ⟨M, rfl⟩
    · obtain ⟨before, list⟩ := @ih (fun x => Ts.map (fill x)) hrest fun _ _ => rfl
      have split (x : Text) (hx : Sealed paired x) : splitAtList (fs x) =
          (fill x T :: (splitAtList (Ts.map (fill x))).1, (splitAtList (Ts.map (fill x))).2) := by
        rw [hTs x hx, List.map_cons, splitAtList_cons (bare x hx)]
      refine ⟨(UniformList.cons (uniform_fill hT) before).congr fun x hx => ?_, ?_⟩
      · rw [split x hx]
      · rcases list with none | ⟨items, uniform, found⟩
        · exact .inl fun x hx => by rw [split x hx, none x hx]
        · exact .inr ⟨items, uniform, fun x hx => by rw [split x hx, found x hx]⟩
    · have split (x : Text) (hx : Sealed paired x) : splitAtList (fs x) =
          ([], some (listItems (fill x (.char '[' :: (M ++ [.char ']']))))) := by
        rw [hTs x hx, List.map_cons, splitAtList_cons_of_list]
        rw [fill_brackets]
        exact isBracketed_brackets _
      refine ⟨uniformList_nil.congr fun x hx => by rw [split x hx], .inr ?_⟩
      exact ⟨_, uniformList_listItems hT, fun x hx => by rw [split x hx]⟩

theorem uniform_windowedCall (hkey : NoQuote key) (always : Bool)
    (h : UniformList paired fs) : Uniform paired fun x => windowedCall always key (fs x) := by
  have windowed {kept partitions : Text → List Text} (hkept : UniformList paired kept)
      (hpartitions : UniformList paired partitions) : Uniform paired fun x =>
        plainCall key (kept x) ++ ([' '] ++ windowClause (partitions x) []) :=
    (uniform_plainCall hkey hkept).append
      ((uniform_text (by decide)).append (uniform_windowClause hpartitions uniformList_nil))
  obtain ⟨before, none | ⟨items, listed, found⟩⟩ := uniform_splitAtList h
  · have call (x : Text) (hx : Sealed paired x) : windowedCall always key (fs x) = _ :=
      windowedCall_of_none (Prod.ext rfl (none x hx))
    cases always with
    | true => exact (windowed (before.take 1) uniformList_nil).congr call
    | false => exact (uniform_plainCall hkey before).congr call
  · have call (x : Text) (hx : Sealed paired x) : windowedCall always key (fs x) = _ :=
      windowedCall_of_list (Prod.ext rfl (found x hx))
    have empty : ∃ none : Bool, ∀ x, Sealed paired x → (items x).isEmpty = none := by
      obtain ⟨Ts, -, hTs⟩ := listed
      exact ⟨Ts.isEmpty, fun x hx => by rw [hTs x hx, List.isEmpty_map]⟩
    obtain ⟨none, hnone⟩ := empty
    cases plain : none && !always with
    | true =>
      refine (uniform_plainCall hkey before).congr fun x hx => ?_
      rw [call x hx, hnone x hx, plain, if_pos rfl]
    | false =>
      refine (windowed before listed.partitionItems).congr fun x hx => ?_
      rw [call x hx, hnone x hx, plain, if_neg Bool.false_ne_true]

theorem uniform_foldIfElse : ∀ Ts : List Template, (∀ T ∈ Ts, Sound paired T) →
    Uniform paired fun x => foldIfElse (Ts.map (fill x))
  | [], _ => uniform_text (by decide)
  | [T], sound => uniform_fill (sound T List.mem_cons_self)
  | condition :: result :: rest, sound => by
    obtain ⟨hcondition, hresult, hrest⟩ := by
      simpa only [List.forall_mem_cons] using sound
    have comma : Uniform paired fun _ => commaBlank := uniform_text (by decide)
    have opens : Uniform paired fun _ => "ifelse(".toList := uniform_text (by decide)
    have closes : Uniform paired fun _ => [')'] := uniform_text (by decide)
    have branches := (((uniform_fill hcondition).append comma).append
      (uniform_fill hresult)).append comma
    refine (opens.append ((branches.append (uniform_foldIfElse rest hrest)).append closes)).congr
      fun x _ => ?_
    exact foldIfElse_cons ..

/-- What a call of filled templates becomes is a filled template. -/
theorem uniform_renderCall {name : Text} (hname : Word name) (h : UniformList paired fs) :
    Uniform paired fun x => renderCall name (fs x) := by
  unfold renderCall
  split
  · rename_i key found
    have hkey := (word_of_keyFor found).noQuote
    cases Strategy.ofKey key with
    | rank => exact uniform_rankCall hkey h
    | leastAggregated => exact uniform_windowedCall hkey false h
    | windowed => exact uniform_windowedCall hkey true h
    | membership => exact uniform_plainCall hkey (h.take 1)
    | ifElse =>
      obtain ⟨Ts, sound, hTs⟩ := h
      exact (uniform_foldIfElse Ts sound).congr fun x hx => congrArg foldIfElse (hTs x hx)
    | passThrough => exact uniform_plainCall hkey h
  · exact uniform_plainCall hname.noQuote h

end Rendering

/-! ## Expansion -/

section Expansion

variable {paired : Prop} {x : Text}

/-- Where a call ends depends on the template alone. -/
theorem callBody_fill {T : Template} (hT : Sound paired T) : ∀ inner : Bool,
    (∀ x, Sealed paired x → callBody inner (fill x T) = none) ∨
      ∃ A B : Template, T = A ++ .char ')' :: B ∧
        ∀ x, Sealed paired x → callBody inner (fill x T) = some (fill x A, fill x B) := by
  induction T with
  | nil => exact fun _ => .inl fun _ _ => rfl
  | cons a T ih =>
    intro inner
    obtain ⟨ha, hrest⟩ := List.forall_mem_cons.1 hT
    -- what passes over the first atom leaves the rest to decide
    have goOn {inner' : Bool} (passes : ∀ x, Sealed paired x → PassesBody inner (a.text x) inner') :
        (∀ x, Sealed paired x → callBody inner (fill x (a :: T)) = none) ∨
          ∃ A B : Template, a :: T = A ++ .char ')' :: B ∧ ∀ x, Sealed paired x →
            callBody inner (fill x (a :: T)) = some (fill x A, fill x B) := by
      rcases ih hrest inner' with none | ⟨A, B, rfl, found⟩
      · refine .inl fun x hx => ?_
        rw [fill_cons, passes x hx, none x hx]
        rfl
      · refine .inr ⟨a :: A, B, rfl, fun x hx => ?_⟩
        rw [fill_cons, passes x hx, found x hx]
        rfl
    cases a with
    | run known =>
      exact goOn fun x hx => passesBody_of_forall (ha.sealed hx).noParen
    | char c =>
      by_cases closes : c = ')'
      · subst closes
        cases inner with
        | false => exact .inr ⟨[], T, rfl, fun _ _ => rfl⟩
        | true => exact goOn fun _ _ _ => rfl
      · by_cases opens : c = '('
        · subst opens
          cases inner with
          | false => exact goOn fun _ _ _ => rfl
          | true => exact .inl fun _ _ => rfl
        · refine goOn fun _ _ => passesBody_of_forall fun d hd => ?_
          rw [List.mem_singleton.1 hd]
          exact ⟨opens, closes⟩

theorem Sealed.expandCalls_append (hx : Sealed paired x) (t : Text) :
    expandCalls (x ++ t) = x ++ expandCalls t := by
  obtain ⟨q, s, rfl, quote, closed, -⟩ := hx
  have noWord := isWordChar_false_of_isQuote quote
  have noParen := ne_paren_of_isBracket (isBracket_of_isQuote quote)
  rw [enclosed_concat, expandCalls_cons noWord, expandCalls_of_forall (fun c hc => (closed c hc).2)
    (apart_cons noWord noParen.1 t), expandCalls_cons noWord, enclosed_concat]

/-- A template that starts with a word character starts with a word that does not go on. -/
theorem exists_word_chars (T : Template) : ∀ {c : Char}, isWordChar c = true →
    ∃ (w : Text) (R : Template), Word w ∧ .char c :: T = w.map .char ++ R ∧
      ∀ a ∈ R.head?, ∀ d, a = .char d → isWordChar d = false := by
  induction T with
  | nil => exact fun hc => ⟨_, [], Word.single hc, rfl, nofun⟩
  | cons a T ih =>
    intro c hc
    by_cases goesOn : ∃ d, a = .char d ∧ isWordChar d = true
    · obtain ⟨d, rfl, hd⟩ := goesOn
      obtain ⟨w, R, hw, heq, stops⟩ := ih hd
      exact ⟨c :: w, R, hw.cons hc, congrArg _ heq, stops⟩
    · refine ⟨[c], a :: T, Word.single hc, rfl, ?_⟩
      rintro _ ⟨⟩ d rfl
      rw [← Bool.not_eq_true]
      exact fun hd => goesOn ⟨d, rfl, hd⟩

theorem apart_fill {R : Template} (hR : Sound paired R) (hx : Sealed paired x)
    (stops : ∀ a ∈ R.head?, ∀ d, a = .char d → isWordChar d = false ∧ d ≠ '(') :
    Apart (fill x R) := by
  cases R with
  | nil => exact apart_nil
  | cons a R =>
    rw [fill_cons]
    cases a with
    | char d =>
      obtain ⟨noWord, noParen⟩ := stops _ rfl d rfl
      exact apart_cons noWord noParen _
    | run known =>
      obtain ⟨q, t, hq, quote⟩ := ((List.forall_mem_cons.1 hR).1.sealed hx).first
      rw [hq]
      exact apart_cons (isWordChar_false_of_isQuote quote)
        (ne_paren_of_isBracket (isBracket_of_isQuote quote)).1 _

/-- What comes of a call, if its arguments and what comes after it are expanded uniformly. -/
theorem uniform_expandCalls_call {w : Text} (hw : Word w) {T : Template} (hT : Sound paired T)
    (smaller : ∀ S : Template, S.length ≤ T.length → Sound paired S →
      Uniform paired fun x => expandCalls (fill x S)) :
    Uniform paired fun x => expandCalls (w ++ '(' :: fill x T) := by
  have name : Uniform paired fun _ => w := uniform_text hw.noQuote
  rcases callBody_fill hT false with none | ⟨A, B, rfl, found⟩
  · have opens : Uniform paired fun _ => ['('] := uniform_text (by decide)
    refine (name.append (opens.append (smaller T (Nat.le_refl _) hT))).congr fun x hx => ?_
    exact expandCalls_opened hw (none x hx)
  · have hA : Sound paired A := hT.subset (List.subset_append_left _ _)
    have hB : Sound paired B := hT.subset fun a ha =>
      List.mem_append_right A (List.mem_cons_of_mem _ ha)
    rw [List.length_append, List.length_cons] at smaller
    obtain ⟨A', hA', expanded⟩ := smaller A (by omega) hA
    have arguments : UniformList paired fun x => pieces (expandCalls (fill x A)) :=
      (uniformList_pieces hA').congr fun x hx => congrArg pieces (expanded x hx)
    refine ((uniform_renderCall hw arguments).append (smaller B (by omega) hB)).congr
      fun x hx => ?_
    exact expandCalls_call hw (found x hx)

/-- What comes of a word, if what comes after it is expanded uniformly. -/
theorem uniform_expandCalls_word {w : Text} (hw : Word w) {R : Template} (hR : Sound paired R)
    (stops : ∀ a ∈ R.head?, ∀ d, a = .char d → isWordChar d = false)
    (smaller : ∀ S : Template, S.length ≤ R.length → Sound paired S →
      Uniform paired fun x => expandCalls (fill x S)) :
    Uniform paired fun x => expandCalls (w ++ fill x R) := by
  by_cases opens : ∃ S, R = .char '(' :: S
  · obtain ⟨S, rfl⟩ := opens
    refine uniform_expandCalls_call hw (List.forall_mem_cons.1 hR).2 fun S' hS' => smaller S' ?_
    exact hS'.trans (Nat.le_succ _)
  · refine ((uniform_text hw.noQuote).append (smaller R (Nat.le_refl _) hR)).congr fun x hx => ?_
    refine expandCalls_word hw (apart_fill hR hx fun a ha d hd => ⟨stops a ha d hd, ?_⟩)
    rintro rfl
    obtain ⟨S, hS⟩ := List.head?_eq_some_iff.1 ha
    exact opens ⟨S, hd ▸ hS⟩

/-- Expansion does not look into quoted runs: that of a filled template is a filled template. -/
theorem uniform_expandCalls {T : Template} (hT : Sound paired T) :
    Uniform paired fun x => expandCalls (fill x T) := by
  -- expansion takes a word or a call at once, so the induction is on a bound for the length
  generalize hbound : T.length = bound
  have short : T.length ≤ bound := hbound.le
  clear hbound
  induction bound generalizing T with
  | zero =>
    obtain rfl := List.eq_nil_of_length_eq_zero (Nat.le_zero.1 short)
    exact (uniform_fill hT).congr fun x _ => expandCalls_nil
  | succ bound ih =>
    cases T with
    | nil => exact (uniform_fill hT).congr fun x _ => expandCalls_nil
    | cons a T =>
      obtain ⟨ha, hrest⟩ := List.forall_mem_cons.1 hT
      have shorter : T.length ≤ bound := Nat.le_of_succ_le_succ short
      cases a with
      | run known =>
        refine ((uniform_run ha).append (ih hrest shorter)).congr fun x hx => ?_
        rw [fill_cons, (ha.sealed hx).expandCalls_append]
      | char c =>
        by_cases hc : isWordChar c = true
        · obtain ⟨w, R, hw, heq, stops⟩ := exists_word_chars T hc
          rw [heq] at hT short
          have behind : R.length ≤ bound := by
            have := List.length_pos_iff.2 hw.nonempty
            rw [List.length_append, List.length_map] at short
            omega
          have hR : Sound paired R := hT.subset (List.subset_append_right _ _)
          refine (uniform_expandCalls_word hw hR stops fun S hS sound =>
            ih sound (hS.trans behind)).congr fun x _ => ?_
          rw [heq, fill_append, fill_chars]
        · rw [Bool.not_eq_true] at hc
          have first : Uniform paired fun _ => [c] :=
            uniform_fill (T := [.char c]) (List.forall_mem_singleton.2 ha)
          exact (first.append (ih hrest shorter)).congr fun x _ => expandCalls_cons hc (fill x T)

end Expansion

end DashCalc.Formula
