import DashCalc.Proofs.Formula.TemplateExpansion

/-!
# Expansion keeps quoted runs

A quoted run without parentheses is kept by expansion, wherever it goes, and has no influence on
anything else (`expandCalls_keeps_quoted`). Commas and square brackets in it only do no harm if no
other quoted run of the text holds a parenthesis: calls are found without regard to quotes, so such
a parenthesis may end a call within quotes, and what comes after it is read with quotes and what is
outside them exchanged.

A run that holds parentheses can be changed itself (`expandCalls_ne_replaceAll`).
-/

namespace DashCalc.Formula

/-! ## Quotes -/

/-- The quote that is open at the end of a text, if there is one. -/
def openQuote (t : Text) : Option Char := (t.foldl Nesting.after .top).quote

/-- Whether all parentheses of a text stand outside quotes. -/
def ParensOutside (t : Text) : Prop :=
  ∀ (i : Nat) (h : i < t.length), t[i] = '(' ∨ t[i] = ')' → openQuote (t.take i) = none

instance (t : Text) : Decidable (ParensOutside t) :=
  inferInstanceAs (Decidable (∀ (i : Nat) (h : i < t.length), t[i] = '(' ∨ t[i] = ')' →
    openQuote (t.take i) = none))

section Closed

variable {paired : Prop}

theorem exists_after_eq {c : Char} (hc : ¬ Nesting.isQuote c = true) (depth : Int) :
    ∃ depth', (Nesting.mk none depth).after c = ⟨none, depth'⟩ := by
  unfold Nesting.after
  dsimp only
  rw [if_neg hc]
  split
  · exact ⟨_, rfl⟩
  · split <;> exact ⟨_, rfl⟩

/-- Whether quotes are closed at the end of a text, and at each of its parentheses. -/
structure Closes (n : Nesting) (t : Text) : Prop where
  atEnd : (t.foldl Nesting.after n).quote = none
  atParens : ∀ u c v, t = u ++ c :: v → c = '(' ∨ c = ')' → (u.foldl Nesting.after n).quote = none

theorem Closes.tail {n : Nesting} {s t : Text} (h : Closes n (s ++ t)) :
    Closes (s.foldl Nesting.after n) t := by
  refine ⟨?_, fun u c v heq hc => ?_⟩
  · rw [← List.foldl_append]
    exact h.atEnd
  · rw [← List.foldl_append]
    refine h.atParens (s ++ u) c v ?_ hc
    rw [heq, List.append_assoc]

/-- A quote that opens a run is closed, without parentheses before that. -/
theorem Closes.exists_run {q : Char} (hq : Nesting.isQuote q = true) {t : Text} {depth : Int}
    (h : Closes ⟨none, depth⟩ (q :: t)) : ∃ s rest, t = s ++ q :: rest ∧
      (∀ c ∈ s, c ≠ q ∧ c ≠ '(' ∧ c ≠ ')') ∧ Closes ⟨none, depth⟩ rest := by
  have mem : q ∈ t := by
    by_contra missing
    have other : ∀ c ∈ t, c ≠ q := fun c hc same => missing (same ▸ hc)
    have still := h.atEnd
    rw [foldl_after_opened hq other] at still
    cases still
  obtain ⟨s, rest, rfl, hs⟩ := List.eq_append_cons_of_mem mem
  have other : ∀ c ∈ s, c ≠ q := fun c hc same => hs (same ▸ hc)
  refine ⟨s, rest, rfl, fun c hc => ⟨other c hc, ?_⟩, ?_⟩
  · rw [← not_or]
    intro paren
    obtain ⟨u, v, rfl⟩ := List.append_of_mem hc
    have still := h.atParens (q :: u) c (v ++ q :: rest)
      (by rw [List.cons_append, List.append_assoc, List.cons_append]) paren
    rw [foldl_after_opened hq fun d hd => other d (List.mem_append_left _ hd)] at still
    cases still
  · have closed := foldl_after_quoted hq other depth
    have behind := Closes.tail (s := q :: (s ++ [q])) (t := rest) (by rwa [enclosed_concat])
    rwa [closed] at behind

/-- A text that closes its quotes is made of quoted runs without parentheses and characters that are
no quotes. -/
theorem Closes.uniform (hp : paired) {t : Text} : ∀ {depth : Int}, Closes ⟨none, depth⟩ t →
    Uniform paired fun _ => t := by
  -- a run is taken at once, so the induction is on a bound for the length
  generalize hbound : t.length = bound
  have short : t.length ≤ bound := hbound.le
  clear hbound
  induction bound generalizing t with
  | zero =>
    intro _ _
    obtain rfl := List.eq_nil_of_length_eq_zero (Nat.le_zero.1 short)
    exact uniform_nil
  | succ bound ih =>
    intro depth h
    cases t with
    | nil => exact uniform_nil
    | cons c t =>
      have shorter : t.length ≤ bound := Nat.le_of_succ_le_succ short
      by_cases quote : Nesting.isQuote c = true
      · obtain ⟨s, rest, rfl, inside, behind⟩ := h.exists_run quote
        have run : (Atom.run (some (c :: (s ++ [c])))).Sound paired := by
          rintro _ ⟨⟩
          exact ⟨c, s, rfl, quote, inside, .inl hp⟩
        refine ((uniform_run run).append (ih ?_ behind)).congr fun _ _ => ?_
        · rw [List.length_append, List.length_cons] at shorter
          omega
        · exact (enclosed_concat c c s rest).symm
      · obtain ⟨depth', hafter⟩ := exists_after_eq quote depth
        have behind := Closes.tail (s := [c]) (t := t) h
        rw [List.foldl_cons, hafter] at behind
        have first : Uniform paired fun _ => [c] := uniform_text fun d hd => by
          rw [List.mem_singleton.1 hd]
          exact Bool.eq_false_iff.2 quote
        exact first.append (ih shorter behind)

theorem closes_top {t : Text} (closed : openQuote t = none) (outside : ParensOutside t) :
    Closes .top t := by
  refine ⟨closed, ?_⟩
  rintro u c v rfl paren
  have place := outside u.length (by rw [List.length_append, List.length_cons]; omega)
  rw [List.getElem_append_right (Nat.le_refl _)] at place
  simp only [Nat.sub_self, List.getElem_cons_zero, List.take_left] at place
  exact place paren

/-- A text that leaves no quote open is a template. Its quotes may be paired if no parenthesis stands
in them. -/
theorem uniform_of_openQuote {t : Text} (closed : openQuote t = none)
    (outside : paired → ParensOutside t) : Uniform paired fun _ => t := by
  by_cases hp : paired
  · exact (closes_top closed (outside hp)).uniform hp
  · refine ⟨t.map .char, fun a ha => ?_, fun x _ => (fill_chars x t).symm⟩
    obtain ⟨c, -, rfl⟩ := List.mem_map.1 ha
    exact fun h => absurd h hp

end Closed

/-! ## Gaps -/

/-- A text with gaps, each filled with the same text. -/
def fillGaps (x : Text) (pattern : List (Option Char)) : Text :=
  pattern.flatMap fun place => place.elim x fun c => [c]

/-- An atom as a text with gaps. -/
def Atom.gaps : Atom → List (Option Char)
  | char c => [some c]
  | run none => [none]
  | run (some t) => t.map some

theorem fillGaps_gaps (x : Text) (T : Template) : fillGaps x (T.flatMap Atom.gaps) = fill x T := by
  unfold fillGaps fill
  rw [List.flatMap_assoc]
  refine congrArg (List.flatMap · T) (funext fun a => ?_)
  cases a with
  | char c => rfl
  | run known =>
    cases known with
    | none => exact List.append_nil x
    | some t =>
      show (t.map some).flatMap _ = t
      rw [List.flatMap_map]
      exact List.flatMap_singleton' t

/-- The text with every occurrence of one text replaced by another, from left to right, after some
characters that are passed over. -/
def replaceFrom (old new : Text) : Nat → Text → Text
  | _, [] => []
  | skipped + 1, _ :: t => replaceFrom old new skipped t
  | 0, c :: t =>
    if old.isPrefixOf (c :: t) then new ++ replaceFrom old new (old.length - 1) t
    else c :: replaceFrom old new 0 t

/-- The text with every occurrence of one text replaced by another, from left to right. -/
def replaceAll (old new t : Text) : Text := replaceFrom old new 0 t

section Replacing

variable {q : Char} {s new : Text}

theorem replaceFrom_append (old new : Text) (s t : Text) :
    replaceFrom old new s.length (s ++ t) = replaceFrom old new 0 t := by
  induction s with
  | nil => rfl
  | cons c cs ih => exact ih

/-- A text up to a quote that starts a filled pattern does so whatever else is in the gaps, if they
start with this quote. -/
theorem prefix_fillGaps {x y : Text} (hs : ∀ c ∈ s, c ≠ q) :
    ∀ {pattern : List (Option Char)}, s ++ [q] <+: fillGaps (q :: x) pattern →
      s ++ [q] <+: fillGaps (q :: y) pattern := by
  induction s with
  | nil =>
    intro pattern h
    cases pattern with
    | nil => exact absurd (List.prefix_nil.1 h) (List.cons_ne_nil q [])
    | cons place pattern =>
      cases place with
      | none => exact ⟨y ++ fillGaps (q :: y) pattern, rfl⟩
      | some d =>
        obtain ⟨rfl, -⟩ := List.cons_prefix_cons.1 h
        exact ⟨fillGaps (q :: y) pattern, rfl⟩
  | cons c cs ih =>
    intro pattern h
    cases pattern with
    | nil => exact absurd (List.prefix_nil.1 h) (List.cons_ne_nil c _)
    | cons place pattern =>
      cases place with
      | none =>
        -- the gap starts with the quote
        exact absurd (List.cons_prefix_cons.1 h).1 (hs c List.mem_cons_self)
      | some d =>
        obtain ⟨rfl, rest⟩ := List.cons_prefix_cons.1 h
        exact List.cons_prefix_cons.2 ⟨rfl, ih (fun e he => hs e (List.mem_cons_of_mem c he)) rest⟩

/-- A quoted run that does not come up where the gaps of a pattern hold nothing in quotes is replaced
in the gaps alone. -/
theorem replaceAll_fillGaps (hs : ∀ c ∈ s, c ≠ q) : ∀ {pattern : List (Option Char)},
    ¬ q :: (s ++ [q]) <:+: fillGaps [q, q] pattern →
      replaceAll (q :: (s ++ [q])) new (fillGaps (q :: (s ++ [q])) pattern) =
        fillGaps new pattern := by
  intro pattern
  induction pattern with
  | nil => exact fun _ => rfl
  | cons place pattern ih =>
    intro missing
    have later : ¬ q :: (s ++ [q]) <:+: fillGaps [q, q] pattern := fun h =>
      missing (h.trans (List.suffix_append _ _).isInfix)
    cases place with
    | none =>
      have found : (q :: (s ++ [q])).isPrefixOf
          (q :: ((s ++ [q]) ++ fillGaps (q :: (s ++ [q])) pattern)) = true :=
        List.isPrefixOf_iff_prefix.2 (List.prefix_append (q :: (s ++ [q])) _)
      show replaceFrom _ new 0 (q :: ((s ++ [q]) ++ fillGaps _ pattern)) = new ++ _
      rw [replaceFrom, if_pos found, List.length_cons, Nat.add_sub_cancel, replaceFrom_append]
      exact congrArg _ (ih later)
    | some c =>
      have other : ¬ (q :: (s ++ [q])).isPrefixOf
          (c :: fillGaps (q :: (s ++ [q])) pattern) = true := by
        intro found
        obtain ⟨rfl, behind⟩ := List.cons_prefix_cons.1 (List.isPrefixOf_iff_prefix.1 found)
        have still := prefix_fillGaps (y := [q]) hs behind
        exact missing (List.cons_prefix_cons.2 ⟨rfl, still⟩).isInfix
      show replaceFrom _ new 0 (c :: fillGaps _ pattern) = c :: fillGaps new pattern
      rw [replaceFrom, if_neg other]
      exact congrArg _ (ih later)

end Replacing

/-! ## Contents of a quoted run -/

/-- Whether a text does no harm as the content of a quoted run: it holds no quotes and parentheses,
nor commas and square brackets if a parenthesis stands in quotes before or after the run. -/
structure Harmless (before after s : Text) : Prop where
  noQuote : NoQuote s
  noParen : ∀ c ∈ s, c ≠ '(' ∧ c ≠ ')'
  separators : (ParensOutside before ∧ ParensOutside after) ∨ ∀ c ∈ s, isPlain c = true

section Contents

variable {q : Char} (hq : Nesting.isQuote q = true) {before after s : Text}
include hq

theorem Harmless.ne_quote (h : Harmless before after s) : ∀ c ∈ s, c ≠ q := by
  rintro c hc rfl
  rw [h.noQuote c hc] at hq
  cases hq

theorem Harmless.sealed (h : Harmless before after s) :
    Sealed (ParensOutside before ∧ ParensOutside after) (q :: (s ++ [q])) :=
  ⟨q, s, rfl, hq, fun c hc => ⟨h.ne_quote hq c hc, h.noParen c hc⟩, h.separators⟩

/-- The expansion of a text around a quoted run is a pattern that does not depend on the run. -/
theorem exists_pattern (hbefore : openQuote before = none) (hafter : openQuote after = none) :
    ∃ pattern : List (Option Char), ∀ s, Harmless before after s →
      expandCalls (before ++ q :: (s ++ q :: after)) = fillGaps (q :: (s ++ [q])) pattern := by
  have gap : (Atom.run none).Sound (ParensOutside before ∧ ParensOutside after) := nofun
  obtain ⟨T, hT, text⟩ := (uniform_of_openQuote hbefore And.left).append
    ((uniform_run gap).append (uniform_of_openQuote hafter And.right))
  obtain ⟨E, -, expanded⟩ := uniform_expandCalls hT
  refine ⟨E.flatMap Atom.gaps, fun s hs => ?_⟩
  have run := hs.sealed hq
  calc expandCalls (before ++ q :: (s ++ q :: after))
    _ = expandCalls (before ++ (q :: (s ++ [q]) ++ after)) := by rw [enclosed_concat]
    _ = expandCalls (fill (q :: (s ++ [q])) T) := congrArg expandCalls (text _ run)
    _ = fill (q :: (s ++ [q])) E := expanded _ run
    _ = fillGaps (q :: (s ++ [q])) (E.flatMap Atom.gaps) := (fillGaps_gaps _ E).symm

end Contents

/-- **Expansion keeps quoted runs**: where the quotes around a run are closed, the expansion of the
whole text is a pattern that does not depend on the content of the run, filled with the run. So with
another content, expansion gives the same with this other run in place of the first one, if the
first one does not come up anywhere else in the expansion: not where nothing is in the quotes. -/
theorem expandCalls_keeps_quoted {q : Char} (hq : Nesting.isQuote q = true) {before after : Text}
    (hbefore : openQuote before = none) (hafter : openQuote after = none) :
    (∃ pattern : List (Option Char), ∀ s, Harmless before after s →
      expandCalls (before ++ q :: (s ++ q :: after)) = fillGaps (q :: (s ++ [q])) pattern) ∧
    ∀ s s', Harmless before after s → Harmless before after s' →
      ¬ q :: (s ++ [q]) <:+: expandCalls (before ++ q :: q :: after) →
      expandCalls (before ++ q :: (s' ++ q :: after)) =
        replaceAll (q :: (s ++ [q])) (q :: (s' ++ [q]))
          (expandCalls (before ++ q :: (s ++ q :: after))) := by
  obtain ⟨pattern, kept⟩ := exists_pattern hq hbefore hafter
  refine ⟨⟨pattern, kept⟩, fun s s' hs hs' elsewhere => ?_⟩
  have empty : Harmless before after [] := ⟨nofun, nofun, .inr nofun⟩
  have nothing : expandCalls (before ++ q :: q :: after) = fillGaps [q, q] pattern := kept [] empty
  rw [nothing] at elsewhere
  rw [kept s hs, kept s' hs', replaceAll_fillGaps (hs.ne_quote hq) elsewhere]

/-- A comma and an open bracket in quotes neither cut the arguments nor change the call. -/
theorem expandCalls_keeps_quoted_concat :
    Nesting.isQuote '\x27' = true ∧ openQuote "concat(".toList = none ∧
      openQuote ", `a`)".toList = none ∧
      Harmless "concat(".toList ", `a`)".toList "zzz".toList ∧
      Harmless "concat(".toList ", `a`)".toList "b, [c".toList ∧
      ¬ "'zzz'".toList <:+: expandCalls "concat('', `a`)".toList ∧
      expandCalls "concat('b, [c', `a`)".toList =
        replaceAll "'zzz'".toList "'b, [c'".toList (expandCalls "concat('zzz', `a`)".toList) := by
  have outside : ParensOutside "concat(".toList ∧ ParensOutside ", `a`)".toList := by decide
  have word : Harmless "concat(".toList ", `a`)".toList "zzz".toList :=
    ⟨by decide, by simp, .inl outside⟩
  have list : Harmless "concat(".toList ", `a`)".toList "b, [c".toList :=
    ⟨by decide, by simp, .inl outside⟩
  have elsewhere : ¬ "'zzz'".toList <:+: expandCalls "concat('', `a`)".toList := by decide +kernel
  exact ⟨by decide, by decide, by decide, word, list, elsewhere,
    (expandCalls_keeps_quoted (q := '\x27') (by decide) (by decide) (by decide)).2 _ _ word list
      elsewhere⟩

/-- A call in quotes is expanded, though it is text. So another content in place of `zzz`, which
stands nowhere else, does not come out as it went in. -/
theorem expandCalls_ne_replaceAll :
    openQuote "concat(".toList = none ∧ openQuote ", `a`)".toList = none ∧
      "zzz".toList.all Text.isWordChar = true ∧ ¬ "zzz".toList <:+: "concat(".toList ∧
      ¬ "zzz".toList <:+: ", `a`)".toList ∧
      (∀ e ∈ Catalog.table, ¬ "zzz".toList <:+: e.canonical.toList ∧
        ¬ "zzz".toList <:+: e.formulaName.toList) ∧
      NoQuote "sum(x)".toList ∧
      expandCalls "concat('sum(x)', `a`)".toList = "CONCAT('SUM(x)', `a`)".toList ∧
      replaceAll "'zzz'".toList "'sum(x)'".toList (expandCalls "concat('zzz', `a`)".toList) =
        "CONCAT('sum(x)', `a`)".toList := by
  decide +kernel

end DashCalc.Formula
