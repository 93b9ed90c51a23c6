import DashCalc.Formula.Pieces
import Mathlib.Data.List.TakeWhile

/-!
# Well nested texts

A text is well nested if its quoted runs are closed and hold no bracket, its parentheses match, and
it has no square bracket. Such a text is one piece if all its commas are in quotes or parentheses
(`Nested.segments_append`), and the pieces of any well nested text are such texts
(`Nested.of_mem_pieces`).
-/

namespace DashCalc

namespace Text

/-! ## Trimming -/

/-- A text that is not empty and neither starts nor ends with a blank. -/
structure Tight (t : Text) : Prop where
  nonempty : t ≠ []
  first : ∀ c ∈ t.head?, isBlank c = false
  last : ∀ c ∈ t.getLast?, isBlank c = false

/-- `Tight`, as a test. -/
def isTight (t : Text) : Bool :=
  !t.isEmpty && t.head?.all (!isBlank ·) && t.getLast?.all (!isBlank ·)

theorem isTight_iff {t : Text} : isTight t = true ↔ Tight t := by
  simp only [isTight, Bool.and_eq_true, Bool.not_eq_true', List.isEmpty_eq_false_iff,
    Option.all_eq_true]
  exact ⟨fun ⟨⟨nonempty, first⟩, last⟩ => ⟨nonempty, first, last⟩,
    fun h => ⟨⟨h.nonempty, h.first⟩, h.last⟩⟩

instance (t : Text) : Decidable (Tight t) := decidable_of_iff _ isTight_iff

/-- A text of blanks. -/
def Blanks (t : Text) : Prop := ∀ c ∈ t, isBlank c = true

variable {t : Text}

theorem isBlankText_iff : isBlankText t = true ↔ Blanks t := List.all_eq_true

theorem Tight.trim_eq (h : Tight t) : trim t = t := trim_eq_self h.first h.last

theorem Tight.not_blanks (h : Tight t) : ¬ Blanks t := by
  intro blanks
  obtain ⟨c, cs, rfl⟩ := List.exists_cons_of_ne_nil h.nonempty
  have hc := h.first c rfl
  rw [blanks c List.mem_cons_self] at hc
  cases hc

theorem dropWhile_isBlank_append {blanks : Text} (h : Blanks blanks) (t : Text) :
    (blanks ++ t).dropWhile isBlank = t.dropWhile isBlank := by
  rw [List.dropWhile_append, List.dropWhile_eq_nil_iff.2 h]
  rfl

theorem dropWhile_isBlank_of_first (h : ∀ c ∈ t.head?, isBlank c = false) :
    t.dropWhile isBlank = t := by
  cases t with
  | nil => rfl
  | cons c cs =>
    rw [List.dropWhile_cons_of_neg]
    rw [h c rfl]
    exact Bool.false_ne_true

/-- The blanks around a tight text are trimmed, and nothing else. -/
theorem Tight.trim_padded (h : Tight t) {before after : Text} (hbefore : Blanks before)
    (hafter : Blanks after) : trim (before ++ (t ++ after)) = t := by
  have start : trimStart (before ++ (t ++ after)) = t ++ after := by
    unfold trimStart
    rw [dropWhile_isBlank_append hbefore]
    obtain ⟨c, cs, rfl⟩ := List.exists_cons_of_ne_nil h.nonempty
    exact dropWhile_isBlank_of_first h.first
  have reversed : Blanks after.reverse := fun c hc => hafter c (List.mem_reverse.1 hc)
  unfold trim trimEnd
  rw [start, List.reverse_append, dropWhile_isBlank_append reversed, dropWhile_isBlank_of_first,
    List.reverse_reverse]
  rw [List.head?_reverse]
  exact h.last

theorem first_dropWhile (t : Text) : ∀ c ∈ (t.dropWhile isBlank).head?, isBlank c = false := by
  intro c hc
  have edge := List.head?_dropWhile_not isBlank t
  rwa [Option.mem_def.1 hc] at edge

/-- A text is its trim between blanks. -/
theorem exists_trim_padded (t : Text) : ∃ before after : Text,
    Blanks before ∧ Blanks after ∧ t = before ++ (trim t ++ after) := by
  refine ⟨t.takeWhile isBlank, ((trimStart t).reverse.takeWhile isBlank).reverse,
    fun c hc => List.mem_takeWhile_imp hc,
    fun c hc => List.mem_takeWhile_imp (List.mem_reverse.1 hc), ?_⟩
  have split : trim t ++ ((trimStart t).reverse.takeWhile isBlank).reverse = trimStart t := by
    unfold trim trimEnd
    rw [← List.reverse_append, List.takeWhile_append_dropWhile, List.reverse_reverse]
  rw [split]
  exact List.takeWhile_append_dropWhile.symm

/-- What is left of a text after trimming is tight, or nothing is left. -/
theorem tight_trim (h : ¬ Blanks t) : Tight (trim t) := by
  refine ⟨fun hnil => h ?_, fun c hc => ?_, fun c hc => ?_⟩
  · obtain ⟨before, after, hbefore, hafter, heq⟩ := exists_trim_padded t
    rw [heq, hnil]
    intro c hc
    rcases List.mem_append.1 hc with hc | hc
    · exact hbefore c hc
    · exact hafter c hc
  · -- trimming the end keeps the start
    have before : trim t <+: trimStart t := by
      unfold trim trimEnd
      rw [← List.reverse_suffix, List.reverse_reverse]
      exact List.dropWhile_suffix _
    obtain ⟨rest, hrest⟩ := before
    refine first_dropWhile t c ?_
    show c ∈ (trimStart t).head?
    rw [← hrest, List.head?_append, Option.mem_def.1 hc]
    rfl
  · unfold trim trimEnd at hc
    rw [List.getLast?_reverse] at hc
    exact first_dropWhile _ c hc

theorem trim_of_blanks (h : Blanks t) : trim t = [] := by
  simp [trim, trimStart, trimEnd, List.dropWhile_eq_nil_iff.2 h]

theorem trim_blanks_append {blanks : Text} (h : Blanks blanks) (t : Text) :
    trim (blanks ++ t) = trim t := by
  simp [trim, trimStart, dropWhile_isBlank_append h]

theorem trim_trim (t : Text) : trim (trim t) = trim t := by
  by_cases h : Blanks t
  · rw [trim_of_blanks h]
    rfl
  · exact (tight_trim h).trim_eq

/-- A text that trimming does not change is tight, unless it is empty. -/
theorem tight_of_trim_eq (nonempty : t ≠ []) (trimmed : trim t = t) : Tight t := by
  rw [← trimmed]
  refine tight_trim fun blanks => nonempty ?_
  rw [← trimmed, trim_of_blanks blanks]

end Text

namespace Formula

open Text (Blanks Tight isBlank)

/-! ## Nesting -/

theorem enclosed_append (a b : Char) (s t u : Text) :
    a :: (s ++ b :: t) ++ u = a :: (s ++ b :: (t ++ u)) := by
  rw [List.cons_append, List.append_assoc, List.cons_append]

theorem enclosed_concat (a b : Char) (s t : Text) :
    a :: (s ++ [b]) ++ t = a :: (s ++ b :: t) := enclosed_append a b s [] t

/-- Whether the character is a parenthesis or a square bracket. -/
def isBracket (c : Char) : Bool := c = '(' || c = ')' || c = '[' || c = ']'

/-- Whether the character can stand anywhere in a well nested text. -/
def isPlain (c : Char) : Bool := !isBracket c && !Nesting.isQuote c && c != ','

theorem isPlain_iff {c : Char} :
    isPlain c = true ↔ isBracket c = false ∧ Nesting.isQuote c = false ∧ c ≠ ',' := by
  simp only [isPlain, Bool.and_eq_true, Bool.not_eq_true', bne_iff_ne, and_assoc]

/-- Whether a text is well nested: made of closed quoted runs without brackets, matching
parentheses, and other characters that are not brackets or quotes. Commas outside quotes and
parentheses are admitted or not. -/
inductive Nested : Bool → Text → Prop
  | nil {commas : Bool} : Nested commas []
  | char {commas : Bool} {c : Char} {t : Text} (noBracket : isBracket c = false)
      (noQuote : Nesting.isQuote c = false) (comma : c = ',' → commas = true) :
      Nested commas t → Nested commas (c :: t)
  | quoted {commas : Bool} {q : Char} {s t : Text} (quote : Nesting.isQuote q = true)
      (closed : ∀ c ∈ s, c ≠ q ∧ isBracket c = false) :
      Nested commas t → Nested commas (q :: (s ++ q :: t))
  | parens {commas : Bool} {s t : Text} :
      Nested true s → Nested commas t → Nested commas ('(' :: (s ++ ')' :: t))

namespace Nested

variable {commas : Bool} {s t u : Text}

theorem mono (h : Nested false t) : Nested commas t := by
  generalize hno : false = no at h
  induction h with
  | nil => exact .nil
  | char noBracket noQuote comma _ ih =>
    subst hno
    exact .char noBracket noQuote (fun hc => nomatch comma hc) (ih rfl)
  | quoted quote closed _ ih => exact .quoted quote closed (ih hno)
  | parens hs _ _ ih => exact .parens hs (ih hno)

/-- Commas may be admitted. -/
theorem loosen (h : Nested commas t) : Nested true t := by
  cases commas with
  | false => exact h.mono
  | true => exact h

theorem append (hs : Nested commas s) (ht : Nested commas t) : Nested commas (s ++ t) := by
  induction hs with
  | nil => exact ht
  | char noBracket noQuote comma _ ih => exact .char noBracket noQuote comma (ih ht)
  | quoted quote closed _ ih =>
    rw [enclosed_append]
    exact .quoted quote closed (ih ht)
  | parens hs _ _ ih =>
    rw [enclosed_append]
    exact .parens hs (ih ht)

theorem of_all (h : t.all isPlain = true) : Nested commas t := by
  induction t with
  | nil => exact .nil
  | cons c cs ih =>
    rw [List.all_cons, Bool.and_eq_true] at h
    obtain ⟨noBracket, noQuote, comma⟩ := isPlain_iff.1 h.1
    exact .char noBracket noQuote (fun hc => absurd hc comma) (ih h.2)

theorem first_ne_bracket (h : Nested commas t) : ∀ c ∈ t.head?, c ≠ '[' := by
  intro c hc
  cases h with
  | nil => cases hc
  | char noBracket _ _ _ =>
    cases hc
    rintro rfl
    cases noBracket
  | quoted quote _ _ =>
    cases hc
    rintro rfl
    cases quote
  | parens _ _ =>
    cases hc
    decide

/-! ### Trimming -/

theorem isQuote_of_isBlank {c : Char} (h : isBlank c = true) : Nesting.isQuote c = false := by
  unfold Nesting.isQuote
  by_contra hquote
  simp only [Bool.not_eq_false, Bool.or_eq_true, decide_eq_true_eq] at hquote
  rcases hquote with (rfl | rfl) | rfl <;> exact absurd h (by decide)

theorem isBracket_of_isBlank {c : Char} (h : isBlank c = true) : isBracket c = false := by
  unfold isBracket
  by_contra hbracket
  simp only [Bool.not_eq_false, Bool.or_eq_true, decide_eq_true_eq] at hbracket
  rcases hbracket with ((rfl | rfl) | rfl) | rfl <;> exact absurd h (by decide)

theorem of_cons_blank {c : Char} (hc : isBlank c = true) (h : Nested commas (c :: t)) :
    Nested commas t := by
  cases h with
  | char _ _ _ ht => exact ht
  | quoted quote _ _ =>
    rw [isQuote_of_isBlank hc] at quote
    cases quote
  | parens _ _ => exact absurd hc (by decide)

theorem of_blanks_append (hs : Blanks s) (h : Nested commas (s ++ t)) : Nested commas t := by
  induction s with
  | nil => exact h
  | cons c cs ih =>
    exact ih (fun d hd => hs d (List.mem_cons_of_mem c hd))
      (of_cons_blank (hs c List.mem_cons_self) h)

theorem exists_of_append_eq_concat {x u t : Text} {c : Char} (h : x ++ u = t ++ [c]) :
    (u = [] ∧ x = t ++ [c]) ∨ ∃ v, u = v ++ [c] ∧ t = x ++ v := by
  rcases List.eq_nil_or_concat u with rfl | ⟨v, d, rfl⟩
  · exact .inl ⟨rfl, by rwa [List.append_nil] at h⟩
  · rw [List.concat_eq_append, ← List.append_assoc] at h
    obtain ⟨front, last⟩ := List.append_inj' h rfl
    exact .inr ⟨v, by rw [List.concat_eq_append, last], front.symm⟩

theorem of_concat_blank {c : Char} (hc : isBlank c = true) (h : Nested commas u) :
    ∀ t, u = t ++ [c] → Nested commas t := by
  induction h with
  | nil =>
    intro t heq
    exact absurd heq.symm (List.append_ne_nil_of_right_ne_nil t (List.cons_ne_nil c []))
  | char noBracket noQuote comma _ ih =>
    intro t heq
    cases t with
    | nil => exact .nil
    | cons d ds =>
      rw [List.cons_append, List.cons.injEq] at heq
      obtain ⟨rfl, heq⟩ := heq
      exact .char noBracket noQuote comma (ih ds heq)
  | @quoted commas q s u quote closed _ ih =>
    intro t heq
    have split : q :: (s ++ [q]) ++ u = t ++ [c] := (enclosed_concat q q s u).trans heq
    rcases exists_of_append_eq_concat split with ⟨-, heq⟩ | ⟨v, rfl, rfl⟩
    · -- the last character is the quote, which is no blank
      obtain ⟨-, last⟩ := List.append_inj' (show (q :: s) ++ [q] = t ++ [c] from heq) rfl
      rw [List.cons.injEq] at last
      rw [last.1, isQuote_of_isBlank hc] at quote
      cases quote
    · rw [enclosed_append]
      exact .quoted quote closed (ih v rfl)
  | @parens commas s u hs _ _ ih =>
    intro t heq
    have split : '(' :: (s ++ [')']) ++ u = t ++ [c] := (enclosed_concat _ _ s u).trans heq
    rcases exists_of_append_eq_concat split with ⟨-, heq⟩ | ⟨v, rfl, rfl⟩
    · obtain ⟨-, last⟩ := List.append_inj' (show ('(' :: s) ++ [')'] = t ++ [c] from heq) rfl
      rw [List.cons.injEq] at last
      rw [← last.1] at hc
      exact absurd hc (by decide)
    · rw [enclosed_append]
      exact .parens hs (ih v rfl)

theorem of_append_blanks (hs : Blanks s) (h : Nested commas (t ++ s)) : Nested commas t := by
  induction s generalizing t with
  | nil => rwa [List.append_nil] at h
  | cons c cs ih =>
    have first : Nested commas (t ++ [c]) :=
      ih (fun d hd => hs d (List.mem_cons_of_mem c hd)) (by rwa [List.append_assoc])
    exact of_concat_blank (hs c List.mem_cons_self) first t rfl

theorem trim (h : Nested commas t) : Nested commas (Text.trim t) := by
  obtain ⟨before, after, hbefore, hafter, heq⟩ := Text.exists_trim_padded t
  rw [heq] at h
  exact of_append_blanks hafter (of_blanks_append hbefore h)

end Nested

/-! ## Pieces -/

/-- The segments of a text that goes on: what stands before belongs to the first segment. -/
def glue (s : Text) : List Text → List Text
  | [] => [s]
  | t :: ts => (s ++ t) :: ts

theorem glue_glue (s t : Text) (segments : List Text) :
    glue s (glue t segments) = glue (s ++ t) segments := by
  cases segments with
  | nil => rfl
  | cons u us =>
    show (s ++ (t ++ u)) :: us = _
    rw [← List.append_assoc]
    rfl

theorem segments_cons_of_separates {n : Nesting} {c : Char} (h : n.separates c = true) (t : Text) :
    segments n (c :: t) = [] :: segments n t := by
  rw [segments, if_pos h]

theorem segments_cons {n : Nesting} {c : Char} (h : n.separates c = false) (t : Text) :
    segments n (c :: t) = glue [c] (segments (n.after c) t) := by
  rw [segments, if_neg (Bool.eq_false_iff.1 h)]
  cases segments (n.after c) t <;> rfl

/-- Nothing is lost between the segments but the commas. -/
theorem joinWith_segments (n : Nesting) (t : Text) :
    Text.joinWith [','] (segments n t) = t := by
  induction t generalizing n with
  | nil => rfl
  | cons c t ih =>
    by_cases h : n.separates c = true
    · have comma : c = ',' := by
        unfold Nesting.separates at h
        rw [Bool.and_eq_true] at h
        exact eq_of_beq h.2
      have rest := ih n
      rw [segments_cons_of_separates h]
      cases hs : segments n t with
      | nil => exact absurd hs (segments_ne_nil n t)
      | cons s ss =>
        rw [hs] at rest
        rw [comma]
        show [] ++ [','] ++ Text.joinWith [','] (s :: ss) = _
        rw [rest]
        rfl
    · rw [Bool.not_eq_true] at h
      have rest := ih (n.after c)
      rw [segments_cons h]
      cases hs : segments (n.after c) t with
      | nil => exact absurd hs (segments_ne_nil _ t)
      | cons s ss =>
        rw [hs] at rest
        cases ss with
        | nil =>
          rw [← rest]
          rfl
        | cons u us =>
          rw [← rest]
          rfl

theorem foldl_after_opened {q : Char} (hq : Nesting.isQuote q = true) {s : Text}
    (h : ∀ c ∈ s, c ≠ q) (depth : Int) :
    (q :: s).foldl Nesting.after ⟨none, depth⟩ = ⟨some q, depth⟩ := by
  have opens : (Nesting.mk none depth).after q = ⟨some q, depth⟩ := if_pos hq
  rw [List.foldl_cons, opens]
  clear opens
  induction s with
  | nil => rfl
  | cons c cs ih =>
    have stays : (Nesting.mk (some q) depth).after c = ⟨some q, depth⟩ :=
      if_neg (h c List.mem_cons_self)
    rw [List.foldl_cons, stays, ih fun d hd => h d (List.mem_cons_of_mem c hd)]

/-- A closed quoted run leaves the nesting as it was. -/
theorem foldl_after_quoted {q : Char} (hq : Nesting.isQuote q = true) {s : Text}
    (h : ∀ c ∈ s, c ≠ q) (depth : Int) :
    (q :: (s ++ [q])).foldl Nesting.after ⟨none, depth⟩ = ⟨none, depth⟩ := by
  rw [← List.cons_append, List.foldl_append, foldl_after_opened hq h]
  exact if_pos rfl

/-- A quoted run is passed over up to its closing quote. -/
theorem segments_quoted {q : Char} {s : Text} (h : ∀ c ∈ s, c ≠ q) (d : Int) (w : Text) :
    segments ⟨some q, d⟩ (s ++ q :: w) = glue (s ++ [q]) (segments ⟨none, d⟩ w) := by
  induction s with
  | nil =>
    have closes : (Nesting.mk (some q) d).after q = ⟨none, d⟩ := if_pos rfl
    rw [List.nil_append, segments_cons rfl, closes]
    rfl
  | cons c cs ih =>
    have stays : (Nesting.mk (some q) d).after c = ⟨some q, d⟩ := if_neg (h c List.mem_cons_self)
    rw [List.cons_append, segments_cons rfl, stays, ih fun e he => h e (List.mem_cons_of_mem c he),
      glue_glue]
    rfl

namespace Nested

variable {commas : Bool} {s t : Text}

theorem after_of_plain {c : Char} (noBracket : isBracket c = false)
    (noQuote : Nesting.isQuote c = false) (d : Int) :
    (Nesting.mk none d).after c = ⟨none, d⟩ := by
  simp only [isBracket, Bool.or_eq_false_iff, decide_eq_false_iff_not] at noBracket
  obtain ⟨⟨⟨h1, h2⟩, h3⟩, h4⟩ := noBracket
  simp only [Nesting.after, noQuote, h1, h2, h3, h4, decide_false, Bool.or_self, Bool.false_eq_true,
    if_false]

theorem separates_of_ne {c : Char} (h : c ≠ ',') (n : Nesting) : n.separates c = false := by
  unfold Nesting.separates
  rw [beq_false_of_ne h, Bool.and_false]

theorem after_of_isQuote {q : Char} (h : Nesting.isQuote q = true) (d : Int) :
    (Nesting.mk none d).after q = ⟨some q, d⟩ := if_pos h

/-- A well nested text is passed over, if its commas do not separate there. -/
theorem segments_append (h : Nested commas s) : ∀ d : Int, 0 ≤ d → (commas = true → 0 < d) →
    ∀ w, segments ⟨none, d⟩ (s ++ w) = glue s (segments ⟨none, d⟩ w) := by
  -- the depth is general: in parentheses it is higher, and commas do not separate there
  induction h with
  | nil =>
    intro d _ _ w
    cases hs : segments ⟨none, d⟩ w with
    | nil => exact absurd hs (segments_ne_nil _ w)
    | cons u us => exact hs
  | @char commas c t noBracket noQuote comma _ ih =>
    intro d hd inside w
    have passes : (Nesting.mk none d).separates c = false := by
      by_cases hc : c = ','
      · have := inside (comma hc)
        have deep : (d == 0) = false := beq_false_of_ne (by omega)
        show (true && d == 0 && c == ',') = false
        rw [deep]
        rfl
      · exact separates_of_ne hc _
    rw [List.cons_append, segments_cons passes, after_of_plain noBracket noQuote,
      ih d hd inside w, glue_glue]
    rfl
  | @quoted commas q s t quote closed _ ih =>
    intro d hd inside w
    have comma : q ≠ ',' := by
      rintro rfl
      cases quote
    rw [enclosed_append, segments_cons (separates_of_ne comma _), after_of_isQuote quote,
      segments_quoted fun c hc => (closed c hc).1, ih d hd inside w, glue_glue, glue_glue,
      List.append_assoc, List.append_assoc]
    rfl
  | @parens commas s t _ _ ihs iht =>
    intro d hd inside w
    have opens : (Nesting.mk none d).after '(' = ⟨none, d + 1⟩ := rfl
    have closes : (Nesting.mk none (d + 1)).after ')' = ⟨none, d⟩ := by
      show Nesting.mk none (d + 1 - 1) = _
      rw [Int.add_sub_cancel]
    rw [enclosed_append, segments_cons (separates_of_ne (by decide) _), opens,
      ihs (d + 1) (by omega) (fun _ => by omega), segments_cons (separates_of_ne (by decide) _),
      closes, iht d hd inside w, glue_glue, glue_glue, glue_glue, List.append_assoc]
    rfl

theorem of_mem_glue (hs : Nested false s) {segments : List Text}
    (h : ∀ u ∈ segments, Nested false u) : ∀ u ∈ glue s segments, Nested false u := by
  intro u hu
  cases segments with
  | nil =>
    rw [List.mem_singleton.1 hu]
    exact hs
  | cons v vs =>
    rcases List.mem_cons.1 hu with rfl | hu
    · exact hs.append (h v List.mem_cons_self)
    · exact h u (List.mem_cons_of_mem v hu)

/-- The commas outside quotes and parentheses separate: there are none in a segment. -/
theorem of_mem_segments (h : Nested commas t) : ∀ s ∈ segments .top t, Nested false s := by
  induction h with
  | nil =>
    intro s hs
    rw [List.mem_singleton.1 hs]
    exact .nil
  | @char commas c t noBracket noQuote _ _ ih =>
    intro s hs
    by_cases hc : c = ','
    · subst hc
      rw [segments_cons_of_separates rfl] at hs
      rcases List.mem_cons.1 hs with rfl | hs
      · exact .nil
      · exact ih s hs
    · rw [segments_cons (separates_of_ne hc _)] at hs
      have single : Nested false [c] := .char noBracket noQuote (fun h => absurd h hc) .nil
      rw [show Nesting.top.after c = .top from after_of_plain noBracket noQuote 0] at hs
      exact of_mem_glue single ih s hs
  | @quoted commas q s t quote closed _ ih =>
    intro u hu
    have run : Nested false (q :: (s ++ [q])) := .quoted quote closed .nil
    have whole := run.segments_append 0 (Int.le_refl 0) (fun h => nomatch h) t
    rw [enclosed_concat] at whole
    rw [show segments .top _ = _ from whole] at hu
    exact of_mem_glue run ih u hu
  | @parens commas s t hs _ _ ih =>
    intro u hu
    have group : Nested false ('(' :: (s ++ [')'])) := .parens hs .nil
    have whole := group.segments_append 0 (Int.le_refl 0) (fun h => nomatch h) t
    rw [enclosed_concat] at whole
    rw [show segments .top _ = _ from whole] at hu
    exact of_mem_glue group ih u hu

/-- The pieces of a well nested text are well nested without commas outside quotes and
parentheses. -/
theorem of_mem_pieces (h : Nested commas t) : ∀ p ∈ pieces t, Nested false p := by
  intro p hp
  unfold pieces at hp
  split at hp
  · cases hp
  · obtain ⟨s, hs, rfl⟩ := List.mem_map.1 hp
    exact (h.of_mem_segments s hs).trim

end Nested

/-- A text of one piece is that piece. -/
theorem tight_of_pieces_eq_singleton {t p : Text} (h : pieces t = [p]) : Tight p := by
  unfold pieces at h
  split at h
  · cases h
  · rename_i hblank
    obtain ⟨s, hs, rfl⟩ := List.map_eq_singleton_iff.1 h
    have same := joinWith_segments .top t
    rw [hs] at same
    rw [show s = t from same]
    exact Text.tight_trim fun blanks => hblank (Text.isBlankText_iff.2 blanks)

end Formula

end DashCalc
