import DashCalc.Formula.Call
import DashCalc.Proofs.Formula.Nesting
import Mathlib.Data.List.Forall2
import Mathlib.Data.List.Induction

/-!
# Where a text is cut

A text is level at its end if all its quoted runs are closed and, outside of these, as many brackets
are opened as closed (`IsLevel`); brackets may well be closed before they are opened. The pieces of
a text are its trimmed segments between the commas in front of which it is level, and pieces joined
again are cut into the same pieces (`pieces_cut`).

The scan is at the top exactly where the text is level (`isLevel_iff`). So every segment but the last
leads from the top back to the top, and no comma inside a segment is met at the top (`Segmented`).
This is all that cutting depends on (`Segmented.segments_joinWith`), and blanks have no influence
on it, so trimmed and padded segments are segments again.
-/

namespace DashCalc

namespace Text

theorem joinWith_cons {s : Text} (t : Text) {ts : List Text} (h : ts ≠ []) :
    joinWith s (t :: ts) = t ++ (s ++ joinWith s ts) := by
  obtain ⟨u, us, rfl⟩ := List.exists_cons_of_ne_nil h
  simp [joinWith]

end Text

namespace Formula

open Text (Blanks Tight isBlank)

/-! ## Levels -/

/-- Whether the quoted runs of a text are closed; the second text is what stands outside them. -/
inductive Outside : Text → Text → Prop
  | nil : Outside [] []
  | char {t kept : Text} {c : Char} (noQuote : Nesting.isQuote c = false) :
      Outside t kept → Outside (t ++ [c]) (kept ++ [c])
  | quoted {t kept run : Text} {q : Char} (quote : Nesting.isQuote q = true)
      (inside : ∀ c ∈ run, c ≠ q) : Outside t kept → Outside (t ++ q :: (run ++ [q])) kept

def isOpening (c : Char) : Bool := c = '(' || c = '['

def isClosing (c : Char) : Bool := c = ')' || c = ']'

/-- Whether the quoted runs of a text are closed, with as many brackets opened as closed outside of
these. -/
def IsLevel (t : Text) : Prop :=
  ∃ kept, Outside t kept ∧ kept.countP isOpening = kept.countP isClosing

theorem after_of_noQuote {c : Char} (noQuote : Nesting.isQuote c = false) (d : Int) :
    (Nesting.mk none d).after c =
      ⟨none, d + (if isOpening c then 1 else 0) - if isClosing c then 1 else 0⟩ := by
  simp only [Nesting.after, noQuote, Bool.false_eq_true, if_false, isOpening, isClosing,
    Bool.or_eq_true, decide_eq_true_eq]
  by_cases opens : c = '(' ∨ c = '['
  · have : ¬ (c = ')' ∨ c = ']') := by
      rcases opens with rfl | rfl <;> decide
    simp [opens, this]
  · simp only [opens, if_false]
    split <;> simp

/-- Outside quotes, the depth is the number of brackets opened less the number of those closed. -/
theorem Outside.foldl_after {t kept : Text} (h : Outside t kept) :
    t.foldl Nesting.after .top = ⟨none, kept.countP isOpening - kept.countP isClosing⟩ := by
  induction h with
  | nil => rfl
  | @char t kept c noQuote _ ih =>
    rw [List.foldl_append, ih, List.foldl_cons, List.foldl_nil, after_of_noQuote noQuote,
      List.countP_append, List.countP_append, List.countP_singleton, List.countP_singleton]
    congr 1
    split <;> split <;> omega
  | quoted quote inside _ ih => rw [List.foldl_append, ih, foldl_after_quoted quote inside]

/-- The quoted runs of a text are closed, or the last one is not. -/
theorem outside_or_opened (t : Text) : (∃ kept, Outside t kept) ∨
    ∃ s kept q run, Outside s kept ∧ Nesting.isQuote q = true ∧ (∀ c ∈ run, c ≠ q) ∧
      t = s ++ q :: run := by
  induction t using List.reverseRecOn with
  | nil => exact .inl ⟨[], .nil⟩
  | append_singleton t c ih =>
    rcases ih with ⟨kept, h⟩ | ⟨s, kept, q, run, h, quote, inside, rfl⟩
    · cases hc : Nesting.isQuote c with
      | true => exact .inr ⟨t, kept, c, [], h, hc, by simp, rfl⟩
      | false => exact .inl ⟨kept ++ [c], .char hc h⟩
    · by_cases closes : c = q
      · subst closes
        refine .inl ⟨kept, ?_⟩
        simpa using Outside.quoted quote inside h
      · refine .inr ⟨s, kept, q, run ++ [c], h, quote, ?_, by simp⟩
        simpa [or_imp, forall_and] using ⟨inside, closes⟩

theorem exists_outside {t : Text} (h : (t.foldl Nesting.after .top).quote = none) :
    ∃ kept, Outside t kept := by
  rcases outside_or_opened t with closed | ⟨s, kept, q, run, hs, quote, inside, rfl⟩
  · exact closed
  · rw [List.foldl_append, hs.foldl_after, foldl_after_opened quote inside] at h
    cases h

/-- A text is level where the scan is outside quotes and brackets. -/
theorem isLevel_iff {t : Text} : IsLevel t ↔ t.foldl Nesting.after .top = .top := by
  constructor
  · rintro ⟨kept, h, same⟩
    rw [h.foldl_after, same, Int.sub_self]
    rfl
  · intro h
    obtain ⟨kept, hkept⟩ := exists_outside (congrArg Nesting.quote h)
    refine ⟨kept, hkept, ?_⟩
    have depth := congrArg Nesting.depth (hkept.foldl_after.symm.trans h)
    simp only [Nesting.top] at depth
    omega

/-! ## Segments -/

section Segments

variable {n : Nesting} {s t u : Text} {c : Char}

theorem eq_top_of_separates (h : n.separates c = true) : n = .top ∧ c = ',' := by
  obtain ⟨quote, depth⟩ := n
  simp only [Nesting.separates, Bool.and_eq_true, Option.isNone_iff_eq_none, beq_iff_eq] at h
  obtain ⟨⟨rfl, rfl⟩, rfl⟩ := h
  exact ⟨rfl, rfl⟩

/-- Whether no comma of a text, scanned from a nesting, is met at the top. -/
def Uncut (n : Nesting) (t : Text) : Prop :=
  ∀ before after, t = before ++ ',' :: after → before.foldl Nesting.after n ≠ .top

theorem Uncut.of_append (h : Uncut n (s ++ t)) : Uncut n s := by
  rintro before after rfl
  exact h before (after ++ t) (by simp)

theorem Uncut.append (hs : Uncut n s) (ht : Uncut (s.foldl Nesting.after n) t) :
    Uncut n (s ++ t) := by
  intro before after heq
  rcases List.append_eq_append_iff.1 heq with ⟨v, rfl, rfl⟩ | ⟨v, rfl, htail⟩
  · rw [List.foldl_append]
    exact ht v after rfl
  · cases v with
    | nil =>
      rw [List.append_nil] at ht
      exact ht [] after htail.symm
    | cons d v =>
      rw [List.cons_append, List.cons.injEq] at htail
      exact hs before v (by rw [htail.1])

theorem uncut_cons : Uncut n (c :: t) ↔ n.separates c = false ∧ Uncut (n.after c) t := by
  constructor
  · refine fun h => ⟨?_, fun before after heq => h (c :: before) after (by simp [heq])⟩
    by_contra separates
    obtain ⟨rfl, rfl⟩ := eq_top_of_separates (Bool.not_eq_false _ ▸ separates)
    exact h [] t rfl rfl
  · rintro ⟨passes, h⟩ (_ | ⟨d, before⟩) after heq
    · rintro rfl
      rw [List.nil_append, List.cons.injEq] at heq
      rw [heq.1] at passes
      cases passes
    · rw [List.cons_append, List.cons.injEq] at heq
      obtain ⟨rfl, rfl⟩ := heq
      exact h before after rfl

/-- Whether texts are the segments of a text that is scanned from a nesting: no comma is met at the
top within any of them, and each but the last one ends there. -/
inductive Segmented : Nesting → List Text → Prop
  | last {n : Nesting} {t : Text} : Uncut n t → Segmented n [t]
  | cut {n : Nesting} {t : Text} {ts : List Text} : Uncut n t → t.foldl Nesting.after n = .top →
      Segmented .top ts → Segmented n (t :: ts)

namespace Segmented

variable {ts us : List Text}

theorem ne_nil (h : Segmented n ts) : ts ≠ [] := by
  cases h <;> exact List.cons_ne_nil _ _

theorem char (passes : n.separates c = false) (h : Segmented (n.after c) ts) :
    Segmented n (glue [c] ts) := by
  cases h with
  | last huncut => exact .last (uncut_cons.2 ⟨passes, huncut⟩)
  | cut huncut ends hrest => exact .cut (uncut_cons.2 ⟨passes, huncut⟩) ends hrest

theorem of_segments (n : Nesting) (t : Text) : Segmented n (segments n t) := by
  induction t generalizing n with
  | nil => exact .last fun before after heq => by simp at heq
  | cons c t ih =>
    cases h : n.separates c with
    | true =>
      obtain ⟨rfl, rfl⟩ := eq_top_of_separates h
      rw [segments_cons_of_separates h]
      exact .cut (fun before after heq => by simp at heq) rfl (ih .top)
    | false =>
      rw [segments_cons h]
      exact char h (ih (n.after c))

theorem glue_append (s : Text) (h : ts ≠ []) : glue s (ts ++ us) = glue s ts ++ us := by
  cases ts with
  | nil => exact absurd rfl h
  | cons t ts => rfl

end Segmented

/-- Where the scan is at the top, a comma cuts. -/
theorem segments_append_comma (h : s.foldl Nesting.after n = .top) (t : Text) :
    segments n (s ++ ',' :: t) = segments n s ++ segments .top t := by
  induction s generalizing n with
  | nil =>
    obtain rfl : n = .top := h
    exact segments_cons_of_separates rfl t
  | cons c s ih =>
    rw [List.foldl_cons] at h
    rw [List.cons_append]
    cases hc : n.separates c with
    | true =>
      obtain ⟨rfl, rfl⟩ := eq_top_of_separates hc
      rw [segments_cons_of_separates hc, segments_cons_of_separates hc, List.cons_append]
      exact congrArg _ (ih h)
    | false =>
      rw [segments_cons hc, segments_cons hc, ih h,
        Segmented.glue_append _ (segments_ne_nil _ _)]

theorem Uncut.segments_eq (h : Uncut n t) : segments n t = [t] := by
  induction t generalizing n with
  | nil => rfl
  | cons c t ih =>
    obtain ⟨passes, huncut⟩ := uncut_cons.1 h
    rw [segments_cons passes, ih huncut]
    rfl

namespace Segmented

variable {ts us : List Text}

/-- Segments that are joined are cut into the same segments. -/
theorem segments_joinWith (h : Segmented n ts) : segments n (Text.joinWith [','] ts) = ts := by
  induction h with
  | last huncut => exact huncut.segments_eq
  | cut huncut ends hrest ih =>
    rw [Text.joinWith_cons _ hrest.ne_nil, List.singleton_append, segments_append_comma ends, ih,
      huncut.segments_eq]
    rfl

/-- In front of a comma between segments the scan is at the top. -/
theorem foldl_joinWith (h : Segmented n (ts ++ us)) (hts : ts ≠ []) (hus : us ≠ []) :
    (Text.joinWith [','] ts).foldl Nesting.after n = .top := by
  induction ts generalizing n with
  | nil => exact absurd rfl hts
  | cons t ts ih =>
    rw [List.cons_append] at h
    generalize hall : ts ++ us = all at h
    cases h with
    | last _ => exact absurd (List.append_eq_nil_iff.1 hall).2 hus
    | cut _ ends hrest =>
      by_cases more : ts = []
      · subst more
        exact ends
      · rw [Text.joinWith_cons t more, List.foldl_append, ends, List.foldl_append]
        exact ih (hall ▸ hrest) more

end Segmented

/-! ### Blanks -/

/-- Whether the open quote is a quote. -/
def Nesting.Sound (n : Nesting) : Prop := ∀ q, n.quote = some q → Nesting.isQuote q = true

theorem sound_foldl (h : n.Sound) (t : Text) : (t.foldl Nesting.after n).Sound := by
  induction t generalizing n with
  | nil => exact h
  | cons c t ih =>
    refine ih ?_
    intro q hq
    unfold Nesting.after at hq
    split at hq
    · split at hq
      · cases hq
      · exact h q hq
    · split at hq
      · next quote =>
        cases hq
        exact quote
      · split at hq
        · cases hq
        · split at hq
          · cases hq
          · exact h q hq

theorem sound_top : Nesting.top.Sound := fun _ hq => by cases hq

theorem after_of_isBlank (h : n.Sound) (hc : isBlank c = true) : n.after c = n := by
  obtain ⟨quote | q, d⟩ := n
  · exact Nested.after_of_plain (Nested.isBracket_of_isBlank hc) (Nested.isQuote_of_isBlank hc) d
  · refine if_neg ?_
    rintro rfl
    have quote := h c rfl
    rw [Nested.isQuote_of_isBlank hc] at quote
    cases quote

theorem foldl_after_blanks (h : n.Sound) (hs : Blanks s) : s.foldl Nesting.after n = n := by
  induction s with
  | nil => rfl
  | cons c s ih =>
    rw [List.foldl_cons, after_of_isBlank h (hs c List.mem_cons_self),
      ih fun d hd => hs d (List.mem_cons_of_mem c hd)]

theorem uncut_blanks_append (h : n.Sound) (hs : Blanks s) : Uncut n (s ++ t) ↔ Uncut n t := by
  induction s with
  | nil => exact Iff.rfl
  | cons c s ih =>
    have hc := hs c List.mem_cons_self
    have passes : n.separates c = false := by
      refine Nested.separates_of_ne ?_ n
      rintro rfl
      exact absurd hc (by decide)
    rw [List.cons_append, uncut_cons, after_of_isBlank h hc,
      ih fun d hd => hs d (List.mem_cons_of_mem c hd)]
    simp [passes]

theorem Uncut.trim (h : n.Sound) (ht : Uncut n t) : Uncut n (Text.trim t) := by
  obtain ⟨before, after, hbefore, -, heq⟩ := Text.exists_trim_padded t
  rw [heq, uncut_blanks_append h hbefore] at ht
  exact ht.of_append

theorem foldl_after_trim (h : n.Sound) (t : Text) :
    (Text.trim t).foldl Nesting.after n = t.foldl Nesting.after n := by
  obtain ⟨before, after, hbefore, hafter, heq⟩ := Text.exists_trim_padded t
  conv_rhs => rw [heq]
  rw [List.foldl_append, List.foldl_append, foldl_after_blanks h hbefore,
    foldl_after_blanks (sound_foldl h _) hafter]

namespace Segmented

variable {ts : List Text}

/-- Segments may be changed one by one, as long as no commas come up and they end where they did. -/
theorem map {f : Text → Text} (huncut : ∀ t, Uncut .top t → Uncut .top (f t))
    (ends : ∀ t, (f t).foldl Nesting.after .top = t.foldl Nesting.after .top)
    (h : Segmented .top ts) : Segmented .top (ts.map f) := by
  generalize hn : Nesting.top = n at h
  induction h with
  | last ht => subst hn; exact .last (huncut _ ht)
  | cut ht hends _ ih => subst hn; exact .cut (huncut _ ht) ((ends _).trans hends) (ih rfl)

theorem trim (h : Segmented .top ts) : Segmented .top (ts.map Text.trim) :=
  h.map (fun _ => Uncut.trim sound_top) (foldl_after_trim sound_top)

/-- In front of every segment but the first a blank may be put. -/
theorem padded (h : Segmented .top (t :: ts)) :
    Segmented .top (t :: ts.map (' ' :: ·)) := by
  have blank : Blanks [' '] := by
    intro c hc
    rw [List.mem_singleton.1 hc]
    decide
  cases h with
  | last ht => exact .last ht
  | cut ht ends hrest =>
    refine .cut ht ends (hrest.map (fun u hu => ?_) fun u => ?_)
    · exact (uncut_blanks_append sound_top blank).2 hu
    · rw [List.foldl_cons, after_of_isBlank sound_top (blank ' ' List.mem_cons_self)]

end Segmented

end Segments

/-! ## Pieces -/

theorem joinWith_commaBlank (t : Text) (ts : List Text) :
    Text.joinWith commaBlank (t :: ts) = Text.joinWith [','] (t :: ts.map (' ' :: ·)) := by
  induction ts generalizing t with
  | nil => rfl
  | cons u ts ih =>
    rw [Text.joinWith_cons _ (by simp), ih, List.map_cons, Text.joinWith_cons t (by simp)]
    cases ts with
    | nil => rfl
    | cons v ts =>
      rw [List.map_cons, Text.joinWith_cons u (by simp), Text.joinWith_cons (' ' :: u) (by simp)]
      rfl

/-- Trimmed segments that are joined are the pieces, unless there is only an empty one. -/
theorem pieces_joinWith {ts : List Text} (h : Segmented .top ts)
    (trimmed : ∀ t ∈ ts, Text.trim t = t) (nonempty : ts ≠ [[]]) :
    pieces (Text.joinWith commaBlank ts) = ts := by
  obtain ⟨t, rest, rfl⟩ := List.exists_cons_of_ne_nil h.ne_nil
  obtain ⟨htrim, hrest⟩ := List.forall_mem_cons.1 trimmed
  have visible : ¬ Blanks (Text.joinWith commaBlank (t :: rest)) := by
    intro blanks
    cases rest with
    | nil =>
      have empty : Text.trim t = [] := Text.trim_of_blanks blanks
      rw [htrim] at empty
      exact nonempty (by rw [empty])
    | cons u us =>
      have comma := blanks ',' (by simp [Text.joinWith, commaBlank])
      exact absurd comma (by decide)
  have padding : ∀ u ∈ rest, Text.trim (' ' :: u) = u := by
    intro u hu
    have blank : Blanks [' '] := Text.isBlankText_iff.1 (by decide)
    exact (Text.trim_blanks_append blank u).trans (hrest u hu)
  unfold pieces
  rw [if_neg (by rwa [Text.isBlankText_iff]), joinWith_commaBlank, h.padded.segments_joinWith,
    List.map_cons, htrim, List.map_map]
  exact congrArg _ ((List.map_congr_left padding).trans (List.map_id rest))

/-- Whether texts are the segments of a text between the commas in front of which it is level. -/
structure Segmentation (t : Text) (segments : List Text) : Prop where
  joined : Text.joinWith [','] segments = t
  cut : ∀ before after, t = before ++ ',' :: after → (IsLevel before ↔
    ∃ left right, left ≠ [] ∧ right ≠ [] ∧ segments = left ++ right ∧
      before = Text.joinWith [','] left ∧ after = Text.joinWith [','] right)

theorem segmentation_segments (t : Text) : Segmentation t (segments .top t) where
  joined := joinWith_segments .top t
  cut before after heq := by
    constructor
    · intro level
      refine ⟨segments .top before, segments .top after, segments_ne_nil _ _,
        segments_ne_nil _ _, ?_, (joinWith_segments _ _).symm, (joinWith_segments _ _).symm⟩
      rw [heq]
      exact segments_append_comma (isLevel_iff.1 level) after
    · rintro ⟨left, right, hleft, hright, hsplit, rfl, -⟩
      have all := Segmented.of_segments .top t
      rw [hsplit] at all
      exact isLevel_iff.2 (all.foldl_joinWith hleft hright)

/-- Whether the second text is the trim of the first one, which has nothing but blanks around it. -/
def TrimsTo (s p : Text) : Prop :=
  p = Text.trim s ∧ ∃ before after, Blanks before ∧ Blanks after ∧ s = before ++ (p ++ after)

theorem forall₂_trimsTo (segments : List Text) :
    List.Forall₂ TrimsTo segments (segments.map Text.trim) := by
  rw [List.forall₂_map_right_iff, List.forall₂_same]
  exact fun s _ => ⟨rfl, Text.exists_trim_padded s⟩

/-- **A text is cut at its level commas, and cutting is stable.** A blank text has no pieces. The
pieces of any other text are its segments between the commas in front of which it is level, with
nothing lost but the blanks around them. The pieces of a text joined with commas are cut into the
same pieces. -/
theorem pieces_cut (t : Text) :
    (Blanks t ∧ pieces t = [] ∨ ¬ Blanks t ∧ ∃ segments,
      Segmentation t segments ∧ List.Forall₂ TrimsTo segments (pieces t)) ∧
    pieces (Text.joinWith commaBlank (pieces t)) = pieces t := by
  by_cases blank : Blanks t
  · have none := pieces_of_isBlankText (Text.isBlankText_iff.2 blank)
    refine ⟨.inl ⟨blank, none⟩, ?_⟩
    rw [none]
    rfl
  · have cut : pieces t = (segments .top t).map Text.trim :=
      if_neg (by rwa [Text.isBlankText_iff])
    rw [cut]
    refine ⟨.inr ⟨blank, _, segmentation_segments t, forall₂_trimsTo _⟩, ?_⟩
    refine pieces_joinWith (Segmented.of_segments .top t).trim ?_ fun single => ?_
    · intro p hp
      obtain ⟨s, -, rfl⟩ := List.mem_map.1 hp
      exact Text.trim_trim s
    · -- a single segment is the whole text, which is not blank
      obtain ⟨s, hs, empty⟩ := List.map_eq_singleton_iff.1 single
      have whole := joinWith_segments .top t
      rw [hs] at whole
      obtain rfl : s = t := whole
      exact (Text.tight_trim blank).nonempty empty

/-- A comma between brackets that are closed before they are opened cuts where as many are opened
as closed again; an open quote hides the last comma. -/
example : pieces "a ] , b [ , 'c, d ".toList = ["a ] , b [".toList, "'c, d".toList] := by
  decide +kernel

end Formula

end DashCalc
