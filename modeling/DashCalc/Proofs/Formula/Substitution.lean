import DashCalc.Proofs.Formula.Words
import Mathlib.Data.List.Chain

/-!
# Texts without calls

A formula is plain text, references to fields and references to parameters, one after the other
(`Segment`). Where nothing in it reads as a call once the references are quoted names, its SQL is
the formula with each reference replaced by its quoted name, and no other character changed
(`toSql_segments`).

Parameters are quoted before fields, each in a pass over the whole text, and lines are joined after
that. No pass meets anything but its own references: a dollar sign in a name stands before another
character of the name or the closing brace, never before an opening one, and quoted names have no
braces.
-/

namespace DashCalc

/-- Trimming leaves out characters and makes no new ones. -/
theorem Text.sublist_trim (t : Text) : (Text.trim t).Sublist t := by
  have start : (Text.trimStart t).Sublist t := List.dropWhile_sublist _
  have stop : (Text.trimEnd (Text.trimStart t)).Sublist (Text.trimStart t) := by
    have reversed := (List.dropWhile_sublist Text.isBlank (l := (Text.trimStart t).reverse)).reverse
    rwa [List.reverse_reverse] at reversed
  exact stop.trans start

namespace Formula

/-! ## Segments -/

/-- A text without certain characters. -/
structure ClearText (marks : List Char) where
  text : Text
  clear : ∀ c ∈ text, c ∉ marks

/-- A text that has been looked through for the characters. -/
def ClearText.ofString {marks : List Char} (text : String)
    (h : (text.toList.all fun c => !marks.contains c) = true) : ClearText marks :=
  ⟨text.toList, by simpa using h⟩

/-- The characters that no name in braces has. -/
def nameMarks : List Char := [openBrace, closeBrace, '\\', '\r', '\n']

/-- A part of a formula without calls. -/
inductive Segment
  | plain (text : ClearText ('$' :: nameMarks))
  | field (name : ClearText nameMarks)
  | parameter (name : ClearText nameMarks)

namespace Segment

/-- The segment as it is written. -/
def formula : Segment → Text
  | plain t => t.text
  | field name => openBrace :: (name.text ++ [closeBrace])
  | parameter name => '$' :: openBrace :: (name.text ++ [closeBrace])

/-- The segment in SQL: a reference is its name between backticks, without surrounding blanks. -/
def sql : Segment → Text
  | plain t => t.text
  | field name | parameter name => backtick :: (Text.trim name.text ++ [backtick])

/-- The segment once parameters are quoted. -/
def withoutParameters : Segment → Text
  | parameter name => quoteName name.text
  | s => s.formula

end Segment

/-! ## References -/

section References

variable {marks : List Char} {name : Text}

theorem closeReference_append (h : ∀ c ∈ name, c ≠ closeBrace) (rest : Text) :
    closeReference (name ++ closeBrace :: rest) = some (name, rest) := by
  induction name with
  | nil => rfl
  | cons c cs ih =>
    obtain ⟨hc, hcs⟩ := List.forall_mem_cons.1 h
    rw [List.cons_append, closeReference, if_neg hc, ih hcs]
    rfl

/-- Quoting parameters passes over a character, if it does not begin a reference together with the
next one. -/
theorem quoteParameters_cons {c : Char} {t : Text}
    (h : c = '$' → ∀ d ∈ t.head?, d ≠ openBrace) :
    quoteParameters (c :: t) = c :: quoteParameters t := by
  cases t with
  | nil => simp [quoteParameters]
  | cons d cs =>
    rw [quoteParameters, if_neg]
    rintro ⟨hc, hd⟩
    exact h hc d rfl hd

theorem quoteParameters_plain {s : Text} (h : ∀ c ∈ s, c ≠ '$') (t : Text) :
    quoteParameters (s ++ t) = s ++ quoteParameters t := by
  induction s with
  | nil => rfl
  | cons c cs ih =>
    obtain ⟨hc, hcs⟩ := List.forall_mem_cons.1 h
    rw [List.cons_append, quoteParameters_cons fun e => absurd e hc, ih hcs]
    rfl

/-- A dollar sign in a name is followed by another character of the name or the closing brace. -/
theorem quoteParameters_name (h : ∀ c ∈ name, c ≠ openBrace) (t : Text) :
    quoteParameters (name ++ closeBrace :: t) = name ++ closeBrace :: quoteParameters t := by
  induction name with
  | nil => exact quoteParameters_cons fun e => absurd e (by decide)
  | cons c cs ih =>
    obtain ⟨-, hcs⟩ := List.forall_mem_cons.1 h
    rw [List.cons_append, quoteParameters_cons, ih hcs]
    · rfl
    · intro _ d hd
      cases cs with
      | nil =>
        obtain rfl : closeBrace = d := Option.some.inj hd
        decide
      | cons e es =>
        obtain rfl : e = d := Option.some.inj hd
        exact hcs e List.mem_cons_self

theorem quoteParameters_reference (h : ∀ c ∈ name, c ≠ closeBrace) (t : Text) :
    quoteParameters ('$' :: openBrace :: (name ++ closeBrace :: t)) =
      quoteName name ++ quoteParameters t := by
  rw [quoteParameters, if_pos ⟨rfl, rfl⟩]
  split
  · rename_i found
    rw [closeReference_append h] at found
    cases found
    rfl
  · rename_i missing
    rw [closeReference_append h] at missing
    cases missing

theorem quoteFields_plain {s : Text} (h : ∀ c ∈ s, c ≠ openBrace) (t : Text) :
    quoteFields (s ++ t) = s ++ quoteFields t := by
  induction s with
  | nil => rfl
  | cons c cs ih =>
    obtain ⟨hc, hcs⟩ := List.forall_mem_cons.1 h
    rw [List.cons_append, quoteFields, if_neg hc, ih hcs]
    rfl

theorem quoteFields_reference (h : ∀ c ∈ name, c ≠ closeBrace) (t : Text) :
    quoteFields (openBrace :: (name ++ closeBrace :: t)) = quoteName name ++ quoteFields t := by
  rw [quoteFields, if_pos rfl]
  split
  · rename_i found
    rw [closeReference_append h] at found
    cases found
    rfl
  · rename_i missing
    rw [closeReference_append h] at missing
    cases missing

/-- A quoted name has the characters of the name and backticks. -/
theorem mem_quoteName {c : Char} (h : c ∈ quoteName name) : c ∈ name ∨ c = backtick := by
  unfold quoteName at h
  rw [List.mem_cons, List.mem_append, List.mem_singleton] at h
  rcases h with rfl | h | rfl
  · exact .inr rfl
  · exact .inl ((Text.sublist_trim name).subset h)
  · exact .inr rfl

theorem ClearText.ne (t : ClearText marks) {m : Char} (hm : m ∈ marks) : ∀ c ∈ t.text, c ≠ m := by
  rintro c hc rfl
  exact t.clear c hc hm

end References

/-! ## The passes -/

theorem quoteParameters_segments (segments : List Segment) :
    quoteParameters (segments.flatMap Segment.formula) =
      segments.flatMap Segment.withoutParameters := by
  induction segments with
  | nil => simp [quoteParameters]
  | cons s rest ih =>
    rw [List.flatMap_cons, List.flatMap_cons, ← ih]
    cases s with
    | plain t => exact quoteParameters_plain (t.ne (by decide)) _
    | field name =>
      have opening : quoteParameters (openBrace :: (name.text ++ closeBrace ::
          rest.flatMap Segment.formula)) = openBrace :: quoteParameters (name.text ++
            closeBrace :: rest.flatMap Segment.formula) :=
        quoteParameters_cons fun e => absurd e (by decide)
      rw [quoteParameters_name (name.ne (by decide))] at opening
      simpa [Segment.formula, Segment.withoutParameters] using opening
    | parameter name =>
      have quoted := quoteParameters_reference (name.ne (by decide))
        (rest.flatMap Segment.formula)
      simpa [Segment.formula, Segment.withoutParameters] using quoted

theorem quoteFields_segments (segments : List Segment) :
    quoteFields (segments.flatMap Segment.withoutParameters) = segments.flatMap Segment.sql := by
  induction segments with
  | nil => simp [quoteFields]
  | cons s rest ih =>
    rw [List.flatMap_cons, List.flatMap_cons, ← ih]
    cases s with
    | plain t => exact quoteFields_plain (t.ne (by decide)) _
    | field name =>
      have quoted := quoteFields_reference (name.ne (by decide))
        (rest.flatMap Segment.withoutParameters)
      simpa [Segment.formula, Segment.withoutParameters, Segment.sql, quoteName] using quoted
    | parameter name =>
      refine quoteFields_plain (fun c hc => ?_) _
      rcases mem_quoteName hc with hc | rfl
      · exact name.ne (by decide) c hc
      · decide

/-- The SQL of segments is on one line. -/
theorem clear_segments (segments : List Segment) : ∀ c ∈ segments.flatMap Segment.sql,
    c ≠ '\\' ∧ c ≠ '\r' ∧ c ≠ '\n' := by
  have clear {marks : List Char} (t : ClearText marks) (h : ['\\', '\r', '\n'] ⊆ marks) :
      ∀ c ∈ t.text, c ≠ '\\' ∧ c ≠ '\r' ∧ c ≠ '\n' := fun c hc =>
    ⟨t.ne (h (by decide)) c hc, t.ne (h (by decide)) c hc, t.ne (h (by decide)) c hc⟩
  have quoted (name : ClearText nameMarks) : ∀ c ∈ quoteName name.text,
      c ≠ '\\' ∧ c ≠ '\r' ∧ c ≠ '\n' := by
    intro c hc
    rcases mem_quoteName hc with hc | rfl
    · exact clear name (by decide) c hc
    · decide
  intro c hc
  obtain ⟨s, -, hc⟩ := List.mem_flatMap.1 hc
  cases s with
  | plain t => exact clear t (by decide) c hc
  | field name => exact quoted name c hc
  | parameter name => exact quoted name c hc

theorem dropEscapedNewlines_eq_self {t : Text} (h : ∀ c ∈ t, c ≠ '\\') :
    dropEscapedNewlines t = t := by
  fun_induction dropEscapedNewlines t with
  | case1 => rfl
  | case2 => rfl
  | case3 c d cs escape _ => exact absurd escape.1 (h c List.mem_cons_self)
  | case4 c d cs _ ih => rw [ih fun e he => h e (List.mem_cons_of_mem c he)]

theorem dropNewlines_eq_self {t : Text} (h : ∀ c ∈ t, c ≠ '\\' ∧ c ≠ '\r' ∧ c ≠ '\n') :
    dropNewlines t = t := by
  unfold dropNewlines
  rw [dropEscapedNewlines_eq_self fun c hc => (h c hc).1, List.filter_eq_self]
  intro c hc
  simp [(h c hc).2]

/-- References are quoted segment by segment. -/
theorem substitute_segments (segments : List Segment) :
    substitute (segments.flatMap Segment.formula) = segments.flatMap Segment.sql := by
  unfold substitute
  rw [quoteParameters_segments, quoteFields_segments,
    dropNewlines_eq_self (clear_segments segments)]

/-! ## Expansion -/

/-- Whether no word character stands directly before an opening parenthesis. -/
def NoCalls (t : Text) : Prop := t.IsChain fun c d => Text.isWordChar c = true → d ≠ '('

instance (t : Text) : Decidable (NoCalls t) :=
  inferInstanceAs (Decidable (t.IsChain fun c d => Text.isWordChar c = true → d ≠ '('))

/-- Expansion leaves a text without calls as it is. -/
theorem expandCalls_eq_self {t : Text} (h : NoCalls t) : expandCalls t = t := by
  cases t with
  | nil => exact expandCalls_nil
  | cons c cs =>
    by_cases hc : Text.isWordChar c = true
    · -- expansion takes a whole word at once, so the induction goes on behind it
      obtain ⟨w, rest, heq, hw, hrest⟩ := exists_word_append hc cs
      rw [heq] at h ⊢
      obtain ⟨-, later, between⟩ := List.isChain_append.1 h
      have apart : Apart rest := by
        intro d hd
        have last := List.getLast?_eq_some_getLast hw.nonempty
        exact ⟨hrest d hd, between _ last d hd (hw.all _ (List.getLast_mem hw.nonempty))⟩
      have shorter : rest.length < (c :: cs).length := by
        rw [heq, List.length_append]
        have := List.length_pos_iff.2 hw.nonempty
        omega
      rw [expandCalls_word hw apart, expandCalls_eq_self later]
    · rw [Bool.not_eq_true] at hc
      have later : NoCalls cs := h.tail
      rw [expandCalls_cons hc, expandCalls_eq_self later]
termination_by t.length

/-- **Texts without calls are translated by substitution alone.** Where the segments of a formula,
references replaced by their names between backticks, have no word character directly before an
opening parenthesis, this is the expression of the statement, character by character. -/
theorem toSql_segments (segments : List Segment)
    (noCalls : NoCalls (segments.flatMap Segment.sql)) :
    toSql (segments.flatMap Segment.formula) =
      "SELECT (".toList ++ segments.flatMap Segment.sql ++ ") AS expr FROM DUAL".toList := by
  unfold toSql wrap
  rw [substitute_segments, expandCalls_eq_self noCalls]

/-- A field whose name ends in a dollar sign, another one, and a parameter, among parentheses. -/
def priceSegments : List Segment :=
  [.plain (.ofString "(" rfl), .field (.ofString " price, US$" rfl),
    .field (.ofString "(net)" rfl), .plain (.ofString " = " rfl),
    .parameter (.ofString "a.b " rfl), .plain (.ofString " * (1))" rfl)]

theorem toSql_segments_price :
    NoCalls (priceSegments.flatMap Segment.sql) ∧
      String.ofList (priceSegments.flatMap Segment.formula) =
        "(\x7b price, US$\x7d\x7b(net)\x7d = $\x7ba.b \x7d * (1))" ∧
      String.ofList (toSql (priceSegments.flatMap Segment.formula)) =
        "SELECT ((\x60price, US$\x60\x60(net)\x60 = \x60a.b\x60 * (1))) AS expr FROM DUAL" := by
  have noCalls : NoCalls (priceSegments.flatMap Segment.sql) := by decide
  refine ⟨noCalls, by decide, ?_⟩
  rw [toSql_segments priceSegments noCalls]
  decide

end Formula

end DashCalc
