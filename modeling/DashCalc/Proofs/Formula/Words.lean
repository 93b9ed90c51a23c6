import DashCalc.Formula.Expansion
import DashCalc.Proofs.Formula.Nesting

/-!
# Expansion goes word by word

A well nested text is a sequence of words, calls, groups in parentheses, quoted runs and marks
(`Parts`), and expansion goes along it: it changes calls alone. So the expansion of a text does not
depend on what comes after it, if that cannot be read as more of its last word or as a call of it
(`Nested.expandCalls_append`).
-/

namespace DashCalc.Formula

open Text (isBlank isWordChar)

/-! ## Word characters -/

theorem isWordChar_false_of_isBracket {c : Char} (h : isBracket c = true) :
    isWordChar c = false := by
  simp only [isBracket, Bool.or_eq_true, decide_eq_true_eq] at h
  rcases h with ((rfl | rfl) | rfl) | rfl <;> decide

theorem isWordChar_false_of_isQuote {c : Char} (h : Nesting.isQuote c = true) :
    isWordChar c = false := by
  simp only [Nesting.isQuote, Bool.or_eq_true, decide_eq_true_eq] at h
  rcases h with (rfl | rfl) | rfl <;> decide

/-- The code points of all blanks. -/
def blankCodes : List Nat :=
  [0x9, 0xA, 0xB, 0xC, 0xD, 0x20, 0x85, 0xA0, 0x1680, 0x2000, 0x2001, 0x2002, 0x2003, 0x2004,
    0x2005, 0x2006, 0x2007, 0x2008, 0x2009, 0x200A, 0x2028, 0x2029, 0x202F, 0x205F, 0x3000]

theorem isWordChar_false_of_isBlank {c : Char} (h : isBlank c = true) : isWordChar c = false := by
  have table : ∀ code ∈ blankCodes, isWordChar (Char.ofNat code) = false := by decide +kernel
  have mem : c.toNat ∈ blankCodes := by
    simp only [isBlank, Bool.or_eq_true, Bool.and_eq_true, decide_eq_true_eq, beq_iff_eq] at h
    simp only [blankCodes, List.mem_cons, List.not_mem_nil, or_false]
    omega
  rw [← Char.ofNat_toNat c]
  exact table c.toNat mem

/-- A word is a run of word characters. -/
structure Word (w : Text) : Prop where
  nonempty : w ≠ []
  all : ∀ c ∈ w, isWordChar c = true

/-- Whether a text can stand after a word without changing how it is read. -/
def Apart (t : Text) : Prop := ∀ c ∈ t.head?, isWordChar c = false ∧ c ≠ '('

theorem apart_nil : Apart [] := fun _ h => nomatch h

theorem apart_cons {c : Char} (h : isWordChar c = false) (paren : c ≠ '(') (t : Text) :
    Apart (c :: t) := by
  intro d hd
  cases hd
  exact ⟨h, paren⟩

theorem Apart.append {t u : Text} (ht : Apart t) (hu : Apart u) : Apart (t ++ u) := by
  cases t with
  | nil => exact hu
  | cons c cs => exact ht

/-! ## One step of expansion -/

theorem expandCalls_cons {c : Char} (h : isWordChar c = false) (t : Text) :
    expandCalls (c :: t) = c :: expandCalls t := by
  rw [expandCalls, if_neg (Bool.eq_false_iff.1 h)]

theorem leadingWord_append {w t : Text} (hw : ∀ c ∈ w, isWordChar c = true)
    (ht : ∀ c ∈ t.head?, isWordChar c = false) :
    leadingWord (w ++ t) = w ∧ afterWord (w ++ t) = t := by
  have stop : t.takeWhile isWordChar = [] ∧ t.dropWhile isWordChar = t := by
    cases t with
    | nil => exact ⟨rfl, rfl⟩
    | cons c cs =>
      have hc : ¬ isWordChar c = true := by
        rw [ht c rfl]
        exact Bool.false_ne_true
      exact ⟨List.takeWhile_cons_of_neg hc, List.dropWhile_cons_of_neg hc⟩
  unfold leadingWord afterWord
  rw [List.takeWhile_append_of_pos hw, List.dropWhile_append_of_pos hw, stop.1, stop.2,
    List.append_nil]
  exact ⟨rfl, rfl⟩

variable {w : Text}

/-- The scan stops after a word. -/
theorem Word.scan (hw : Word w) {t : Text} (ht : ∀ c ∈ t.head?, isWordChar c = false) :
    ∃ c cs, w = c :: cs ∧ isWordChar c = true ∧ leadingWord (cs ++ t) = cs ∧
      afterWord (cs ++ t) = t := by
  obtain ⟨c, cs, rfl⟩ := List.exists_cons_of_ne_nil hw.nonempty
  have rest : ∀ d ∈ cs, isWordChar d = true := fun d hd => hw.all d (List.mem_cons_of_mem c hd)
  exact ⟨c, cs, rfl, hw.all c List.mem_cons_self, leadingWord_append rest ht⟩

theorem expandCalls_word (hw : Word w) {t : Text} (ht : Apart t) :
    expandCalls (w ++ t) = w ++ expandCalls t := by
  obtain ⟨c, cs, rfl, hc, hlead, hafter⟩ := hw.scan fun d hd => (ht d hd).1
  rw [List.cons_append, expandCalls, if_pos hc]
  dsimp only
  rw [hlead]
  split
  · rename_i inside heq
    rw [hafter] at heq
    rw [heq] at ht
    exact absurd rfl (ht '(' rfl).2
  · rw [hafter]

theorem expandCalls_call (hw : Word w) {t arguments rest : Text}
    (h : callBody false t = some (arguments, rest)) :
    expandCalls (w ++ '(' :: t) =
      renderCall w (pieces (expandCalls arguments)) ++ expandCalls rest := by
  obtain ⟨c, cs, rfl, hc, hlead, hafter⟩ := hw.scan (t := '(' :: t) fun d hd => by
    cases hd
    decide
  rw [List.cons_append, expandCalls, if_pos hc]
  dsimp only
  rw [hlead]
  split
  · rename_i inside heq
    rw [hafter, List.cons.injEq] at heq
    obtain ⟨-, rfl⟩ := heq
    split
    · rename_i found
      rw [h] at found
      cases found
      rfl
    · rename_i missing
      rw [h] at missing
      cases missing
  · rename_i other
    exact absurd hafter (other t)

theorem expandCalls_opened (hw : Word w) {t : Text} (h : callBody false t = none) :
    expandCalls (w ++ '(' :: t) = w ++ '(' :: expandCalls t := by
  obtain ⟨c, cs, rfl, hc, hlead, hafter⟩ := hw.scan (t := '(' :: t) fun d hd => by
    cases hd
    decide
  rw [List.cons_append, expandCalls, if_pos hc]
  dsimp only
  rw [hlead]
  split
  · rename_i inside heq
    rw [hafter, List.cons.injEq] at heq
    obtain ⟨-, rfl⟩ := heq
    split
    · rename_i found
      rw [h] at found
      cases found
    · rfl
  · rename_i other
    exact absurd hafter (other t)

/-! ## Bodies of calls -/

/-- Whether looking for the end of a call passes over a text. -/
def PassesBody (inner : Bool) (s : Text) (inner' : Bool) : Prop :=
  ∀ t, callBody inner (s ++ t) =
    (callBody inner' t).map fun (arguments, rest) => (s ++ arguments, rest)

/-- Whether looking for the end of a call gives up in a text. -/
def StopsBody (inner : Bool) (s : Text) : Prop := ∀ t, callBody inner (s ++ t) = none

variable {inner inner' inner'' : Bool} {s t u : Text}

theorem PassesBody.nil (inner : Bool) : PassesBody inner [] inner := by
  intro t
  show callBody inner t = (callBody inner t).map _
  cases callBody inner t <;> rfl

theorem PassesBody.append (hs : PassesBody inner s inner') (ht : PassesBody inner' t inner'') :
    PassesBody inner (s ++ t) inner'' := by
  intro u
  rw [List.append_assoc, hs, ht, Option.map_map]
  refine congrArg (Option.map · _) (funext fun found => ?_)
  show (s ++ (t ++ found.1), found.2) = _
  rw [← List.append_assoc]

theorem PassesBody.stops (hs : PassesBody inner s inner') (ht : StopsBody inner' t) :
    StopsBody inner (s ++ t) := by
  intro u
  rw [List.append_assoc, hs, ht]
  rfl

theorem StopsBody.append (h : StopsBody inner s) (t : Text) : StopsBody inner (s ++ t) := by
  intro u
  rw [List.append_assoc]
  exact h (t ++ u)

theorem passesBody_of_forall (h : ∀ c ∈ s, c ≠ '(' ∧ c ≠ ')') : PassesBody inner s inner := by
  induction s with
  | nil => exact .nil inner
  | cons c cs ih =>
    obtain ⟨hopen, hclose⟩ := h c List.mem_cons_self
    have one : PassesBody inner [c] inner := by
      intro t
      simp only [List.singleton_append, callBody, hopen, hclose, decide_false, Bool.false_and,
        Bool.false_eq_true, if_false]
    exact one.append (ih fun d hd => h d (List.mem_cons_of_mem c hd))

theorem isBracket_of_isQuote {q : Char} (h : Nesting.isQuote q = true) : isBracket q = false := by
  simp only [Nesting.isQuote, Bool.or_eq_true, decide_eq_true_eq] at h
  rcases h with (rfl | rfl) | rfl <;> decide

theorem ne_paren_of_isBracket {c : Char} (h : isBracket c = false) : c ≠ '(' ∧ c ≠ ')' := by
  constructor
  · rintro rfl
    cases h
  · rintro rfl
    cases h

/-- Looking for the end of a call passes over a well nested text or gives up in it. -/
theorem Nested.passes_or_stops {commas : Bool} (h : Nested commas s) (inner : Bool) :
    PassesBody inner s inner ∨ StopsBody inner s := by
  induction h generalizing inner with
  | nil => exact .inl (.nil inner)
  | @char commas c t noBracket _ _ _ ih =>
    have one : PassesBody inner [c] inner := passesBody_of_forall fun d hd => by
      rw [List.mem_singleton.1 hd]
      exact ne_paren_of_isBracket noBracket
    exact (ih inner).imp one.append one.stops
  | @quoted commas q s t quote closed _ ih =>
    have run : PassesBody inner (q :: (s ++ [q])) inner := passesBody_of_forall fun c hc => by
      rw [List.mem_cons, List.mem_append, List.mem_singleton] at hc
      rcases hc with rfl | hc | rfl
      · exact ne_paren_of_isBracket (isBracket_of_isQuote quote)
      · exact ne_paren_of_isBracket (closed c hc).2
      · exact ne_paren_of_isBracket (isBracket_of_isQuote quote)
    rw [← enclosed_concat]
    exact (ih inner).imp run.append run.stops
  | @parens commas s t hs _ ihs iht =>
    cases inner with
    | true => exact .inr fun _ => rfl -- calls are found one level deep only
    | false =>
      have opens : PassesBody false ['('] true := fun _ => rfl
      have closes : PassesBody true [')'] false := fun _ => rfl
      have whole : '(' :: (s ++ ')' :: t) = ['('] ++ (s ++ ([')'] ++ t)) := rfl
      rw [whole]
      rcases ihs true with passes | stops
      · exact (iht false).imp (fun h => opens.append (passes.append (closes.append h)))
          fun h => opens.stops (passes.stops (closes.stops h))
      · exact .inr (opens.stops (stops.append _))

/-- Where a well nested text stands in parentheses, it is the body of a call or none is found,
whatever comes after. -/
theorem Nested.callBody_cases {commas : Bool} (h : Nested commas s) :
    (∀ t, callBody false (s ++ ')' :: t) = some (s, t)) ∨
      ∀ t, callBody false (s ++ ')' :: t) = none := by
  rcases h.passes_or_stops false with passes | stops
  · refine .inl fun t => ?_
    have closes : callBody false (')' :: t) = some ([], t) := rfl
    rw [passes, closes, Option.map_some]
    show some (s ++ [], t) = _
    rw [List.append_nil]
  · exact .inr fun t => stops (')' :: t)

/-! ## Parts of a text -/

/-- A well nested text as a sequence of parts: words, calls, groups in parentheses, quoted runs,
and other characters. -/
inductive Parts : Bool → Text → Prop
  | nil {commas : Bool} : Parts commas []
  | mark {commas : Bool} {c : Char} {t : Text} (noWord : isWordChar c = false)
      (noBracket : isBracket c = false) (noQuote : Nesting.isQuote c = false)
      (comma : c = ',' → commas = true) : Parts commas t → Parts commas (c :: t)
  | quoted {commas : Bool} {q : Char} {s t : Text} (quote : Nesting.isQuote q = true)
      (closed : ∀ c ∈ s, c ≠ q ∧ isBracket c = false) :
      Parts commas t → Parts commas (q :: (s ++ q :: t))
  | group {commas : Bool} {s t : Text} :
      Parts true s → Parts commas t → Parts commas ('(' :: (s ++ ')' :: t))
  | word {commas : Bool} {w t : Text} (word : Word w) (apart : Apart t) :
      Parts commas t → Parts commas (w ++ t)
  | call {commas : Bool} {w s t : Text} (word : Word w) :
      Parts true s → Parts commas t → Parts commas (w ++ '(' :: (s ++ ')' :: t))

theorem Word.single {c : Char} (h : isWordChar c = true) : Word [c] :=
  ⟨List.cons_ne_nil c [], fun d hd => by rwa [List.mem_singleton.1 hd]⟩

theorem Word.cons {c : Char} (h : isWordChar c = true) (hw : Word w) : Word (c :: w) := by
  refine ⟨List.cons_ne_nil c w, fun d hd => ?_⟩
  rcases List.mem_cons.1 hd with rfl | hd
  · exact h
  · exact hw.all d hd

theorem Nested.parts {commas : Bool} (h : Nested commas t) : Parts commas t := by
  induction h with
  | nil => exact .nil
  | @char commas c t noBracket noQuote comma _ ih =>
    by_cases hc : isWordChar c = true
    · -- the character starts a word or belongs to the one that follows
      cases ih with
      | nil => exact .word (Word.single hc) apart_nil .nil
      | mark noWord noBracket noQuote comma rest =>
        exact .word (Word.single hc) (apart_cons noWord (ne_paren_of_isBracket noBracket).1 _)
          (.mark noWord noBracket noQuote comma rest)
      | quoted quote closed rest =>
        have noParen := ne_paren_of_isBracket (isBracket_of_isQuote quote)
        exact .word (Word.single hc) (apart_cons (isWordChar_false_of_isQuote quote) noParen.1 _)
          (.quoted quote closed rest)
      | group body rest => exact .call (Word.single hc) body rest
      | word hw apart rest => exact .word (hw.cons hc) apart rest
      | call hw body rest => exact .call (hw.cons hc) body rest
    · rw [Bool.not_eq_true] at hc
      exact .mark hc noBracket noQuote comma ih
  | quoted quote closed _ ih => exact .quoted quote closed ih
  | parens _ _ ihs iht => exact .group ihs iht

theorem isPlain_of_isWordChar {c : Char} (h : isWordChar c = true) : isPlain c = true := by
  refine isPlain_iff.2 ⟨Bool.eq_false_iff.2 fun hb => ?_, Bool.eq_false_iff.2 fun hq => ?_, ?_⟩
  · rw [isWordChar_false_of_isBracket hb] at h
    cases h
  · rw [isWordChar_false_of_isQuote hq] at h
    cases h
  · rintro rfl
    exact absurd h (by decide)

theorem Word.nested {commas : Bool} (hw : Word w) : Nested commas w :=
  .of_all (List.all_eq_true.2 fun c hc => isPlain_of_isWordChar (hw.all c hc))

theorem Parts.nested {commas : Bool} (h : Parts commas t) : Nested commas t := by
  induction h with
  | nil => exact .nil
  | mark _ noBracket noQuote comma _ ih => exact .char noBracket noQuote comma ih
  | quoted quote closed _ ih => exact .quoted quote closed ih
  | group _ _ ihs iht => exact .parens ihs iht
  | word hw _ _ ih => exact hw.nested.append ih
  | call hw _ _ ihs iht => exact hw.nested.append (.parens ihs iht)

/-! ## Expansion along the parts -/

theorem exists_word_append {c : Char} (h : isWordChar c = true) (t : Text) :
    ∃ w rest, c :: t = w ++ rest ∧ Word w ∧ ∀ d ∈ rest.head?, isWordChar d = false := by
  refine ⟨c :: t.takeWhile isWordChar, t.dropWhile isWordChar, ?_, ?_, fun d hd => ?_⟩
  · rw [List.cons_append, List.takeWhile_append_dropWhile]
  · refine ⟨List.cons_ne_nil _ _, fun d hd => ?_⟩
    rcases List.mem_cons.1 hd with rfl | hd
    · exact h
    · exact List.mem_takeWhile_imp hd
  · have edge := List.head?_dropWhile_not isWordChar t
    rwa [Option.mem_def.1 hd] at edge

/-- A text without parentheses has no calls. -/
theorem expandCalls_of_forall {s : Text} (hs : ∀ c ∈ s, c ≠ '(' ∧ c ≠ ')') (ht : Apart t) :
    expandCalls (s ++ t) = s ++ expandCalls t := by
  cases s with
  | nil => rfl
  | cons c cs =>
    by_cases hc : isWordChar c = true
    · -- expansion takes a whole word at once, so the induction goes on behind it
      obtain ⟨w, rest, heq, hw, hrest⟩ := exists_word_append hc cs
      rw [heq] at hs ⊢
      have shorter : rest.length < (c :: cs).length := by
        rw [heq, List.length_append]
        have := List.length_pos_iff.2 hw.nonempty
        omega
      have apart : Apart rest := fun d hd => ⟨hrest d hd,
        (hs d (List.mem_append_right w (List.mem_of_mem_head? hd))).1⟩
      rw [List.append_assoc, expandCalls_word hw (apart.append ht),
        expandCalls_of_forall (fun d hd => hs d (List.mem_append_right w hd)) ht, List.append_assoc]
    · rw [Bool.not_eq_true] at hc
      rw [List.cons_append, expandCalls_cons hc,
        expandCalls_of_forall (fun d hd => hs d (List.mem_cons_of_mem c hd)) ht]
      rfl
termination_by s.length

theorem expandCalls_nil : expandCalls [] = [] := by rw [expandCalls]

theorem expandCalls_quoted {q : Char} (quote : Nesting.isQuote q = true)
    (closed : ∀ c ∈ s, c ≠ q ∧ isBracket c = false) (t : Text) :
    expandCalls (q :: (s ++ q :: t)) = q :: (s ++ q :: expandCalls t) := by
  have noWord := isWordChar_false_of_isQuote quote
  have noParen := ne_paren_of_isBracket (isBracket_of_isQuote quote)
  rw [expandCalls_cons noWord, expandCalls_of_forall
    (fun c hc => ne_paren_of_isBracket (closed c hc).2) (apart_cons noWord noParen.1 t),
    expandCalls_cons noWord]

/-- Expansion changes a group in parentheses inside alone, if its inside expands apart from what
comes after it. -/
theorem expandCalls_group
    (append : ∀ u, Apart u → expandCalls (s ++ u) = expandCalls s ++ expandCalls u) (t : Text) :
    expandCalls ('(' :: (s ++ ')' :: t)) = '(' :: (expandCalls s ++ ')' :: expandCalls t) := by
  have apart : Apart (')' :: t) := apart_cons (by decide) (by decide) t
  rw [expandCalls_cons (by decide), append _ apart, expandCalls_cons (by decide)]

/-- Where the inside of a call expands apart from what comes after it, so does the call: it is
rendered, or it nests too deep and keeps its parentheses. -/
theorem exists_expandCalls_call {commas : Bool} (hw : Word w) (hs : Nested commas s)
    (append : ∀ u, Apart u → expandCalls (s ++ u) = expandCalls s ++ expandCalls u) :
    ∃ x, (x = renderCall w (pieces (expandCalls s)) ∨ x = w ++ '(' :: (expandCalls s ++ [')'])) ∧
      ∀ t, expandCalls (w ++ '(' :: (s ++ ')' :: t)) = x ++ expandCalls t := by
  rcases hs.callBody_cases with found | missing
  · exact ⟨_, .inl rfl, fun t => expandCalls_call hw (found t)⟩
  · refine ⟨_, .inr rfl, fun t => ?_⟩
    have apart : Apart (')' :: t) := apart_cons (by decide) (by decide) t
    rw [expandCalls_opened hw (missing t), append _ apart, expandCalls_cons (by decide),
      List.append_assoc, enclosed_concat]

theorem Parts.expandCalls_append {commas : Bool} (h : Parts commas s) :
    ∀ u, Apart u → expandCalls (s ++ u) = expandCalls s ++ expandCalls u := by
  -- only the last part meets `u`; what comes after the others is apart by the way they are cut
  induction h with
  | nil =>
    intro u _
    rw [expandCalls_nil]
    rfl
  | mark noWord _ _ _ _ ih =>
    intro u hu
    rw [List.cons_append, expandCalls_cons noWord, expandCalls_cons noWord, ih u hu]
    rfl
  | @quoted commas q s t quote closed _ ih =>
    intro u hu
    rw [enclosed_append, expandCalls_quoted quote closed, expandCalls_quoted quote closed,
      ih u hu, enclosed_append]
  | @group commas s t _ _ ihs iht =>
    intro u hu
    rw [enclosed_append, expandCalls_group ihs, expandCalls_group ihs, iht u hu, enclosed_append]
  | word hw apart _ ih =>
    intro u hu
    rw [List.append_assoc, expandCalls_word hw (apart.append hu), expandCalls_word hw apart,
      ih u hu, List.append_assoc]
  | @call commas w s t hw hs _ ihs iht =>
    intro u hu
    obtain ⟨x, -, hx⟩ := exists_expandCalls_call hw hs.nested ihs
    rw [List.append_assoc, enclosed_append, hx, hx, iht u hu, List.append_assoc]

/-- Expansion of a well nested text does not depend on what comes after it. -/
theorem Nested.expandCalls_append {commas : Bool} (h : Nested commas s) (hu : Apart u) :
    expandCalls (s ++ u) = expandCalls s ++ expandCalls u :=
  h.parts.expandCalls_append u hu

end DashCalc.Formula
