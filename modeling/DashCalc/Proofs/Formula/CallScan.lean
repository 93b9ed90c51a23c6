import DashCalc.Proofs.Formula.Words
import Mathlib.Data.List.Basic

/-!
# Calls by counting

The arguments of a call end where the parenthesis before them is closed, which can be found by
counting the parentheses that are open (`closing`). `stretches` goes through a text from left to
right and makes each call with at most one level of parentheses in its arguments one stretch; of
anything else each character is one. `callBody` finds the same ends as counting does
(`callBody_eq_some_iff`), so expansion writes the stretches one after the other
(`expandCalls_eq_stretches`).

A text can be cut wherever no call with flat arguments goes across (`stretches_append`). So a call
that is inside of no such call has its stretches for itself (`CallAt.stretches_eq`).
-/

namespace DashCalc.Formula

open Text (isWordChar)

/-! ## Counting parentheses -/

/-- How many parentheses are open behind a character. -/
def depthAfter (depth : Nat) (c : Char) : Nat :=
  if c = '(' then depth + 1 else if c = ')' then depth - 1 else depth

/-- The text up to the parenthesis that closes one more than those that are open, and the text after
it. -/
def closing (depth : Nat) : Text → Option (Text × Text)
  | [] => none
  | c :: cs =>
    if c = ')' ∧ depth = 0 then some ([], cs)
    else (closing (depthAfter depth c) cs).map fun (arguments, rest) => (c :: arguments, rest)

/-- The largest number of parentheses that are open at once. -/
def deepest (depth : Nat) : Text → Nat
  | [] => depth
  | c :: cs => max depth (deepest (depthAfter depth c) cs)

/-- How many parentheses are open behind a text that closes none but its own and these. -/
def depthBehind (depth : Nat) : Text → Option Nat
  | [] => some depth
  | c :: cs => if c = ')' ∧ depth = 0 then none else depthBehind (depthAfter depth c) cs

variable {s t u arguments rest : Text} {depth depth' depth'' : Nat}

theorem closing_append (h : depthBehind depth s = some 0) :
    closing depth (s ++ ')' :: t) = some (s, t) := by
  induction s generalizing depth with
  | nil =>
    obtain rfl : depth = 0 := Option.some.inj h
    rfl
  | cons c s ih =>
    rw [depthBehind] at h
    split at h
    · cases h
    · next other =>
      rw [List.cons_append, closing, if_neg other, ih h]
      rfl

theorem of_closing (h : closing depth t = some (arguments, rest)) :
    t = arguments ++ ')' :: rest ∧ depthBehind depth arguments = some 0 := by
  induction t generalizing depth arguments with
  | nil => cases h
  | cons c t ih =>
    rw [closing] at h
    split at h
    · next here =>
      obtain ⟨rfl, rfl⟩ := here
      cases h
      exact ⟨rfl, rfl⟩
    · next other =>
      obtain ⟨⟨arguments', rest'⟩, found, heq⟩ := Option.map_eq_some_iff.1 h
      cases heq
      obtain ⟨rfl, behind⟩ := ih found
      exact ⟨rfl, by rw [depthBehind, if_neg other, behind]⟩

theorem closing_eq_some_iff : closing depth t = some (arguments, rest) ↔
    t = arguments ++ ')' :: rest ∧ depthBehind depth arguments = some 0 :=
  ⟨of_closing, fun ⟨heq, h⟩ => heq ▸ closing_append h⟩

theorem depthBehind_append (s t : Text) : depthBehind depth (s ++ t) =
    (depthBehind depth s).bind fun depth => depthBehind depth t := by
  induction s generalizing depth with
  | nil => rfl
  | cons c s ih =>
    rw [List.cons_append, depthBehind, depthBehind]
    split
    · rfl
    · exact ih

/-- With more parentheses open before a text, as many more are open behind it. -/
theorem depthBehind_add (more : Nat) (h : depthBehind depth s = some depth') :
    depthBehind (depth + more) s = some (depth' + more) := by
  induction s generalizing depth with
  | nil =>
    cases h
    rfl
  | cons c s ih =>
    rw [depthBehind] at h ⊢
    split at h
    · cases h
    · next other =>
      have after : depthAfter (depth + more) c = depthAfter depth c + more := by
        unfold depthAfter
        split
        · omega
        · split
          · next closes =>
            have opened : depth ≠ 0 := fun none => other ⟨closes, none⟩
            omega
          · rfl
      rw [if_neg fun here => other ⟨here.1, by omega⟩, after]
      exact ih h

theorem le_deepest (depth : Nat) (t : Text) : depth ≤ deepest depth t := by
  cases t with
  | nil => exact Nat.le_refl depth
  | cons c t => exact Nat.le_max_left _ _

/-- What `callBody` knows of the open parentheses is how many there are, as long as these are one at
most. -/
theorem depthAfter_toNat {inner : Bool} {c : Char} (closes : ¬(c = ')' && !inner) = true)
    (opens : ¬(c = '(' && inner) = true) : depthAfter inner.toNat c =
      (if c = '(' then true else if c = ')' then false else inner).toNat := by
  unfold depthAfter
  split
  · next opened =>
    cases inner with
    | false => rfl
    | true => exact absurd (by simp [opened]) opens
  · split
    · next closed =>
      cases inner with
      | false => exact absurd (by simp [closed]) closes
      | true => rfl
    · rfl

/-- `callBody` finds what counting finds, unless two parentheses are open at once in it. -/
theorem callBody_eq_some_iff {inner : Bool} : callBody inner t = some (arguments, rest) ↔
    closing inner.toNat t = some (arguments, rest) ∧ deepest inner.toNat arguments ≤ 1 := by
  induction t generalizing inner arguments with
  | nil => simp [callBody, closing]
  | cons c t ih =>
    rw [callBody, closing]
    have here : (c = ')' && !inner) = true ↔ c = ')' ∧ inner.toNat = 0 := by cases inner <;> simp
    by_cases closes : (c = ')' && !inner) = true
    · rw [if_pos closes, if_pos (here.1 closes)]
      refine ⟨fun h => ⟨h, ?_⟩, And.left⟩
      cases h
      rw [deepest]
      exact Bool.toNat_le inner
    · rw [if_neg closes, if_neg (here.not.1 closes)]
      by_cases opens : (c = '(' && inner) = true
      · rw [if_pos opens]
        refine iff_of_false (Option.some_ne_none _).symm ?_
        rintro ⟨h, flat⟩
        obtain ⟨⟨arguments, _⟩, -, heq⟩ := Option.map_eq_some_iff.1 h
        cases heq
        -- the second parenthesis that is open at once
        have deep := le_deepest (depthAfter inner.toNat c) arguments
        rw [Bool.and_eq_true, decide_eq_true_eq] at opens
        obtain ⟨rfl, rfl⟩ := opens
        rw [deepest] at flat
        exact absurd (Nat.le_trans deep (Nat.le_trans (Nat.le_max_right _ _) flat)) (by decide)
      · rw [if_neg opens, depthAfter_toNat closes opens, Option.map_eq_some_iff,
          Option.map_eq_some_iff]
        constructor
        · rintro ⟨⟨arguments, rest⟩, found, heq⟩
          cases heq
          obtain ⟨found, flat⟩ := ih.1 found
          refine ⟨⟨(arguments, rest), found, rfl⟩, ?_⟩
          rw [deepest, depthAfter_toNat closes opens]
          exact Nat.max_le.2 ⟨Bool.toNat_le inner, flat⟩
        · rintro ⟨⟨⟨arguments, rest⟩, found, heq⟩, flat⟩
          cases heq
          rw [deepest, depthAfter_toNat closes opens] at flat
          exact ⟨(arguments, rest), ih.2 ⟨found, (Nat.max_le.1 flat).2⟩, rfl⟩

/-- The arguments of a call are what counting finds with at most one parenthesis open at once. -/
theorem callBody_false_iff : callBody false t = some (arguments, rest) ↔
    closing 0 t = some (arguments, rest) ∧ deepest 0 arguments ≤ 1 := callBody_eq_some_iff

/-- The arguments close all parentheses they open, and no others. -/
theorem callBody_false_iff_append : callBody false t = some (arguments, rest) ↔
    t = arguments ++ ')' :: rest ∧ depthBehind 0 arguments = some 0 ∧ deepest 0 arguments ≤ 1 := by
  rw [callBody_false_iff, closing_eq_some_iff, and_assoc]

/-! ## Stretches -/

/-- A part of a text: a character, or a call with flat arguments. -/
inductive Stretch
  | copied (c : Char)
  | call (name arguments : Text)

namespace Stretch

/-- What a stretch becomes when its call, if it is one, is rewritten. -/
def write (render : Text → Text → Text) : Stretch → Text
  | copied c => [c]
  | call name arguments => render name arguments

/-- The text of a stretch. -/
def source : Stretch → Text := write fun name arguments => name ++ '(' :: (arguments ++ [')'])

theorem flatMap_write_copied (render : Text → Text → Text) (s : Text) :
    (s.map copied).flatMap (write render) = s := by
  rw [List.flatMap_map]
  exact List.flatMap_singleton' s

end Stretch

/-- The stretches of a text from left to right. At a whole word directly followed by a parenthesis,
the parenthesis that closes it is found by counting. If there is one and at most one parenthesis is
open at once in between, the whole is a call; if not, the word and the parenthesis are copied, and
the scan goes on inside. -/
def stretches : Text → List Stretch
  | [] => []
  | c :: cs =>
    if isWordChar c then
      let name := c :: leadingWord cs
      match _h : afterWord cs with
      | '(' :: inside =>
        match _h' : closing 0 inside with
        | some (arguments, rest) =>
          if deepest 0 arguments ≤ 1 then .call name arguments :: stretches rest
          else (name ++ ['(']).map .copied ++ stretches inside
        | none => (name ++ ['(']).map .copied ++ stretches inside
      | rest => name.map .copied ++ stretches rest
    else .copied c :: stretches cs
termination_by t => t.length
decreasing_by
  all_goals simp only [List.length_cons]
  all_goals have hle := afterWord_length_le cs
  all_goals try rw [_h] at hle
  all_goals try simp only [List.length_cons] at hle
  · obtain ⟨rfl, -⟩ := of_closing _h'
    rw [List.length_append, List.length_cons] at hle
    omega
  all_goals omega

section Words

variable {w : Text}

theorem stretches_nil : stretches [] = [] := by rw [stretches]

theorem stretches_cons {c : Char} (h : isWordChar c = false) (t : Text) :
    stretches (c :: t) = .copied c :: stretches t := by
  rw [stretches, if_neg (Bool.eq_false_iff.1 h)]

theorem stretches_word (hw : Word w) (ht : Apart t) :
    stretches (w ++ t) = w.map .copied ++ stretches t := by
  obtain ⟨c, cs, rfl, hc, hlead, hafter⟩ := hw.scan fun d hd => (ht d hd).1
  rw [List.cons_append, stretches, if_pos hc]
  dsimp only
  rw [hlead]
  split
  · next inside heq =>
    rw [hafter] at heq
    rw [heq] at ht
    exact absurd rfl (ht '(' rfl).2
  · rw [hafter]

theorem stretches_paren (hw : Word w) (t : Text) : stretches (w ++ '(' :: t) =
    match closing 0 t with
    | some (arguments, rest) =>
      if deepest 0 arguments ≤ 1 then .call w arguments :: stretches rest
      else (w ++ ['(']).map .copied ++ stretches t
    | none => (w ++ ['(']).map .copied ++ stretches t := by
  obtain ⟨c, cs, rfl, hc, hlead, hafter⟩ := hw.scan (t := '(' :: t) fun d hd => by
    cases hd
    decide
  rw [List.cons_append, stretches, if_pos hc]
  dsimp only
  rw [hlead]
  split
  · next inside heq =>
    rw [hafter, List.cons.injEq] at heq
    obtain ⟨-, rfl⟩ := heq
    split
    · next found => rw [found]
    · next missing => rw [missing]
  · next other => exact absurd hafter (other t)

theorem stretches_call (hw : Word w) (h : callBody false t = some (arguments, rest)) :
    stretches (w ++ '(' :: t) = .call w arguments :: stretches rest := by
  obtain ⟨found, flat⟩ := callBody_false_iff.1 h
  rw [stretches_paren hw, found]
  exact if_pos flat

theorem stretches_opened (hw : Word w) (h : callBody false t = none) :
    stretches (w ++ '(' :: t) = (w ++ ['(']).map .copied ++ stretches t := by
  rw [stretches_paren hw]
  split
  · next arguments rest found =>
    refine if_neg fun flat => ?_
    rw [callBody_false_iff.2 ⟨found, flat⟩] at h
    cases h
  · rfl

end Words

/-! ## Going from call to call -/

/-- A text is empty, or it begins with a character that belongs to no word, a word without a
parenthesis behind it, a call with flat arguments, or a word and a parenthesis that is no such
call. -/
theorem callInduction {P : Text → Prop} (nil : P [])
    (mark : ∀ c t, isWordChar c = false → P t → P (c :: t))
    (word : ∀ w t, Word w → Apart t → P t → P (w ++ t))
    (call : ∀ w t arguments rest, Word w → callBody false t = some (arguments, rest) → P rest →
      P (w ++ '(' :: t))
    (opened : ∀ w t, Word w → callBody false t = none → P t → P (w ++ '(' :: t)) (t : Text) :
    P t := by
  cases t with
  | nil => exact nil
  | cons c t =>
    by_cases hc : isWordChar c = true
    · obtain ⟨w, rest, heq, hw, hrest⟩ := exists_word_append hc t
      have shorter : rest.length < (c :: t).length := by
        rw [heq, List.length_append]
        have := List.length_pos_iff.2 hw.nonempty
        omega
      rw [heq]
      by_cases paren : rest.head? = some '('
      · obtain ⟨inside, rfl⟩ := List.head?_eq_some_iff.1 paren
        have inner : inside.length < (c :: t).length := Nat.lt_of_succ_lt shorter
        cases found : callBody false inside with
        | none => exact opened w inside hw found (callInduction nil mark word call opened inside)
        | some found' =>
          obtain ⟨arguments, rest⟩ := found'
          have behind : rest.length < (c :: t).length := by
            have := callBody_length found
            omega
          exact call w inside arguments rest hw found
            (callInduction nil mark word call opened rest)
      · exact word w rest hw (fun d hd => ⟨hrest d hd, fun e => paren (e ▸ hd)⟩)
          (callInduction nil mark word call opened rest)
    · exact mark c t (Bool.eq_false_iff.2 hc) (callInduction nil mark word call opened t)
termination_by t.length
decreasing_by
  all_goals first | assumption | exact Nat.lt_succ_self _

/-- The sources of the stretches are the text. -/
theorem flatMap_source_stretches (t : Text) : (stretches t).flatMap Stretch.source = t := by
  unfold Stretch.source
  induction t using callInduction with
  | nil => rw [stretches_nil, List.flatMap_nil]
  | mark c t hc ih =>
    rw [stretches_cons hc, List.flatMap_cons, ih]
    rfl
  | word w t hw ht ih =>
    rw [stretches_word hw ht, List.flatMap_append, Stretch.flatMap_write_copied, ih]
  | call w t arguments rest hw h ih =>
    obtain ⟨rfl, -⟩ := callBody_false_iff_append.1 h
    rw [stretches_call hw h, List.flatMap_cons, ih, Stretch.write, List.append_assoc,
      enclosed_concat]
  | opened w t hw h ih =>
    rw [stretches_opened hw h, List.flatMap_append, Stretch.flatMap_write_copied, ih,
      List.append_assoc]
    rfl

/-- Expansion writes the stretches one after the other. -/
theorem expandCalls_eq_stretches (t : Text) :
    expandCalls t = (stretches t).flatMap (Stretch.write expandCall) := by
  induction t using callInduction with
  | nil => rw [stretches_nil, expandCalls_nil, List.flatMap_nil]
  | mark c t hc ih =>
    rw [stretches_cons hc, expandCalls_cons hc, ih]
    rfl
  | word w t hw ht ih =>
    rw [stretches_word hw ht, expandCalls_word hw ht, List.flatMap_append,
      Stretch.flatMap_write_copied, ih]
  | call w t arguments rest hw h ih =>
    rw [stretches_call hw h, expandCalls_call hw h, List.flatMap_cons, ih]
    rfl
  | opened w t hw h ih =>
    rw [stretches_opened hw h, expandCalls_opened hw h, List.flatMap_append,
      Stretch.flatMap_write_copied, ih, List.append_assoc]
    rfl

/-- The arguments of a call are shorter than the text that the call stands in. -/
theorem length_of_mem_stretches {name : Text} (h : .call name arguments ∈ stretches t) :
    arguments.length < t.length := by
  obtain ⟨before, after, heq⟩ := List.append_of_mem h
  have source := flatMap_source_stretches t
  rw [heq, List.flatMap_append, List.flatMap_cons, Stretch.source, Stretch.write] at source
  rw [← source]
  simp only [List.length_append, List.length_cons]
  omega

/-! ## Calls apart from what is around them -/

/-- Whether a call with flat arguments begins in a text and ends in the one that follows it. -/
def Crosses (s t : Text) : Prop :=
  ∃ before name inside more rest, s = before ++ (name ++ '(' :: inside) ∧ Word name ∧
    callBody false (inside ++ t) = some (inside ++ more, rest)

/-- Whether a word goes on from a text to the one that follows it, or ends there at a
parenthesis. -/
def Joins (s t : Text) : Prop := (∃ c ∈ s.getLast?, isWordChar c = true) ∧ ¬ Apart t

theorem Crosses.of_suffix (h : Crosses s t) (suffix : s <:+ u) : Crosses u t := by
  obtain ⟨before, name, inside, more, rest, rfl, hname, found⟩ := h
  obtain ⟨first, rfl⟩ := suffix
  exact ⟨first ++ before, name, inside, more, rest, by rw [List.append_assoc], hname, found⟩

theorem Joins.of_suffix (h : Joins s t) (suffix : s <:+ u) : Joins u t := by
  obtain ⟨⟨c, hc, word⟩, ht⟩ := h
  obtain ⟨first, rfl⟩ := suffix
  refine ⟨⟨c, ?_, word⟩, ht⟩
  rw [List.getLast?_append, Option.mem_def.1 hc]
  rfl

theorem Word.getLast? {w : Text} (hw : Word w) : ∃ c ∈ w.getLast?, isWordChar c = true :=
  ⟨w.getLast hw.nonempty, List.getLast?_eq_some_getLast hw.nonempty,
    hw.all _ (List.getLast_mem hw.nonempty)⟩

theorem callBody_append (h : callBody false t = some (arguments, rest)) (u : Text) :
    callBody false (t ++ u) = some (arguments, rest ++ u) := by
  obtain ⟨rfl, balanced⟩ := callBody_false_iff_append.1 h
  rw [List.append_assoc]
  exact callBody_false_iff_append.2 ⟨rfl, balanced⟩

/-- A parenthesis that closes no call does so whatever follows, unless a call goes across. -/
theorem callBody_append_none {w : Text} (hw : Word w) (h : callBody false s = none)
    (crosses : ¬ Crosses (w ++ '(' :: s) t) : callBody false (s ++ t) = none := by
  refine Option.eq_none_iff_forall_ne_some.2 fun ⟨arguments, rest⟩ found => ?_
  obtain ⟨heq, balanced⟩ := callBody_false_iff_append.1 found
  rcases List.append_eq_append_iff.1 heq with ⟨more, rfl, -⟩ | ⟨after, rfl, hafter⟩
  · exact crosses ⟨[], w, s, more, rest, rfl, hw, found⟩
  · cases after with
    | nil =>
      rw [List.append_nil] at found
      exact crosses ⟨[], w, _, [], rest, rfl, hw, by rwa [List.append_nil, List.append_nil]⟩
    | cons c after =>
      obtain ⟨rfl, -⟩ := List.cons.inj hafter
      rw [callBody_false_iff_append.2 ⟨rfl, balanced⟩] at h
      cases h

/-- A text is gone through up to a place that no call crosses as if it ended there. -/
theorem stretches_append (s : Text) {t : Text} (crosses : ¬ Crosses s t) (joins : ¬ Joins s t) :
    stretches (s ++ t) = stretches s ++ stretches t := by
  induction s using callInduction with
  | nil => rw [stretches_nil, List.nil_append, List.nil_append]
  | mark c s hc ih =>
    have suffix := List.suffix_cons c s
    rw [List.cons_append, stretches_cons hc, stretches_cons hc,
      ih (mt (·.of_suffix suffix) crosses) (mt (·.of_suffix suffix) joins), List.cons_append]
  | word w s hw hs ih =>
    have suffix := List.suffix_append w s
    have apart : Apart (s ++ t) := by
      cases s with
      | nil =>
        rw [List.append_nil] at joins
        exact not_not.1 fun ht => joins ⟨hw.getLast?, ht⟩
      | cons c s => exact hs
    rw [List.append_assoc, stretches_word hw apart, stretches_word hw hs,
      ih (mt (·.of_suffix suffix) crosses) (mt (·.of_suffix suffix) joins), List.append_assoc]
  | call w s arguments rest hw h ih =>
    have suffix : rest <:+ w ++ '(' :: s := by
      obtain ⟨rfl, -⟩ := callBody_false_iff_append.1 h
      exact ⟨w ++ '(' :: (arguments ++ [')']), by rw [List.append_assoc, enclosed_concat]⟩
    rw [List.append_assoc, List.cons_append, stretches_call hw (callBody_append h t),
      stretches_call hw h, ih (mt (·.of_suffix suffix) crosses) (mt (·.of_suffix suffix) joins),
      List.cons_append]
  | opened w s hw h ih =>
    have suffix : s <:+ w ++ '(' :: s := ⟨w ++ ['('], by rw [List.append_assoc]; rfl⟩
    rw [List.append_assoc, List.cons_append,
      stretches_opened hw (callBody_append_none hw h crosses), stretches_opened hw h,
      ih (mt (·.of_suffix suffix) crosses) (mt (·.of_suffix suffix) joins), List.append_assoc]

/-- Whether a call stands in a text between two others: a whole word and a parenthesis, up to the
parenthesis that closes this one. -/
structure CallAt (t before name arguments after : Text) : Prop where
  eq : t = before ++ (name ++ '(' :: (arguments ++ ')' :: after))
  word : Word name
  whole : ∀ c ∈ before.getLast?, isWordChar c = false
  closes : closing 0 (arguments ++ ')' :: after) = some (arguments, after)

/-- Whether what stands between two texts is inside the arguments of a call, and these are flat. -/
def InsideFlat (t before after : Text) : Prop :=
  ∃ before' name arguments after', CallAt t before' name arguments after' ∧
    deepest 0 arguments ≤ 1 ∧ before' ++ (name ++ ['(']) <+: before ∧ ')' :: after' <:+ after

/-- The word characters at the end of a text are the beginning of a word that follows it. -/
theorem Word.exists_whole {w : Text} (hw : Word w) (s : Text) :
    ∃ before name, s ++ w = before ++ name ∧ Word name ∧
      ∀ c ∈ before.getLast?, isWordChar c = false := by
  let letters := (s.reverse.takeWhile isWordChar).reverse
  let before := (s.reverse.dropWhile isWordChar).reverse
  have parts : s = before ++ letters := by
    rw [← List.reverse_append, List.takeWhile_append_dropWhile, List.reverse_reverse]
  refine ⟨before, letters ++ w, by rw [← List.append_assoc, ← parts],
    ⟨List.append_ne_nil_of_right_ne_nil _ hw.nonempty, fun c hc => ?_⟩, fun c hc => ?_⟩
  · rcases List.mem_append.1 hc with hc | hc
    · exact List.mem_takeWhile_imp (List.mem_reverse.1 hc)
    · exact hw.all c hc
  · have edge := List.head?_dropWhile_not isWordChar s.reverse
    rw [List.getLast?_reverse] at hc
    rwa [Option.mem_def.1 hc] at edge

section Around

variable {before name after : Text}

theorem depthBehind_word (hw : Word name) (depth : Nat) : depthBehind depth name = some depth := by
  have plain := fun c hc =>
    ne_paren_of_isBracket (isPlain_iff.1 (isPlain_of_isWordChar (hw.all c hc))).1
  clear hw
  induction name with
  | nil => rfl
  | cons c name ih =>
    obtain ⟨opens, closes⟩ := plain c List.mem_cons_self
    have same : depthAfter depth c = depth := by rw [depthAfter, if_neg opens, if_neg closes]
    rw [depthBehind, if_neg fun here => closes here.1, same]
    exact ih fun d hd => plain d (List.mem_cons_of_mem c hd)

/-- As many parentheses are open behind a call as before it. -/
theorem CallAt.depthBehind (h : CallAt t before name arguments after) (depth : Nat) :
    depthBehind depth (name ++ '(' :: (arguments ++ [')'])) = some depth := by
  obtain ⟨-, behind⟩ := of_closing h.closes
  have inside : Formula.depthBehind (depth + 1) arguments = some (depth + 1) := by
    have more := depthBehind_add (depth + 1) behind
    rwa [Nat.zero_add] at more
  have opened : Formula.depthBehind depth ('(' :: (arguments ++ [')'])) =
      Formula.depthBehind (depth + 1) (arguments ++ [')']) := rfl
  rw [depthBehind_append, depthBehind_word h.word, Option.bind_some, opened, depthBehind_append,
    inside]
  rfl

/-- What crosses into a call and its rest is a call that the call is inside of. -/
theorem CallAt.not_crosses (h : CallAt t before name arguments after)
    (outer : ¬ InsideFlat t before after) :
    ¬ Crosses before (name ++ '(' :: (arguments ++ ')' :: after)) := by
  rintro ⟨first, name', inside, more, rest, rfl, hname, found⟩
  obtain ⟨closed, flat⟩ := callBody_false_iff.1 found
  obtain ⟨heq, behind⟩ := of_closing closed
  rw [depthBehind_append, Option.bind_eq_some_iff] at behind
  obtain ⟨depth, -, behind⟩ := behind
  rw [List.append_assoc, List.append_cancel_left_eq] at heq
  -- the larger call ends behind the whole call, as the number of open parentheses is the same there
  obtain ⟨last, rfl⟩ : ∃ last, after = last ++ ')' :: rest := by
    rw [← enclosed_concat, ← List.append_assoc] at heq
    rcases List.append_eq_append_iff.1 heq with ⟨last, -, hlast⟩ | ⟨cut, hcut, hrest⟩
    · exact ⟨last, hlast⟩
    · cases cut with
      | nil => exact ⟨[], hrest.symm⟩
      | cons c cut =>
        obtain ⟨rfl, -⟩ := List.cons.inj hrest
        have same := h.depthBehind depth
        rw [hcut, depthBehind_append, behind] at same
        cases same
  obtain ⟨before', whole, parts, hwhole, edge⟩ := hname.exists_whole first
  have opened : first ++ (name' ++ '(' :: inside) = before' ++ (whole ++ '(' :: inside) := by
    rw [← List.append_assoc, parts, List.append_assoc]
  refine outer ⟨before', whole, inside ++ more, rest, ⟨?_, hwhole, edge, ?_⟩, flat,
    ⟨inside, ?_⟩, ⟨last, rfl⟩⟩
  · rw [h.eq, opened, heq]
    simp only [List.append_assoc, List.cons_append]
  · rwa [heq, ← List.append_assoc] at closed
  · rw [opened, List.append_assoc, List.append_assoc]
    rfl

/-- In what a parenthesis closes, no call crosses to that parenthesis. -/
theorem not_crosses_closed (h : depthBehind 0 arguments = some 0) :
    ¬ Crosses arguments (')' :: after) := by
  rintro ⟨first, name, inside, more, rest, rfl, -, found⟩
  obtain ⟨-, closed, -⟩ := callBody_false_iff_append.1 found
  rw [depthBehind_append, Option.bind_eq_some_iff] at closed
  obtain ⟨depth, behind, -⟩ := closed
  rw [← List.append_assoc, depthBehind_append, Option.bind_eq_some_iff] at h
  obtain ⟨opened, -, inner⟩ := h
  have within : depthBehind (opened + 1) inside = some 0 := inner
  have more := depthBehind_add (opened + 1) behind
  rw [Nat.zero_add, within] at more
  cases more

/-- **A call that is inside of no call with flat arguments is one stretch** if its own are flat. If
not, its name and its parentheses are copied around the stretches of its arguments. What is before
it and what is after it is gone through on its own. -/
theorem CallAt.stretches_eq (h : CallAt t before name arguments after)
    (outer : ¬ InsideFlat t before after) : stretches t = stretches before ++
      ((if deepest 0 arguments ≤ 1 then [.call name arguments]
        else (name ++ ['(']).map .copied ++ stretches arguments ++ [.copied ')']) ++
        stretches after) := by
  have joins : ¬ Joins before (name ++ '(' :: (arguments ++ ')' :: after)) := by
    rintro ⟨⟨c, hc, word⟩, -⟩
    rw [h.whole c hc] at word
    cases word
  rw [h.eq, stretches_append before (h.not_crosses outer) joins]
  refine congrArg (stretches before ++ ·) ?_
  split
  · next flat => exact stretches_call h.word (callBody_false_iff.2 ⟨h.closes, flat⟩)
  · next deep =>
    have missing : callBody false (arguments ++ ')' :: after) = none := by
      refine Option.eq_none_iff_forall_ne_some.2 fun ⟨arguments', rest⟩ found => ?_
      obtain ⟨closed, flat⟩ := callBody_false_iff.1 found
      rw [h.closes] at closed
      cases closed
      exact deep flat
    have apart : ¬ Joins arguments (')' :: after) :=
      fun joined => joined.2 (apart_cons (by decide) (by decide) after)
    rw [stretches_opened h.word missing,
      stretches_append arguments (not_crosses_closed (of_closing h.closes).2) apart,
      stretches_cons (by decide)]
    simp only [List.append_assoc, List.singleton_append]

end Around

end DashCalc.Formula
