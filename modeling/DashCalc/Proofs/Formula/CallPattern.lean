import DashCalc.Proofs.Formula.CallScan
import Mathlib.Data.List.Basic

/-!
# Calls by a pattern

The pattern of a call is `(\w+)\(([^()]*(?:\([^()]*\)[^()]*)*)\)`. A pattern matches by
backtracking: `Pattern.ways` lists the ways to match the beginning of a text, the preferred one
first, where a repetition goes on before it stops. Most ways of the repetitions in this pattern lead
nowhere, since what follows a run of characters of a class here never begins with such a character
(`flatMap_run`). So there is at most one way to match the arguments of a call, the one that
`callBody` finds (`flatMap_arguments`), and a word is matched with these or not at all
(`callPattern_ways_paren`). Replacing the matches from left to right is therefore the scan that
counts parentheses (`replaceAll_callPattern`, `expandCalls_scan`).
-/

namespace DashCalc.Formula

open Text (isWordChar)

/-! ## Patterns -/

/-- What a text can be matched with. -/
inductive Pattern
  /-- One character of a class. -/
  | char (p : Char → Bool)
  /-- One pattern and then another one. -/
  | seq (first second : Pattern)
  /-- A pattern as often as possible. -/
  | star (p : Pattern)
  /-- A pattern whose text is captured under a number. -/
  | group (number : Nat) (p : Pattern)

/-- A way to match the beginning of a text. -/
structure Way where
  taken : Text
  /-- The text after the match. -/
  rest : Text
  /-- What groups captured, the latest first. -/
  captures : List (Nat × Text) := []

namespace Way

/-- One way and then another one that goes on from its end. -/
def andThen (first second : Way) : Way :=
  ⟨first.taken ++ second.taken, second.rest, second.captures ++ first.captures⟩

theorem rest_andThen (first second : Way) : (first.andThen second).rest = second.rest := rfl

theorem andThen_assoc (u v w : Way) : (u.andThen v).andThen w = u.andThen (v.andThen w) := by
  unfold andThen
  rw [List.append_assoc, List.append_assoc]

/-- What a group captured. -/
def captured (w : Way) (number : Nat) : Text := (w.captures.lookup number).getD []

end Way

/-- The ways to take a step as often as possible. Stopping comes after all ways to go on, and a step
that takes nothing is not gone on from. -/
def again (step : Text → List Way) (t : Text) : List Way :=
  ((step t).flatMap fun w =>
    if _h : w.rest.length < t.length then (again step w.rest).map w.andThen else []) ++
    [⟨[], t, []⟩]
termination_by t.length

namespace Pattern

/-- The ways to match the beginning of a text, the preferred one first. -/
def ways : Pattern → Text → List Way
  | char _, [] => []
  | char p, c :: cs => if p c then [⟨[c], cs, []⟩] else []
  | seq p q, t => (p.ways t).flatMap fun w => (q.ways w.rest).map w.andThen
  | star p, t => again p.ways t
  | group n p, t => (p.ways t).map fun w => { w with captures := (n, w.taken) :: w.captures }

/-- Replaces the matches from left to right, each being the preferred way to match where one can
start at all. A match of nothing counts as none. -/
def replaceAll (p : Pattern) (write : Way → Text) : Text → Text
  | [] => []
  | c :: cs =>
    match (p.ways (c :: cs)).head? with
    | some w =>
      if _h : w.rest.length < (c :: cs).length then write w ++ replaceAll p write w.rest
      else c :: replaceAll p write cs
    | none => c :: replaceAll p write cs
termination_by t => t.length
decreasing_by
  all_goals first | assumption | exact Nat.lt_succ_self _

/-- A pattern once and then as often as possible. -/
def plus (p : Pattern) : Pattern := .seq p (.star p)

/-- One character. -/
def exactly (c : Char) : Pattern := .char (· == c)

end Pattern

/-- Whether a character is no parenthesis. -/
def noParen (c : Char) : Bool := c != '(' && c != ')'

open Pattern

/-- Parentheses without any inside, and what comes up to the next parenthesis. -/
def parensPattern : Pattern :=
  .seq (exactly '(') (.seq (.star (.char noParen)) (.seq (exactly ')') (.star (.char noParen))))

/-- The arguments of a call, with at most one level of parentheses. -/
def argumentsPattern : Pattern := .seq (.star (.char noParen)) (.star parensPattern)

/-- A word and its arguments in parentheses, captured as 1 and 2. -/
def callPattern : Pattern :=
  .seq (.group 1 (.plus (.char isWordChar)))
    (.seq (exactly '(') (.seq (.group 2 argumentsPattern) (exactly ')')))

/-! ## Ways that lead on

Each lemma tells what comes of the ways of a pattern if something is made of each of them in
turn. -/

section Ways

variable {β : Type} {f : Way → List β} {p q : Pattern} {t : Text}

theorem flatMap_seq : ((seq p q).ways t).flatMap f =
    (p.ways t).flatMap fun w => (q.ways w.rest).flatMap fun v => f (w.andThen v) := by
  rw [ways, List.flatMap_assoc]
  simp only [List.flatMap_map]

theorem flatMap_group {n : Nat} : ((group n p).ways t).flatMap f =
    (p.ways t).flatMap fun w => f { w with captures := (n, w.taken) :: w.captures } := by
  rw [ways, List.flatMap_map]

theorem flatMap_exactly_cons (c : Char) (t : Text) :
    ((exactly c).ways (c :: t)).flatMap f = f ⟨[c], t, []⟩ := by
  rw [exactly, ways, if_pos (beq_self_eq_true c), List.flatMap_singleton]

theorem flatMap_exactly_of_ne {c : Char} (h : t.head? ≠ some c) :
    ((exactly c).ways t).flatMap f = [] := by
  cases t with
  | nil => rfl
  | cons d t =>
    have differ : (d == c) = false := beq_eq_false_iff_ne.2 fun e => h (congrArg some e)
    rw [exactly, ways, differ]
    rfl

/-- A pattern that takes something is repeated before the repetition stops. -/
theorem flatMap_star (takes : ∀ w ∈ p.ways t, w.rest.length < t.length) :
    ((star p).ways t).flatMap f =
      ((p.ways t).flatMap fun w => ((star p).ways w.rest).flatMap fun v => f (w.andThen v)) ++
        f ⟨[], t, []⟩ := by
  rw [ways, again, List.flatMap_append, List.flatMap_assoc, List.flatMap_singleton]
  refine congrArg (· ++ _) (List.flatMap_congr fun w hw => ?_)
  rw [dif_pos (takes w hw), List.flatMap_map]
  rfl

theorem char_takes (p : Char → Bool) : ∀ w ∈ (char p).ways t, w.rest.length < t.length := by
  intro w hw
  cases t with
  | nil => cases hw
  | cons c t =>
    rw [ways] at hw
    split at hw
    · rw [List.mem_singleton.1 hw]
      exact Nat.lt_succ_self _
    · cases hw

/-- A repetition only goes forward. -/
theorem again_length (step : Text → List Way) (t : Text) :
    ∀ w ∈ again step t, w.rest.length ≤ t.length := by
  intro w hw
  rw [again, List.mem_append, List.mem_flatMap] at hw
  rcases hw with ⟨u, -, hw⟩ | hw
  · split at hw
    · next shorter =>
      obtain ⟨v, hv, rfl⟩ := List.mem_map.1 hw
      exact Nat.le_trans (again_length step u.rest v hv) (Nat.le_of_lt shorter)
    · cases hw
  · rw [List.mem_singleton.1 hw]
termination_by t.length

theorem ways_length (p : Pattern) : ∀ {t : Text}, ∀ w ∈ p.ways t, w.rest.length ≤ t.length := by
  induction p with
  | char p => exact fun w hw => Nat.le_of_lt (char_takes p w hw)
  | seq p q ihp ihq =>
    intro t w hw
    obtain ⟨u, hu, hw⟩ := List.mem_flatMap.1 hw
    obtain ⟨v, hv, rfl⟩ := List.mem_map.1 hw
    exact Nat.le_trans (ihq v hv) (ihp u hu)
  | star p _ => exact fun {t} => again_length p.ways t
  | group n p ih =>
    intro t w hw
    obtain ⟨v, hv, rfl⟩ := List.mem_map.1 hw
    exact ih v hv

theorem seq_takes (takes : ∀ w ∈ p.ways t, w.rest.length < t.length) :
    ∀ w ∈ (seq p q).ways t, w.rest.length < t.length := by
  intro w hw
  obtain ⟨u, hu, hw⟩ := List.mem_flatMap.1 hw
  obtain ⟨v, hv, rfl⟩ := List.mem_map.1 hw
  exact Nat.lt_of_le_of_lt (ways_length q v hv) (takes u hu)

/-! ## Runs -/

section Runs

variable {s : Text}

/-- Whether a text does not begin with a character of a class. -/
def Stops (p : Char → Bool) (t : Text) : Prop := ∀ c ∈ t.head?, p c = false

theorem stops_cons {p : Char → Bool} {c : Char} (h : p c = false) (t : Text) :
    Stops p (c :: t) := by
  intro d hd
  cases hd
  exact h

/-- A text that begins with a character of a class does not begin with one of no such class. -/
theorem head?_ne {p : Char → Bool} {c : Char} (hc : p c = false)
    (h : ∃ d ∈ t.head?, p d = true) : t.head? ≠ some c := by
  intro same
  obtain ⟨d, hd, inClass⟩ := h
  rw [same] at hd
  cases hd
  rw [hc] at inClass
  cases inClass

theorem exists_run (p : Char → Bool) (t : Text) :
    ∃ s r, t = s ++ r ∧ (∀ c ∈ s, p c = true) ∧ Stops p r := by
  refine ⟨t.takeWhile p, t.dropWhile p, (List.takeWhile_append_dropWhile).symm,
    fun c hc => List.mem_takeWhile_imp hc, fun c hc => ?_⟩
  have edge := List.head?_dropWhile_not p t
  rwa [Option.mem_def.1 hc] at edge

theorem char_ways_of_stops {p : Char → Bool} (ht : Stops p t) : (char p).ways t = [] := by
  cases t with
  | nil => rfl
  | cons c t => rw [ways, if_neg (Bool.eq_false_iff.1 (ht c rfl))]

/-- The preferred way through a run of characters takes the whole run, all others stop before one
of them. -/
theorem ways_run {p : Char → Bool} (hs : ∀ c ∈ s, p c = true) (ht : Stops p t) :
    ∃ others, (star (char p)).ways (s ++ t) = ⟨s, t, []⟩ :: others ∧
      ∀ w ∈ others, ∃ c ∈ w.rest.head?, p c = true := by
  induction s with
  | nil =>
    refine ⟨[], ?_, nofun⟩
    rw [List.nil_append, ways, again, char_ways_of_stops ht]
    rfl
  | cons c s ih =>
    obtain ⟨others, hways, hothers⟩ := ih fun d hd => hs d (List.mem_cons_of_mem c hd)
    refine ⟨others.map (Way.andThen ⟨[c], s ++ t, []⟩) ++ [⟨[], c :: (s ++ t), []⟩], ?_, ?_⟩
    · have shorter : (s ++ t).length < (c :: (s ++ t)).length := Nat.lt_succ_self _
      rw [ways] at hways
      rw [List.cons_append, ways, again, ways, if_pos (hs c List.mem_cons_self),
        List.flatMap_singleton, dif_pos shorter, hways]
      rfl
    · intro w hw
      rcases List.mem_append.1 hw with hw | hw
      · obtain ⟨v, hv, rfl⟩ := List.mem_map.1 hw
        exact hothers v hv
      · rw [List.mem_singleton.1 hw]
        exact ⟨c, rfl, hs c List.mem_cons_self⟩

/-- What fails before each character of a class goes on from a run of such characters at its end. -/
theorem flatMap_run {p : Char → Bool} (hs : ∀ c ∈ s, p c = true) (ht : Stops p t)
    (fails : ∀ w, (∃ c ∈ w.rest.head?, p c = true) → f w = []) :
    ((star (char p)).ways (s ++ t)).flatMap f = f ⟨s, t, []⟩ := by
  obtain ⟨others, hways, hothers⟩ := ways_run hs ht
  rw [hways, List.flatMap_cons, List.flatMap_eq_nil_iff.2 fun w hw => fails w (hothers w hw),
    List.append_nil]

/-- A word is taken as a whole by what fails before each word character. -/
theorem flatMap_word {w : Text} (hw : Word w) (ht : Stops isWordChar t)
    (fails : ∀ v, (∃ c ∈ v.rest.head?, isWordChar c = true) → f v = []) :
    ((plus (char isWordChar)).ways (w ++ t)).flatMap f = f ⟨w, t, []⟩ := by
  obtain ⟨c, s, rfl⟩ := List.exists_cons_of_ne_nil hw.nonempty
  rw [plus, flatMap_seq, List.cons_append, ways, if_pos (hw.all c List.mem_cons_self),
    List.flatMap_singleton]
  exact flatMap_run (fun d hd => hw.all d (List.mem_cons_of_mem c hd)) ht fun v hv => fails _ hv

end Runs

/-! ## The arguments of a call -/

section Arguments

variable {s : Text}

theorem noParen_iff {c : Char} : noParen c = true ↔ c ≠ '(' ∧ c ≠ ')' := by
  unfold noParen
  rw [Bool.and_eq_true, bne_iff_ne, bne_iff_ne]

theorem callBody_run (hs : ∀ c ∈ s, noParen c = true) (inner : Bool) (t : Text) :
    callBody inner (s ++ t) =
      (callBody inner t).map fun (arguments, rest) => (s ++ arguments, rest) :=
  passesBody_of_forall (fun c hc => noParen_iff.1 (hs c hc)) t

/-- Behind a run without parentheses comes a parenthesis or nothing. -/
theorem Stops.paren_cases (ht : Stops noParen t) :
    t = [] ∨ (∃ u, t = '(' :: u) ∨ ∃ u, t = ')' :: u := by
  cases t with
  | nil => exact .inl rfl
  | cons c u =>
    by_cases opens : c = '('
    · exact .inr (.inl ⟨u, by rw [opens]⟩)
    · by_cases closes : c = ')'
      · exact .inr (.inr ⟨u, by rw [closes]⟩)
      · have other := ht c rfl
        rw [noParen_iff.2 ⟨opens, closes⟩] at other
        cases other

theorem parensPattern_takes (t : Text) : ∀ w ∈ parensPattern.ways t, w.rest.length < t.length :=
  seq_takes (char_takes _)

theorem flatMap_parens_of_ne (h : t.head? ≠ some '(') : (parensPattern.ways t).flatMap f = [] := by
  rw [parensPattern, flatMap_seq, flatMap_exactly_of_ne h]

/-- Parentheses are matched if the first parenthesis after they open closes them. -/
theorem flatMap_parens (hs : ∀ c ∈ s, noParen c = true) (ht : Stops noParen t) :
    (parensPattern.ways ('(' :: (s ++ t))).flatMap f =
      ((exactly ')').ways t).flatMap fun v => ((star (char noParen)).ways v.rest).flatMap fun w =>
        f (.andThen ⟨'(' :: s, t, []⟩ (v.andThen w)) := by
  rw [parensPattern, flatMap_seq, flatMap_exactly_cons, flatMap_seq]
  dsimp only
  rw [flatMap_run hs ht, flatMap_seq]
  · simp only [← Way.andThen_assoc]
    rfl
  · intro w hw
    rw [flatMap_seq, flatMap_exactly_of_ne (head?_ne (by decide) hw)]

/-- Where no parenthesis opens, the repetition of parentheses takes nothing. -/
theorem flatMap_star_parens_of_ne (h : t.head? ≠ some '(') :
    ((star parensPattern).ways t).flatMap f = f ⟨[], t, []⟩ := by
  rw [flatMap_star (parensPattern_takes t), flatMap_parens_of_ne h, List.nil_append]

/-- Before the first parenthesis of the arguments all is taken, if anything is to come of a way only
where it stops before a closing parenthesis. -/
theorem flatMap_arguments_run (hs : ∀ c ∈ s, noParen c = true) (ht : Stops noParen t)
    (closes : ∀ w, w.rest.head? ≠ some ')' → f w = []) :
    (argumentsPattern.ways (s ++ t)).flatMap f =
      ((star parensPattern).ways t).flatMap fun v => f (.andThen ⟨s, t, []⟩ v) := by
  rw [argumentsPattern, flatMap_seq, flatMap_run hs ht]
  intro w hw
  rw [flatMap_star_parens_of_ne (head?_ne (by decide) hw)]
  exact closes _ (head?_ne (by decide) hw)

/-- **The arguments of a call have at most one way to match**, if anything is to come of a way only
where it stops before a closing parenthesis. -/
theorem flatMap_arguments (t : Text) {f : Way → List β}
    (closes : ∀ w, w.rest.head? ≠ some ')' → f w = []) :
    (argumentsPattern.ways t).flatMap f =
      (callBody false t).toList.flatMap fun found => f ⟨found.1, ')' :: found.2, []⟩ := by
  obtain ⟨s, t', heq, hs, ht⟩ := exists_run noParen t
  rw [heq, flatMap_arguments_run hs ht closes, callBody_run hs]
  rcases ht.paren_cases with rfl | ⟨u, rfl⟩ | ⟨u, rfl⟩
  · rw [flatMap_star_parens_of_ne (by simp)]
    exact closes _ (by simp [Way.andThen])
  · -- a parenthesis opens, and the first one after it must close it
    obtain ⟨r, v, rfl, hr, hv⟩ := exists_run noParen u
    have opened : callBody false ('(' :: (r ++ v)) = ((callBody true v).map fun found =>
        (r ++ found.1, found.2)).map fun found => ('(' :: found.1, found.2) := by
      rw [← callBody_run hr]
      rfl
    rw [flatMap_star (parensPattern_takes _), flatMap_parens hr hv,
      closes _ (by simp [Way.andThen]), List.append_nil, opened]
    rcases hv.paren_cases with rfl | ⟨v, rfl⟩ | ⟨v, rfl⟩
    · rfl
    · rfl
    · have shorter : v.length < t.length := by
        rw [heq]
        simp only [List.length_append, List.length_cons]
        omega
      let parens : Way := .andThen ⟨'(' :: r, ')' :: v, []⟩ ⟨[')'], v, []⟩
      have rest := flatMap_arguments v
        (f := fun w => f (.andThen ⟨s, '(' :: (r ++ ')' :: v), []⟩ (parens.andThen w)))
        fun w hw => closes _ hw
      have closed : callBody true (')' :: v) =
          (callBody false v).map fun found => (')' :: found.1, found.2) := rfl
      rw [argumentsPattern, flatMap_seq] at rest
      rw [flatMap_exactly_cons, closed]
      simp only [← Way.andThen_assoc, Way.rest_andThen, parens] at rest ⊢
      rw [rest]
      cases callBody false v with
      | none => rfl
      | some found => simp [Way.andThen]
  · rw [flatMap_star_parens_of_ne (by simp)]
    simp [callBody, Way.andThen]
termination_by t.length

end Arguments

end Ways

/-! ## Calls -/

section Calls

variable {w t : Text}

/-- A word is matched with the arguments that `callBody` finds behind it, or not at all. -/
theorem callPattern_ways_paren (hw : Word w) (t : Text) : callPattern.ways (w ++ '(' :: t) =
    (callBody false t).toList.map fun found =>
      ⟨w ++ '(' :: (found.1 ++ [')']), found.2, [(2, found.1), (1, w)]⟩ := by
  rw [← List.flatMap_singleton' (callPattern.ways (w ++ '(' :: t)), callPattern, flatMap_seq,
    flatMap_group, flatMap_word hw (stops_cons (by decide) t)]
  · rw [flatMap_seq, flatMap_exactly_cons, flatMap_seq, flatMap_group, flatMap_arguments]
    · cases callBody false t with
      | none => rfl
      | some found =>
        simp [Way.andThen, flatMap_exactly_cons]
    · intro v hv
      exact flatMap_exactly_of_ne hv
  · intro v hv
    rw [flatMap_seq, flatMap_exactly_of_ne (head?_ne (by decide) hv)]

/-- A word without a parenthesis behind it is not matched. -/
theorem callPattern_ways_word (hw : Word w) (ht : Apart t) : callPattern.ways (w ++ t) = [] := by
  have paren : t.head? ≠ some '(' := fun same => (ht '(' same).2 rfl
  rw [← List.flatMap_singleton' (callPattern.ways (w ++ t)), callPattern, flatMap_seq,
    flatMap_group, flatMap_word hw fun c hc => (ht c hc).1]
  · rw [flatMap_seq, flatMap_exactly_of_ne paren]
  · intro v hv
    rw [flatMap_seq, flatMap_exactly_of_ne (head?_ne (by decide) hv)]

theorem callPattern_ways_mark (ht : Stops isWordChar t) : callPattern.ways t = [] := by
  rw [callPattern, ways, ways, plus, ways, char_ways_of_stops ht]
  rfl

variable {write : Way → Text}

theorem replaceAll_cons_of_none {p : Pattern} {c : Char} (h : p.ways (c :: t) = []) :
    p.replaceAll write (c :: t) = c :: p.replaceAll write t := by
  rw [replaceAll, h]
  rfl

theorem replaceAll_of_cons {p : Pattern} {first : Way} {others : List Way}
    (h : p.ways t = first :: others) (takes : first.rest.length < t.length) :
    p.replaceAll write t = write first ++ p.replaceAll write first.rest := by
  cases t with
  | nil => exact absurd takes (Nat.not_lt_zero _)
  | cons c t =>
    rw [replaceAll, h]
    exact dif_pos takes

/-- If no end of a word is matched, the word stays. -/
theorem replaceAll_word (h : ∀ v, Word v → callPattern.ways (v ++ t) = [])
    (hw : ∀ c ∈ w, isWordChar c = true) :
    callPattern.replaceAll write (w ++ t) = w ++ callPattern.replaceAll write t := by
  induction w with
  | nil => rfl
  | cons c w ih =>
    have none := h (c :: w) ⟨List.cons_ne_nil c w, hw⟩
    rw [List.cons_append] at none ⊢
    rw [replaceAll_cons_of_none none, ih fun d hd => hw d (List.mem_cons_of_mem c hd)]
    rfl

/-- **Replacing the matches of the pattern is rewriting the calls of the scan**, whatever a call is
rewritten to. -/
theorem replaceAll_callPattern (render : Text → Text → Text) (t : Text) :
    callPattern.replaceAll (fun w => render (w.captured 1) (w.captured 2)) t =
      (stretches t).flatMap (Stretch.write render) := by
  induction t using callInduction with
  | nil => rw [stretches_nil, replaceAll, List.flatMap_nil]
  | mark c t hc ih =>
    rw [stretches_cons hc, replaceAll_cons_of_none (callPattern_ways_mark (stops_cons hc t)), ih]
    rfl
  | word w t hw ht ih =>
    rw [stretches_word hw ht, replaceAll_word (fun v hv => callPattern_ways_word hv ht) hw.all, ih,
      List.flatMap_append, Stretch.flatMap_write_copied]
  | call w t arguments rest hw h ih =>
    have first := callPattern_ways_paren hw t
    rw [h] at first
    rw [stretches_call hw h, replaceAll_of_cons first, ih]
    · rfl
    · have := callBody_length h
      simp only [List.length_append, List.length_cons]
      omega
  | opened w t hw h ih =>
    have none (v : Text) (hv : Word v) : callPattern.ways (v ++ '(' :: t) = [] := by
      rw [callPattern_ways_paren hv, h]
      rfl
    rw [stretches_opened hw h, replaceAll_word none hw.all, replaceAll_cons_of_none
      (callPattern_ways_mark (stops_cons (by decide) t)), ih, List.flatMap_append,
      Stretch.flatMap_write_copied, List.append_assoc]
    rfl

end Calls

/-- Nothing else than expansion replaces each match by its call with the arguments rewritten in the
same way: the arguments are always shorter than the text. -/
theorem eq_expandCalls {f : Text → Text} (h : ∀ t, f t = callPattern.replaceAll
    (fun w => renderCall (w.captured 1) (pieces (f (w.captured 2)))) t) (t : Text) :
    f t = expandCalls t := by
  rw [h, replaceAll_callPattern fun name arguments => renderCall name (pieces (f arguments)),
    expandCalls_eq_stretches]
  refine List.flatMap_congr fun stretch part => ?_
  cases stretch with
  | copied c => rfl
  | call name arguments =>
    have shorter := length_of_mem_stretches part
    show renderCall name (pieces (f arguments)) = expandCall name arguments
    rw [eq_expandCalls h arguments]
    rfl
termination_by t.length

/-- **Expansion replaces the calls that the pattern matches, and these are the calls of a scan that
counts parentheses.** The stretches of the scan make up the text. A call that is inside of no call
with flat arguments is rewritten at its place, once, if its own arguments are flat; if not, its name
and its parentheses stay around what becomes of its arguments. The arguments of a call that is
rewritten are shorter than the text, so rewriting these in turn comes to an end, and there is one
result only. -/
theorem expandCalls_scan (t : Text) :
    (∀ render : Text → Text → Text,
      callPattern.replaceAll (fun w => render (w.captured 1) (w.captured 2)) t =
        (stretches t).flatMap (Stretch.write render)) ∧
    expandCalls t =
      callPattern.replaceAll (fun w => expandCall (w.captured 1) (w.captured 2)) t ∧
    (stretches t).flatMap Stretch.source = t ∧
    (∀ before name arguments after, CallAt t before name arguments after →
      ¬ InsideFlat t before after → stretches t = stretches before ++
        ((if deepest 0 arguments ≤ 1 then [.call name arguments]
          else (name ++ ['(']).map .copied ++ stretches arguments ++ [.copied ')']) ++
          stretches after)) ∧
    (∀ name arguments, .call name arguments ∈ stretches t → arguments.length < t.length) ∧
    ∀ f : Text → Text, (∀ u, f u = callPattern.replaceAll
        (fun w => renderCall (w.captured 1) (pieces (f (w.captured 2)))) u) →
      f t = expandCalls t :=
  ⟨fun render => replaceAll_callPattern render t,
    (expandCalls_eq_stretches t).trans (replaceAll_callPattern expandCall t).symm,
    flatMap_source_stretches t, fun _ _ _ _ h outer => h.stretches_eq outer,
    fun _ _ h => length_of_mem_stretches h, fun _ h => eq_expandCalls h t⟩

/-- A call with deeper parentheses keeps its name, and the call in its arguments is rewritten. -/
theorem expandCalls_scan_inner : expandCalls "outer(sum((a)))".toList =
    "outer(".toList ++ (expandCall "sum".toList "(a)".toList ++ ")".toList) := by
  have word (name : Text) (nonempty : name ≠ []) (all : name.all isWordChar = true) : Word name :=
    ⟨nonempty, List.all_eq_true.1 all⟩
  have first (t after : Text) : ¬ InsideFlat t [] after := by
    rintro ⟨before, name, arguments, rest, -, -, begins, -⟩
    have empty := List.prefix_nil.1 begins
    simp at empty
  obtain ⟨-, -, -, outer, -⟩ := expandCalls_scan "outer(sum((a)))".toList
  obtain ⟨-, -, -, inner, -⟩ := expandCalls_scan "sum((a))".toList
  have outer := outer [] "outer".toList "sum((a))".toList []
    ⟨rfl, word _ (by decide) (by decide +kernel), nofun, by decide⟩ (first _ _)
  have inner := inner [] "sum".toList "(a)".toList []
    ⟨rfl, word _ (by decide) (by decide +kernel), nofun, by decide⟩ (first _ _)
  rw [if_neg (by decide), stretches_nil] at outer
  rw [if_pos (by decide), stretches_nil] at inner
  rw [expandCalls_eq_stretches, outer, inner]
  rfl

end DashCalc.Formula
