import DashCalc.Proofs.Formula.Rendering

/-!
# Texts with a quoted run left open

A template is a text in which some quoted runs are taken as a whole; one of them may be left open,
at any number of places. Cutting a text does not look into such runs, so it cuts a filled template
into filled templates, whatever the run is: into pieces (`uniformList_pieces`) and into the items of
a list (`uniformList_listItems`).

This needs that quotes are told apart right. If all quotes of the template belong to its runs
(`paired`), runs may hold commas and square brackets; if not, a run may be taken for what stands
outside quotes, and must not hold any of these, nor other quotes (`Sealed`).
-/

namespace DashCalc.Formula

open Text (isBlank)

/-! ## Templates -/

/-- A character, or a quoted run: a known one, or the one that is left open. -/
inductive Atom
  | char (c : Char)
  | run (known : Option Text)

abbrev Template := List Atom

namespace Atom

/-- The text of an atom, with a text for the run that is left open. -/
def text (x : Text) : Atom → Text
  | char c => [c]
  | run known => known.getD x

/-- Whether an atom is a blank. -/
def isBlank : Atom → Bool
  | char c => Text.isBlank c
  | run _ => false

end Atom

/-- The template with a text for the run that is left open. -/
def fill (x : Text) (T : Template) : Text := T.flatMap (Atom.text x)

theorem fill_append (x : Text) (S T : Template) : fill x (S ++ T) = fill x S ++ fill x T :=
  List.flatMap_append

theorem fill_cons (x : Text) (a : Atom) (T : Template) :
    fill x (a :: T) = a.text x ++ fill x T := List.flatMap_cons

theorem fill_chars (x t : Text) : fill x (t.map .char) = t := by
  unfold fill
  rw [List.flatMap_map]
  exact List.flatMap_singleton' t

/-- Whether no quote stands in a text. -/
def NoQuote (t : Text) : Prop := ∀ c ∈ t, Nesting.isQuote c = false

instance (t : Text) : Decidable (NoQuote t) :=
  decidable_of_iff (t.all fun c => !Nesting.isQuote c) (by simp [NoQuote])

/-- Whether a text is a quoted run without parentheses. If it may be taken for a text outside
quotes, it holds no commas, square brackets or other quotes either. -/
def Sealed (paired : Prop) (x : Text) : Prop :=
  ∃ q s, x = q :: (s ++ [q]) ∧ Nesting.isQuote q = true ∧
    (∀ c ∈ s, c ≠ q ∧ c ≠ '(' ∧ c ≠ ')') ∧ (paired ∨ ∀ c ∈ s, isPlain c = true)

/-- Whether the known runs of an atom are sealed, and it is no quote by itself if quotes are
paired. -/
def Atom.Sound (paired : Prop) : Atom → Prop
  | .char c => paired → Nesting.isQuote c = false
  | .run known => ∀ x ∈ known, Sealed paired x

def Sound (paired : Prop) (T : Template) : Prop := ∀ a ∈ T, a.Sound paired

section Sealed

variable {paired : Prop} {x : Text}

theorem Sealed.first (h : Sealed paired x) : ∃ q t, x = q :: t ∧ Nesting.isQuote q = true := by
  obtain ⟨q, s, rfl, quote, -⟩ := h
  exact ⟨q, _, rfl, quote⟩

theorem Sealed.reverse (h : Sealed paired x) : Sealed paired x.reverse := by
  obtain ⟨q, s, rfl, quote, closed, plain⟩ := h
  refine ⟨q, s.reverse, ?_, quote, fun c hc => closed c (List.mem_reverse.1 hc),
    plain.imp_right fun h c hc => h c (List.mem_reverse.1 hc)⟩
  rw [List.reverse_cons, List.reverse_concat, List.cons_append]

theorem Sealed.noParen (h : Sealed paired x) : ∀ c ∈ x, c ≠ '(' ∧ c ≠ ')' := by
  obtain ⟨q, s, rfl, quote, closed, -⟩ := h
  have ends := ne_paren_of_isBracket (isBracket_of_isQuote quote)
  intro c hc
  rw [List.mem_cons, List.mem_append, List.mem_singleton] at hc
  rcases hc with rfl | hc | rfl
  · exact ends
  · exact (closed c hc).2
  · exact ends

theorem Atom.Sound.sealed {known : Option Text} (h : (run known).Sound paired)
    (hx : Sealed paired x) : Sealed paired ((run known).text x) := by
  cases known with
  | none => exact hx
  | some y => exact h y rfl

theorem sound_chars {t : Text} (h : NoQuote t) : Sound paired (t.map .char) := by
  intro a ha
  obtain ⟨c, hc, rfl⟩ := List.mem_map.1 ha
  exact fun _ => h c hc

theorem Sound.append {S T : Template} (hS : Sound paired S) (hT : Sound paired T) :
    Sound paired (S ++ T) := fun a ha => (List.mem_append.1 ha).elim (hS a) (hT a)

theorem Sound.subset {S T : Template} (hT : Sound paired T) (h : S ⊆ T) : Sound paired S :=
  fun a ha => hT a (h ha)

end Sealed

/-! ## Texts that are filled templates -/

/-- Whether what depends on a sealed run is a filled template. -/
def Uniform (paired : Prop) (f : Text → Text) : Prop :=
  ∃ T, Sound paired T ∧ ∀ x, Sealed paired x → f x = fill x T

/-- Whether what depends on a sealed run is a list of filled templates. -/
def UniformList (paired : Prop) (f : Text → List Text) : Prop :=
  ∃ Ts : List Template, (∀ T ∈ Ts, Sound paired T) ∧
    ∀ x, Sealed paired x → f x = Ts.map (fill x)

section Uniform

variable {paired : Prop} {f g : Text → Text} {fs : Text → List Text}

theorem uniform_fill {T : Template} (h : Sound paired T) : Uniform paired fun x => fill x T :=
  ⟨T, h, fun _ _ => rfl⟩

theorem Uniform.congr (hf : Uniform paired f) (h : ∀ x, Sealed paired x → g x = f x) :
    Uniform paired g := by
  obtain ⟨T, sound, hT⟩ := hf
  exact ⟨T, sound, fun x hx => (h x hx).trans (hT x hx)⟩

theorem uniform_nil : Uniform paired fun _ => [] :=
  ⟨[], fun _ h => (nomatch h), fun _ _ => rfl⟩

theorem uniform_text {t : Text} (h : NoQuote t) : Uniform paired fun _ => t := by
  refine ⟨t.map .char, sound_chars h, fun x _ => ?_⟩
  rw [fill_chars]

theorem uniform_run {known : Option Text} (h : (Atom.run known).Sound paired) :
    Uniform paired (Atom.text · (.run known)) := by
  refine ⟨[.run known], List.forall_mem_singleton.2 h, fun x _ => ?_⟩
  rw [fill_cons]
  exact (List.append_nil _).symm

theorem Uniform.append (hf : Uniform paired f) (hg : Uniform paired g) :
    Uniform paired fun x => f x ++ g x := by
  obtain ⟨S, hS, hf⟩ := hf
  obtain ⟨T, hT, hg⟩ := hg
  refine ⟨S ++ T, hS.append hT, fun x hx => ?_⟩
  dsimp only
  rw [hf x hx, hg x hx, fill_append]

theorem uniformList_nil : UniformList paired fun _ => [] :=
  ⟨[], fun _ h => (nomatch h), fun _ _ => rfl⟩

theorem UniformList.cons (hf : Uniform paired f) (hfs : UniformList paired fs) :
    UniformList paired fun x => f x :: fs x := by
  obtain ⟨T, hT, hf⟩ := hf
  obtain ⟨Ts, hTs, hfs⟩ := hfs
  refine ⟨T :: Ts, List.forall_mem_cons.2 ⟨hT, hTs⟩, fun x hx => ?_⟩
  dsimp only
  rw [hf x hx, hfs x hx, List.map_cons]

theorem UniformList.append {gs : Text → List Text} (hfs : UniformList paired fs)
    (hgs : UniformList paired gs) : UniformList paired fun x => fs x ++ gs x := by
  obtain ⟨Ss, hSs, hfs⟩ := hfs
  obtain ⟨Ts, hTs, hgs⟩ := hgs
  refine ⟨Ss ++ Ts, fun T hT => (List.mem_append.1 hT).elim (hSs T) (hTs T), fun x hx => ?_⟩
  dsimp only
  rw [hfs x hx, hgs x hx, List.map_append]

theorem UniformList.congr {gs : Text → List Text} (hfs : UniformList paired fs)
    (h : ∀ x, Sealed paired x → gs x = fs x) : UniformList paired gs := by
  obtain ⟨Ts, sound, hTs⟩ := hfs
  exact ⟨Ts, sound, fun x hx => (h x hx).trans (hTs x hx)⟩

/-- What is done to each text of a list may be done to filled templates. -/
theorem UniformList.map {F : Text → Text} (hfs : UniformList paired fs)
    (hF : ∀ T, Sound paired T → Uniform paired fun x => F (fill x T)) :
    UniformList paired fun x => (fs x).map F := by
  obtain ⟨Ts, sound, hTs⟩ := hfs
  have each : UniformList paired fun x => (Ts.map (fill x)).map F := by
    clear hTs
    induction Ts with
    | nil => exact uniformList_nil
    | cons T Ts ih =>
      obtain ⟨hT, hrest⟩ := List.forall_mem_cons.1 sound
      exact .cons (hF T hT) (ih hrest)
  exact each.congr fun x hx => by rw [hTs x hx]

theorem UniformList.take (hfs : UniformList paired fs) (n : Nat) :
    UniformList paired fun x => (fs x).take n := by
  obtain ⟨Ts, sound, hTs⟩ := hfs
  refine ⟨Ts.take n, fun T hT => sound T (List.mem_of_mem_take hT), fun x hx => ?_⟩
  dsimp only
  rw [hTs x hx, List.map_take]

theorem UniformList.joinWith (hfs : UniformList paired fs) (separator : Text)
    (hseparator : NoQuote separator) :
    Uniform paired fun x => Text.joinWith separator (fs x) := by
  obtain ⟨Ts, sound, hTs⟩ := hfs
  refine Uniform.congr (f := fun x => Text.joinWith separator (Ts.map (fill x))) ?_
    fun x hx => by rw [hTs x hx]
  clear hTs
  induction Ts with
  | nil => exact uniform_nil
  | cons T Ts ih =>
    obtain ⟨hT, hrest⟩ := List.forall_mem_cons.1 sound
    cases Ts with
    | nil => exact uniform_fill hT
    | cons S Ts => exact ((uniform_fill hT).append (uniform_text hseparator)).append (ih hrest)

end Uniform

/-! ## Cutting -/

namespace Nesting

/-- Whether the scan can be at the start of a sound template: outside quotes if they are paired. -/
structure Fits (paired : Prop) (n : Nesting) : Prop where
  outside : paired → n.quote = none
  isQuote : ∀ q ∈ n.quote, isQuote q = true

variable {paired : Prop} {n : Nesting}

theorem fits_top : Fits paired top := ⟨fun _ => rfl, fun _ h => nomatch h⟩

theorem Fits.after (h : n.Fits paired) {c : Char} (hc : paired → Nesting.isQuote c = false) :
    (n.after c).Fits paired := by
  obtain ⟨quote, depth⟩ := n
  unfold Nesting.after
  cases quote with
  | some q =>
    have unpaired : ¬ paired := fun hp => nomatch h.outside hp
    dsimp only
    split
    · exact ⟨fun _ => rfl, fun _ h => nomatch h⟩
    · exact h
  | none =>
    dsimp only
    split
    · rename_i quote
      refine ⟨fun hp => ?_, fun q hq => ?_⟩
      · rw [hc hp] at quote
        cases quote
      · cases hq
        exact quote
    · split
      · exact ⟨fun _ => rfl, fun _ h => nomatch h⟩
      · split
        · exact ⟨fun _ => rfl, fun _ h => nomatch h⟩
        · exact h

/-- A quote that comes twice leaves the scan where it was. -/
theorem after_after {q : Char} (hq : Nesting.isQuote q = true) (n : Nesting) :
    (n.after q).after q = n := by
  obtain ⟨quote, depth⟩ := n
  have opens : (Nesting.mk none depth).after q = ⟨some q, depth⟩ := Nested.after_of_isQuote hq depth
  have closes : (Nesting.mk (some q) depth).after q = ⟨none, depth⟩ := if_pos rfl
  cases quote with
  | none => rw [opens, closes]
  | some p =>
    by_cases same : q = p
    · subst same
      rw [closes, opens]
    · have stays : (Nesting.mk (some p) depth).after q = ⟨some p, depth⟩ := if_neg same
      rw [stays, stays]

theorem after_plain {c : Char} (hc : isPlain c = true) (hn : ∀ q ∈ n.quote, isQuote q = true) :
    n.after c = n := by
  obtain ⟨noBracket, noQuote, -⟩ := isPlain_iff.1 hc
  obtain ⟨quote, depth⟩ := n
  cases quote with
  | none => exact Nested.after_of_plain noBracket noQuote depth
  | some q =>
    refine if_neg ?_
    rintro rfl
    rw [hn c rfl] at noQuote
    cases noQuote

end Nesting

section Cutting

variable {paired : Prop} {n : Nesting} {x : Text}

theorem segments_plain {s : Text} (hs : ∀ c ∈ s, isPlain c = true)
    (hn : ∀ q ∈ n.quote, Nesting.isQuote q = true) (w : Text) :
    segments n (s ++ w) = glue s (segments n w) := by
  induction s with
  | nil =>
    rw [List.nil_append]
    cases hw : segments n w with
    | nil => exact absurd hw (segments_ne_nil n w)
    | cons u us => rfl
  | cons c cs ih =>
    have hc := hs c List.mem_cons_self
    rw [List.cons_append, segments_cons (Nested.separates_of_ne (isPlain_iff.1 hc).2.2 n),
      Nesting.after_plain hc hn, ih fun d hd => hs d (List.mem_cons_of_mem c hd), glue_glue]
    rfl

/-- Cutting passes over a sealed run. -/
theorem Sealed.segments_append (hx : Sealed paired x) (hn : n.Fits paired) (w : Text) :
    segments n (x ++ w) = glue x (segments n w) := by
  obtain ⟨q, s, rfl, quote, closed, plain⟩ := hx
  have comma : q ≠ ',' := by
    rintro rfl
    cases quote
  rw [enclosed_concat, segments_cons (Nested.separates_of_ne comma n)]
  have inside : segments (n.after q) (s ++ q :: w) = glue (s ++ [q]) (segments n w) := by
    rcases plain with hp | plain
    · obtain ⟨_, depth⟩ := n
      obtain rfl := hn.outside hp
      rw [Nested.after_of_isQuote quote]
      exact segments_quoted (fun c hc => (closed c hc).1) depth w
    · -- the run may be read from its closing quote on, but has the same effect
      have fits : ∀ p ∈ (n.after q).quote, Nesting.isQuote p = true := by
        have fitsAny : n.Fits False := ⟨fun h => h.elim, hn.isQuote⟩
        exact (fitsAny.after fun h => h.elim).isQuote
      rw [segments_plain plain fits, segments_cons (Nested.separates_of_ne comma _),
        Nesting.after_after quote, glue_glue]
  rw [inside, glue_glue]
  rfl

theorem UniformList.glue {f : Text → Text} {fs : Text → List Text} (hf : Uniform paired f)
    (hfs : UniformList paired fs) : UniformList paired fun x => glue (f x) (fs x) := by
  obtain ⟨Ts, sound, hTs⟩ := hfs
  cases Ts with
  | nil =>
    refine (UniformList.cons hf uniformList_nil).congr fun x hx => ?_
    rw [hTs x hx]
    rfl
  | cons T Ts =>
    obtain ⟨hT, hrest⟩ := List.forall_mem_cons.1 sound
    have rest : UniformList paired fun x => Ts.map (fill x) := ⟨Ts, hrest, fun _ _ => rfl⟩
    refine (UniformList.cons (hf.append (uniform_fill hT)) rest).congr fun x hx => ?_
    rw [hTs x hx]
    rfl

/-- A filled template is cut between its atoms. -/
theorem uniformList_segments {T : Template} (hT : Sound paired T) : ∀ {n : Nesting},
    n.Fits paired → UniformList paired fun x => segments n (fill x T) := by
  induction T with
  | nil =>
    intro n _
    exact .cons uniform_nil uniformList_nil
  | cons a T ih =>
    intro n hn
    obtain ⟨ha, hrest⟩ := List.forall_mem_cons.1 hT
    cases a with
    | char c =>
      by_cases cuts : n.separates c = true
      · refine (UniformList.cons uniform_nil (ih hrest hn)).congr ?_
        exact fun x _ => segments_cons_of_separates cuts _
      · rw [Bool.not_eq_true] at cuts
        have first : Uniform paired fun _ => [c] :=
          uniform_fill (T := [.char c]) (List.forall_mem_singleton.2 ha)
        refine (UniformList.glue first (ih hrest (hn.after ha))).congr ?_
        exact fun x _ => segments_cons cuts _
    | run known =>
      refine (UniformList.glue (uniform_run ha) (ih hrest hn)).congr fun x hx => ?_
      rw [fill_cons, (ha.sealed hx).segments_append hn]

/-! ### Trimming -/

theorem isBlank_false_of_isQuote {q : Char} (h : Nesting.isQuote q = true) : isBlank q = false := by
  rw [← Bool.not_eq_true]
  intro blank
  rw [Nested.isQuote_of_isBlank blank] at h
  cases h

/-- Blanks at the start of a text of atoms are atoms. -/
theorem dropWhile_flatMap {text : Atom → Text} {T : Template}
    (hchar : ∀ c, text (.char c) = [c])
    (hrun : ∀ known, .run known ∈ T → Sealed paired (text (.run known))) :
    (T.flatMap text).dropWhile isBlank = (T.dropWhile Atom.isBlank).flatMap text := by
  induction T with
  | nil => rfl
  | cons a T ih =>
    rw [List.flatMap_cons]
    cases a with
    | char c =>
      rw [hchar, List.singleton_append]
      by_cases blank : isBlank c = true
      · rw [List.dropWhile_cons_of_pos blank,
          List.dropWhile_cons_of_pos (p := Atom.isBlank) (a := .char c) blank]
        exact ih fun known h => hrun known (List.mem_cons_of_mem _ h)
      · rw [List.dropWhile_cons_of_neg blank,
          List.dropWhile_cons_of_neg (p := Atom.isBlank) (a := .char c) blank, List.flatMap_cons,
          hchar, List.singleton_append]
    | run known =>
      obtain ⟨q, t, hq, quote⟩ := (hrun known List.mem_cons_self).first
      have noBlank : ¬ isBlank q = true := by
        rw [isBlank_false_of_isQuote quote]
        exact Bool.false_ne_true
      rw [List.dropWhile_cons_of_neg (p := Atom.isBlank) (a := .run known) Bool.false_ne_true,
        List.flatMap_cons, hq, List.cons_append, List.dropWhile_cons_of_neg noBlank]

theorem uniform_trim {T : Template} (hT : Sound paired T) :
    Uniform paired fun x => Text.trim (fill x T) := by
  let S : Template := T.dropWhile Atom.isBlank
  have hS : S ⊆ T := (List.dropWhile_sublist _).subset
  refine ⟨(S.reverse.dropWhile Atom.isBlank).reverse, hT.subset fun a ha => ?_, fun x hx => ?_⟩
  · exact hS (List.mem_reverse.1 ((List.dropWhile_sublist _).subset (List.mem_reverse.1 ha)))
  · have atStart : (fill x T).dropWhile isBlank = fill x S :=
      dropWhile_flatMap (fun _ => rfl) fun known h => (hT _ h).sealed hx
    have atEnd : (S.reverse.flatMap (List.reverse ∘ Atom.text x)).dropWhile isBlank =
        (S.reverse.dropWhile Atom.isBlank).flatMap (List.reverse ∘ Atom.text x) :=
      dropWhile_flatMap (fun _ => rfl) fun known h =>
        ((hT _ (hS (List.mem_reverse.1 h))).sealed hx).reverse
    show (((fill x T).dropWhile isBlank).reverse.dropWhile isBlank).reverse = _
    rw [atStart, fill, List.reverse_flatMap, atEnd, List.reverse_flatMap]
    refine congrArg (List.flatMap · _) (funext fun a => ?_)
    exact List.reverse_reverse _

theorem isBlankText_fill {T : Template} (hT : Sound paired T) (hx : Sealed paired x) :
    Text.isBlankText (fill x T) = T.all Atom.isBlank := by
  unfold Text.isBlankText
  induction T with
  | nil => rfl
  | cons a T ih =>
    obtain ⟨ha, hrest⟩ := List.forall_mem_cons.1 hT
    rw [fill_cons, List.all_append, List.all_cons, ih hrest]
    refine congrArg (· && T.all Atom.isBlank) ?_
    cases a with
    | char c => exact Bool.and_true _
    | run known =>
      obtain ⟨q, t, hq, quote⟩ := (ha.sealed hx).first
      rw [hq, List.all_cons, isBlank_false_of_isQuote quote]
      rfl

/-- The pieces of a filled template are filled templates. -/
theorem uniformList_pieces {T : Template} (hT : Sound paired T) :
    UniformList paired fun x => pieces (fill x T) := by
  have cut := (uniformList_segments hT Nesting.fits_top).map fun S hS => uniform_trim hS
  by_cases blank : T.all Atom.isBlank = true
  · refine uniformList_nil.congr fun x hx => pieces_of_isBlankText ?_
    rw [isBlankText_fill hT hx, blank]
  · refine cut.congr fun x hx => if_neg ?_
    rwa [isBlankText_fill hT hx]

/-! ### Bracketed lists -/

theorem isEmpty_fill {T : Template} (hT : Sound paired T) (hx : Sealed paired x) :
    (fill x T).isEmpty = T.isEmpty := by
  cases T with
  | nil => rfl
  | cons a T =>
    rw [fill_cons]
    cases a with
    | char c => rfl
    | run known =>
      obtain ⟨q, t, hq, -⟩ := ((List.forall_mem_cons.1 hT).1.sealed hx).first
      rw [hq]
      rfl

theorem head?_text {a : Atom} (ha : a.Sound paired) (hx : Sealed paired x) {d : Char}
    (hd : Nesting.isQuote d = false) (h : a ≠ .char d) (t : Text) :
    (a.text x ++ t).head? ≠ some d := by
  intro first
  cases a with
  | char c => exact h (congrArg Atom.char (Option.some.inj first))
  | run known =>
    obtain ⟨q, u, hq, quote⟩ := (ha.sealed hx).first
    rw [hq] at first
    obtain rfl : q = d := Option.some.inj first
    rw [hd] at quote
    cases quote

theorem getLast?_text {a : Atom} (ha : a.Sound paired) (hx : Sealed paired x) {d : Char}
    (hd : Nesting.isQuote d = false) (h : a ≠ .char d) (t : Text) :
    (t ++ a.text x).getLast? ≠ some d := by
  rw [← List.head?_reverse, List.reverse_append]
  cases a with
  | char c => exact fun last => h (congrArg Atom.char (Option.some.inj last))
  | run known =>
    have reversed : (Atom.run (some ((Atom.run known).text x).reverse)).Sound paired := by
      rintro _ ⟨⟩
      exact (ha.sealed hx).reverse
    exact head?_text reversed hx hd nofun _

/-- A filled template is a bracketed list only if its brackets are characters of the template. -/
theorem isBracketed_fill {T : Template} (hT : Sound paired T) :
    (∀ x, Sealed paired x → isBracketed (fill x T) = false) ∨
      ∃ M : Template, T = .char '[' :: (M ++ [.char ']']) := by
  cases T with
  | nil => exact .inl fun _ _ => rfl
  | cons a T =>
    obtain ⟨ha, hrest⟩ := List.forall_mem_cons.1 hT
    by_cases first : a = .char '['
    · subst first
      rcases List.eq_nil_or_concat T with rfl | ⟨M, b, rfl⟩
      · exact .inl fun _ _ => rfl
      · rw [List.concat_eq_append] at hrest ⊢
        by_cases last : b = .char ']'
        · exact .inr ⟨M, by rw [last]⟩
        · refine .inl fun x hx => ?_
          have hb := hrest b (List.mem_append_right M (List.mem_singleton_self b))
          have ends := getLast?_text hb hx (by decide) last ('[' :: fill x M)
          have whole : fill x (.char '[' :: (M ++ [b])) = '[' :: fill x M ++ b.text x := by
            rw [fill_cons, fill_append, fill_cons, ← List.append_assoc]
            exact congrArg _ (List.append_nil _)
          unfold isBracketed
          rw [whole, decide_eq_false ends, Bool.and_false]
    · refine .inl fun x hx => ?_
      unfold isBracketed
      rw [fill_cons, decide_eq_false (head?_text ha hx (by decide) first _), Bool.false_and]

theorem fill_brackets (x : Text) (M : Template) :
    fill x (.char '[' :: (M ++ [.char ']'])) = '[' :: (fill x M ++ [']']) := by
  rw [fill_cons, fill_append]
  rfl

theorem UniformList.nonempty {fs : Text → List Text} (hfs : UniformList paired fs) :
    UniformList paired fun x => (fs x).filter (!·.isEmpty) := by
  obtain ⟨Ts, sound, hTs⟩ := hfs
  refine ⟨Ts.filter (!·.isEmpty), fun T hT => sound T (List.mem_filter.1 hT).1, fun x hx => ?_⟩
  dsimp only
  rw [hTs x hx, List.filter_map]
  refine congrArg (List.map _) (List.filter_congr fun T hT => ?_)
  exact congrArg not (isEmpty_fill (sound T hT) hx)

theorem uniformList_listItems {T : Template} (hT : Sound paired T) :
    UniformList paired fun x => listItems (fill x T) := by
  rcases isBracketed_fill hT with bare | ⟨M, rfl⟩
  · exact (uniformList_pieces hT).nonempty.congr fun x hx => listItems_of_bare (bare x hx)
  · have hM : Sound paired M := hT.subset fun a ha =>
      List.mem_cons_of_mem _ (List.mem_append_left _ ha)
    refine (uniformList_pieces hM).nonempty.congr fun x hx => ?_
    rw [fill_brackets, listItems_brackets]

/-! ### Partition entries -/

theorem chars_or_run (T : Template) : (∃ t : Text, T = t.map .char) ∨ ∃ known, .run known ∈ T := by
  induction T with
  | nil => exact .inl ⟨[], rfl⟩
  | cons a T ih =>
    cases a with
    | run known => exact .inr ⟨known, List.mem_cons_self⟩
    | char c =>
      rcases ih with ⟨t, rfl⟩ | ⟨known, h⟩
      · exact .inl ⟨c :: t, rfl⟩
      · exact .inr ⟨known, List.mem_cons_of_mem _ h⟩

/-- A partition entry that gets backticks has no run, and is a run itself from then on. -/
theorem uniform_partitionItem {T : Template} (hT : Sound paired T) :
    Uniform paired fun x => partitionItem (fill x T) := by
  rcases chars_or_run T with ⟨t, rfl⟩ | ⟨known, hmem⟩
  · by_cases plain : isPlainName t = true
    · have chars := isPlain_of_isPlainName plain
      have quoted : Sealed paired (backtick :: (t ++ [backtick])) := by
        refine ⟨backtick, t, rfl, by decide, fun c hc => ?_, .inr chars⟩
        obtain ⟨noBracket, noQuote, -⟩ := isPlain_iff.1 (chars c hc)
        refine ⟨?_, ne_paren_of_isBracket noBracket⟩
        rintro rfl
        cases noQuote
      have sound : (Atom.run (some (backtick :: (t ++ [backtick])))).Sound paired := by
        rintro _ ⟨⟩
        exact quoted
      refine (uniform_run sound).congr fun x _ => ?_
      rw [fill_chars]
      exact if_pos plain
    · refine (uniform_fill hT).congr fun x _ => ?_
      rw [fill_chars]
      exact if_neg plain
  · refine (uniform_fill hT).congr fun x hx => if_neg fun plain => ?_
    obtain ⟨q, t, hq, quote⟩ := ((hT _ hmem).sealed hx).first
    have mem : q ∈ fill x T := by
      refine List.mem_flatMap.2 ⟨_, hmem, ?_⟩
      rw [hq]
      exact List.mem_cons_self
    obtain ⟨-, noQuote, -⟩ := isPlain_iff.1 (isPlain_of_isPlainName plain q mem)
    rw [noQuote] at quote
    cases quote

end Cutting

end DashCalc.Formula
