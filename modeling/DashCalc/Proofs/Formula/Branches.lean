import DashCalc.Proofs.Formula.Cutting
import DashCalc.Proofs.Formula.Rendering

/-!
# Conditions with many branches

A chain of conditions and results is folded into conditions with two branches each, written one in
the other. The text can be read back level by level, by cutting what stands between `ifelse(` and
the closing parenthesis, and the nested conditions select what the chain selects: the result of the
first condition that is true (`foldIfElse_branches`).

What makes this work is that an argument is passed over at any depth (`IsArgument.passed`): it
never closes a bracket that it has not opened. So the commas of a level are found, and no others.
-/

namespace DashCalc.Formula

open Text (Tight)

/-! ## Arguments -/

/-- Whether a text can be an argument: not empty, trimmed, level, never with more brackets closed
than opened, and with no comma where it is level. Brackets of both kinds count alike. -/
structure IsArgument (t : Text) : Prop where
  nonempty : t ≠ []
  trimmed : Text.trim t = t
  level : IsLevel t
  nested : ∀ before after kept, t = before ++ after → Outside before kept →
    kept.countP isClosing ≤ kept.countP isOpening
  commas : ∀ before after, t = before ++ ',' :: after → ¬ IsLevel before

/-- `IsArgument` for what is left of a text, as a test of the scan. -/
def stays (n : Nesting) : Text → Bool
  | [] => n = .top
  | c :: cs => !n.separates c && 0 ≤ (n.after c).depth && stays (n.after c) cs

section Scan

variable {n : Nesting} {s t : Text} {c : Char}

theorem stays_iff (hn : 0 ≤ n.depth) : stays n t = true ↔ t.foldl Nesting.after n = .top ∧
    Uncut n t ∧ ∀ before after, t = before ++ after → 0 ≤ (before.foldl Nesting.after n).depth := by
  induction t generalizing n with
  | nil =>
    simp only [stays, decide_eq_true_eq, List.foldl_nil]
    constructor
    · rintro rfl
      refine ⟨rfl, fun before after heq => by simp at heq, fun before after heq => ?_⟩
      rw [(List.append_eq_nil_iff.1 heq.symm).1]
      exact hn
    · exact fun h => h.1
  | cons c t ih =>
    simp only [stays, Bool.and_eq_true, Bool.not_eq_true', decide_eq_true_eq, uncut_cons,
      List.foldl_cons]
    constructor
    · rintro ⟨⟨passes, deep⟩, h⟩
      obtain ⟨ends, huncut, hdeep⟩ := (ih deep).1 h
      refine ⟨ends, ⟨passes, huncut⟩, ?_⟩
      rintro (_ | ⟨d, before⟩) after heq
      · exact hn
      · rw [List.cons_append, List.cons.injEq] at heq
        obtain ⟨rfl, heq⟩ := heq
        exact hdeep before after heq
    · rintro ⟨ends, ⟨passes, huncut⟩, hdeep⟩
      have deep : 0 ≤ (n.after c).depth := hdeep [c] t rfl
      refine ⟨⟨passes, deep⟩, (ih deep).2 ⟨ends, huncut, fun before after heq => ?_⟩⟩
      exact hdeep (c :: before) after (by rw [heq, List.cons_append])

theorem isArgument_iff : IsArgument t ↔ t ≠ [] ∧ Text.trim t = t ∧ stays .top t = true := by
  rw [stays_iff (Int.le_refl 0)]
  constructor
  · intro h
    refine ⟨h.nonempty, h.trimmed, isLevel_iff.1 h.level, ?_, ?_⟩
    · exact fun before after heq top => h.commas before after heq (isLevel_iff.2 top)
    · intro before after heq
      rcases outside_or_opened before with ⟨kept, hkept⟩ | ⟨s, kept, q, run, hs, quote, inside, rfl⟩
      · have := h.nested before after kept heq hkept
        simp only [hkept.foldl_after]
        omega
      · have := h.nested s (q :: run ++ after) kept (by simp [heq]) hs
        simp only [List.foldl_append, hs.foldl_after, foldl_after_opened quote inside]
        omega
  · rintro ⟨nonempty, trimmed, ends, huncut, hdeep⟩
    refine ⟨nonempty, trimmed, isLevel_iff.2 ends, ?_, ?_⟩
    · intro before after kept heq hkept
      have deep := hdeep before after heq
      simp only [hkept.foldl_after] at deep
      omega
    · exact fun before after heq level => huncut before after heq (isLevel_iff.1 level)

instance (t : Text) : Decidable (IsArgument t) := decidable_of_iff _ isArgument_iff.symm

theorem IsArgument.tight (h : IsArgument t) : Tight t :=
  Text.tight_of_trim_eq h.nonempty h.trimmed

/-! ## Passing over -/

/-- The nesting inside so many more brackets. -/
def Nesting.deeper (n : Nesting) (d : Int) : Nesting := ⟨n.quote, n.depth + d⟩

theorem after_deeper (d : Int) : (n.deeper d).after c = (n.after c).deeper d := by
  obtain ⟨quote | q, depth⟩ := n
  · simp only [Nesting.deeper, Nesting.after]
    split
    · rfl
    · split
      · simp only [Nesting.mk.injEq, true_and]
        omega
      · split
        · simp only [Nesting.mk.injEq, true_and]
          omega
        · rfl
  · simp only [Nesting.deeper, Nesting.after]
    split <;> rfl

/-- Whether the scan, outside quotes and at least so deep, passes over a text without a cut and ends
as deep as before. -/
def Passed (least : Int) (t : Text) : Prop :=
  ∀ d, least ≤ d → t.foldl Nesting.after ⟨none, d⟩ = ⟨none, d⟩ ∧ Uncut ⟨none, d⟩ t

theorem passed_of_stays (hn : 0 ≤ n.depth) (h : stays n t = true) {d : Int} (hd : 0 ≤ d) :
    t.foldl Nesting.after (n.deeper d) = ⟨none, d⟩ ∧ Uncut (n.deeper d) t := by
  induction t generalizing n with
  | nil =>
    obtain rfl : n = .top := of_decide_eq_true h
    refine ⟨?_, fun before after heq => by simp at heq⟩
    simp [Nesting.deeper, Nesting.top]
  | cons c t ih =>
    simp only [stays, Bool.and_eq_true, Bool.not_eq_true', decide_eq_true_eq] at h
    obtain ⟨⟨passes, deep⟩, h⟩ := h
    have below := ih deep h
    rw [List.foldl_cons, uncut_cons, after_deeper]
    refine ⟨below.1, ?_, below.2⟩
    -- a comma that separates further down would separate at the top as well
    by_contra separates
    obtain ⟨top, rfl⟩ := eq_top_of_separates (Bool.not_eq_false _ ▸ separates)
    obtain ⟨quote, depth⟩ := n
    simp only [Nesting.deeper, Nesting.top, Nesting.mk.injEq] at top hn
    obtain ⟨rfl, zero⟩ := top
    obtain rfl : depth = 0 := by omega
    cases passes

theorem IsArgument.passed (h : IsArgument t) : Passed 0 t := by
  intro d hd
  have all := passed_of_stays (Int.le_refl 0) (isArgument_iff.1 h).2.2 hd
  simpa [Nesting.deeper, Nesting.top] using all

namespace Passed

variable {least : Int}

theorem mono {more : Int} (h : Passed least t) (hle : least ≤ more) : Passed more t :=
  fun d hd => h d (Int.le_trans hle hd)

theorem append (hs : Passed least s) (ht : Passed least t) : Passed least (s ++ t) := by
  intro d hd
  obtain ⟨hends, huncut⟩ := hs d hd
  refine ⟨?_, huncut.append ?_⟩
  · rw [List.foldl_append, hends, (ht d hd).1]
  · rw [hends]
    exact (ht d hd).2

/-- Outside brackets, only a comma is not passed over. -/
theorem of_all (h : (t.all fun c => !isBracket c && !Nesting.isQuote c) = true)
    (commas : ',' ∈ t → 0 < least) : Passed least t := by
  intro d hd
  induction t with
  | nil => exact ⟨rfl, fun before after heq => by simp at heq⟩
  | cons c t ih =>
    simp only [List.all_cons, Bool.and_eq_true, Bool.not_eq_true'] at h
    obtain ⟨⟨noBracket, noQuote⟩, hrest⟩ := h
    rw [List.foldl_cons, uncut_cons, Nested.after_of_plain noBracket noQuote]
    obtain ⟨ends, huncut⟩ := ih hrest fun hmem => commas (List.mem_cons_of_mem c hmem)
    refine ⟨ends, ?_, huncut⟩
    by_contra separates
    obtain ⟨top, rfl⟩ := eq_top_of_separates (Bool.not_eq_false _ ▸ separates)
    have := commas List.mem_cons_self
    simp only [Nesting.top, Nesting.mk.injEq, true_and] at top
    omega

theorem parens (h : Passed 1 t) : Passed 0 ('(' :: (t ++ [')'])) := by
  intro d hd
  have opens : (Nesting.mk none d).after '(' = ⟨none, d + 1⟩ := rfl
  have closes : (Nesting.mk none (d + 1)).after ')' = ⟨none, d⟩ := by
    show Nesting.mk none (d + 1 - 1) = _
    rw [Int.add_sub_cancel]
  obtain ⟨ends, huncut⟩ := h (d + 1) (by omega)
  rw [List.foldl_cons, uncut_cons, opens, List.foldl_append, ends]
  refine ⟨closes, Nested.separates_of_ne (by decide) _, huncut.append ?_⟩
  rw [ends, uncut_cons]
  exact ⟨Nested.separates_of_ne (by decide) _, fun before after heq => by simp at heq⟩

end Passed

end Scan

/-! ## Reading back -/

/-- The condition, the result and what holds otherwise, if a text is a condition with two
branches. -/
def readBranch? (t : Text) : Option (Text × Text × Text) :=
  if "ifelse(".toList.isPrefixOf t && t.getLast? == some ')' then
    match pieces (t.drop "ifelse(".length).dropLast with
    | [condition, result, rest] => some (condition, result, rest)
    | _ => none
  else none

/-- The conditions with their results and what is left after them, read from so many levels. -/
def readBranches? : Nat → Text → Option (List (Text × Text) × Text)
  | 0, t => some ([], t)
  | levels + 1, t =>
    match readBranch? t with
    | some (condition, result, rest) =>
      (readBranches? levels rest).map fun (branches, last) => ((condition, result) :: branches, last)
    | none => none

/-- What so many nested conditions select; `holds` says at which level which condition is true. -/
def select? : (Nat → Text → Bool) → Nat → Text → Option Text
  | _, 0, t => some t
  | holds, levels + 1, t =>
    match readBranch? t with
    | some (condition, result, rest) =>
      if holds 0 condition then some result
      else select? (fun level => holds (level + 1)) levels rest
    | none => none

section Chains

variable (arguments : List Text)

/-- The conditions of a chain with their results: the arguments at even places, as long as one
follows, each with the one behind it. -/
def branchesOf : List (Text × Text) :=
  (List.range (arguments.length / 2)).map fun i =>
    (arguments.getD (2 * i) [], arguments.getD (2 * i + 1) [])

/-- What a chain ends in: the last argument if their number is odd, else `NULL`. -/
def closingOf : Text :=
  if arguments.length % 2 = 1 then arguments.getLastD [] else "NULL".toList

/-- What a chain selects: the result of the first condition that is true, or what it ends in. -/
def firstTrue (holds : Nat → Text → Bool) : Text :=
  match (List.range (arguments.length / 2)).find? fun i => holds i (arguments.getD (2 * i) []) with
  | some i => arguments.getD (2 * i + 1) []
  | none => closingOf arguments

variable {arguments}

theorem branchesOf_of_short (h : arguments.length / 2 = 0) : branchesOf arguments = [] := by
  rw [branchesOf, h]
  rfl

theorem firstTrue_of_short (h : arguments.length / 2 = 0) (holds : Nat → Text → Bool) :
    firstTrue arguments holds = closingOf arguments := by
  rw [firstTrue, h]
  rfl

variable (condition result : Text)

theorem half_cons :
    (condition :: result :: arguments).length / 2 = arguments.length / 2 + 1 := by
  simp only [List.length_cons]
  omega

theorem branchesOf_cons : branchesOf (condition :: result :: arguments) =
    (condition, result) :: branchesOf arguments := by
  unfold branchesOf
  rw [half_cons, List.range_succ_eq_map, List.map_cons, List.map_map]
  rfl

theorem closingOf_cons :
    closingOf (condition :: result :: arguments) = closingOf arguments := by
  unfold closingOf
  have parity : (condition :: result :: arguments).length % 2 = arguments.length % 2 := by
    simp only [List.length_cons]
    omega
  rw [parity]
  cases arguments with
  | nil => rfl
  | cons a rest => rfl

theorem firstTrue_cons (holds : Nat → Text → Bool) :
    firstTrue (condition :: result :: arguments) holds =
      if holds 0 condition then result
      else firstTrue arguments fun level => holds (level + 1) := by
  unfold firstTrue
  rw [half_cons, List.range_succ_eq_map, List.find?_cons, closingOf_cons]
  cases hfirst : holds 0 condition with
  | true => simp [hfirst]
  | false =>
    simp only [Nat.mul_zero, List.getD_cons_zero, hfirst, List.find?_map]
    have places : ((fun i => holds i ((condition :: result :: arguments).getD (2 * i) [])) ∘
        Nat.succ) = fun i => holds (i + 1) (arguments.getD (2 * i) []) := rfl
    rw [places]
    cases (List.range (arguments.length / 2)).find? fun i =>
      holds (i + 1) (arguments.getD (2 * i) []) <;> rfl

end Chains

/-! ## Folding -/

theorem readBranch?_ifElse {condition result rest : Text}
    (h : ∀ t ∈ [condition, result, rest], Tight t ∧ Passed 0 t) :
    readBranch? ("ifelse(".toList ++
      ((condition ++ commaBlank ++ result ++ commaBlank ++ rest) ++ [')'])) =
        some (condition, result, rest) := by
  have joined : condition ++ commaBlank ++ result ++ commaBlank ++ rest =
      Text.joinWith commaBlank [condition, result, rest] := by
    simp [Text.joinWith]
  simp only [List.forall_mem_cons] at h
  obtain ⟨⟨tightC, passedC⟩, ⟨tightR, passedR⟩, ⟨tightE, passedE⟩, -⟩ := h
  have top {t : Text} (ht : Passed 0 t) : t.foldl Nesting.after .top = .top ∧ Uncut .top t :=
    ht 0 (Int.le_refl 0)
  have cut : pieces (Text.joinWith commaBlank [condition, result, rest]) =
      [condition, result, rest] := by
    refine pieces_joinWith ?_ ?_ (by simp)
    · exact .cut (top passedC).2 (top passedC).1
        (.cut (top passedR).2 (top passedR).1 (.last (top passedE).2))
    · simp [tightC.trim_eq, tightR.trim_eq, tightE.trim_eq]
  rw [joined]
  generalize Text.joinWith commaBlank [condition, result, rest] = inside at cut
  have opens : "ifelse(".toList.isPrefixOf ("ifelse(".toList ++ (inside ++ [')'])) = true := by
    rw [List.isPrefixOf_iff_prefix]
    exact List.prefix_append _ _
  have closes : ("ifelse(".toList ++ (inside ++ [')'])).getLast? = some ')' := by
    rw [← List.append_assoc]
    exact List.getLast?_concat
  have body : (("ifelse(".toList ++ (inside ++ [')'])).drop "ifelse(".length).dropLast =
      inside := List.dropLast_concat
  unfold readBranch?
  rw [opens, closes, body, cut]
  rfl

section Folding

variable {arguments : List Text}

/-- A folded chain can itself be an argument, at any depth. -/
theorem passed_foldIfElse (h : ∀ a ∈ arguments, IsArgument a) :
    Passed 0 (foldIfElse arguments) := by
  induction arguments using foldIfElse.induct with
  | case1 => exact .of_all (by decide) (by decide)
  | case2 otherwise => exact (h otherwise List.mem_cons_self).passed
  | case3 condition result rest ih =>
    simp only [List.forall_mem_cons] at h
    obtain ⟨hcondition, hresult, hrest⟩ := h
    have word : Passed 0 "ifelse".toList := .of_all (by decide) (by decide)
    have comma : Passed 1 commaBlank := .of_all (by decide) (by decide)
    have deep {t : Text} (ht : Passed 0 t) : Passed 1 t := ht.mono (by decide)
    rw [foldIfElse_cons]
    exact word.append (.parens (((((deep hcondition.passed).append comma).append
      (deep hresult.passed)).append comma).append (deep (ih hrest))))

theorem readBranch?_foldIfElse {condition result : Text}
    (h : ∀ a ∈ condition :: result :: arguments, IsArgument a) :
    readBranch? (foldIfElse (condition :: result :: arguments)) =
      some (condition, result, foldIfElse arguments) := by
  simp only [List.forall_mem_cons] at h
  obtain ⟨hcondition, hresult, hrest⟩ := h
  rw [foldIfElse_cons]
  refine readBranch?_ifElse ?_
  simp only [List.forall_mem_cons]
  refine ⟨⟨hcondition.tight, hcondition.passed⟩, ⟨hresult.tight, hresult.passed⟩,
    ⟨tight_foldIfElse arguments ?_, passed_foldIfElse hrest⟩, by simp⟩
  rintro t rfl
  exact (hrest t List.mem_cons_self).tight

/-- Whether the text of a folded chain is read back, level by level, as the conditions of the chain
with their results, in order, and what the chain ends in; and whether the nested conditions select
what the chain selects, whichever conditions are true. -/
structure ReadsBack (arguments : List Text) : Prop where
  branches : readBranches? (arguments.length / 2) (foldIfElse arguments) =
    some (branchesOf arguments, closingOf arguments)
  selected : ∀ holds : Nat → Text → Bool,
    select? holds (arguments.length / 2) (foldIfElse arguments) = some (firstTrue arguments holds)

theorem ReadsBack.of_short (short : arguments.length / 2 = 0)
    (ends : foldIfElse arguments = closingOf arguments) : ReadsBack arguments where
  branches := by rw [short, branchesOf_of_short short, ends, readBranches?]
  selected holds := by rw [short, firstTrue_of_short short, ends, select?]

/-- **A folded chain means what the chain means.** -/
theorem foldIfElse_branches (h : ∀ a ∈ arguments, IsArgument a) : ReadsBack arguments := by
  induction arguments using foldIfElse.induct with
  | case1 => exact .of_short (by simp) rfl
  | case2 otherwise => exact .of_short (by simp) rfl
  | case3 condition result rest ih =>
    have level := readBranch?_foldIfElse h
    obtain ⟨branches, selected⟩ := ih fun a ha =>
      h a (List.mem_cons_of_mem _ (List.mem_cons_of_mem _ ha))
    constructor
    · simp only [half_cons, readBranches?, level, branches, Option.map_some, branchesOf_cons,
        closingOf_cons]
    · intro holds
      simp only [half_cons, select?, level, selected, firstTrue_cons]
      split <;> rfl

end Folding

/-- Two conditions and what holds otherwise, with commas, brackets and quotes in all places. -/
def ratingArguments : List Text :=
  ["in(a, [1, 2])".toList, "')'".toList, "b > c[0]".toList, "f(x, 'ifelse(')".toList,
    "ifelse(d, 1, NULL)".toList]

theorem foldIfElse_branches_rating : (∀ a ∈ ratingArguments, IsArgument a) ∧
    (foldIfElse ratingArguments =
      "ifelse(in(a, [1, 2]), ')', ifelse(b > c[0], f(x, 'ifelse('), ifelse(d, 1, NULL)))".toList ∧
      branchesOf ratingArguments = [("in(a, [1, 2])".toList, "')'".toList),
        ("b > c[0]".toList, "f(x, 'ifelse(')".toList)] ∧
      closingOf ratingArguments = "ifelse(d, 1, NULL)".toList) ∧
    readBranches? (ratingArguments.length / 2) (foldIfElse ratingArguments) =
      some (branchesOf ratingArguments, closingOf ratingArguments) ∧
    select? (fun level _ => level == 1) (ratingArguments.length / 2)
      (foldIfElse ratingArguments) = some "f(x, 'ifelse(')".toList := by
  have valid : ∀ a ∈ ratingArguments, IsArgument a := by decide +kernel
  obtain ⟨branches, selected⟩ := foldIfElse_branches valid
  refine ⟨valid, by decide +kernel, branches, (selected _).trans ?_⟩
  decide +kernel

end DashCalc.Formula
