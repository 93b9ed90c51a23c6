import DashCalc.Cost.Report
import DashCalc.Proofs.Cost.Walk
import Mathlib.Data.Finset.Card
import Mathlib.Data.List.Flatten
import Mathlib.Logic.Relation

/-!
# Calculated fields written out

`Scope.unroll` writes the steps of a tree out: behind each reference that is followed come the steps
of the calculated field, one level deeper, and so on for the references in there. The exhaustive
mode is a single pass over the written out steps (`Tally.run_eq_foldl`).

The budget of following only has to be as large as the number of names that are not being followed
yet (`Scope.Suffices`). Then what is written out is complete: every field that is met and not being
followed from the start has all its steps there (`Scope.steps_subset_unroll`).
-/

namespace DashCalc.Cost

open Relation (ReflTransGen)

namespace Scope

variable {scope : Scope} {name : String} {n : Node} {following : List String} {budget : Nat}

/-! ## Names that can be followed -/

/-- The calculated field that a name is looked up as. -/
def target? (scope : Scope) (name : String) : Option Expression :=
  match scope.referent name with
  | .calculatedField e => some e
  | _ => none

/-- The tree that a name is followed into. -/
def tree? (scope : Scope) (name : String) : Option Node := (scope.target? name).bind Expression.tree?

/-- A name is looked up as the first calculated field of that name, unless it is a parameter. -/
theorem target?_eq_some {e : Expression} : scope.target? name = some e ↔
    scope.parameters.get? name = none ∧ scope.find? .calculatedField name = some e := by
  unfold target? referent
  cases scope.parameters.get? name with
  | some value => simp
  | none =>
    cases scope.find? .calculatedField name with
    | some e => simp
    | none => cases scope.find? .field name <;> simp

theorem tree?_eq_some : scope.tree? name = some n ↔
    ∃ e, scope.target? name = some e ∧ e.tree? = some n :=
  Option.bind_eq_some_iff

theorem find?_eq_some {kind : ExpressionKind} {e : Expression}
    (h : scope.find? kind name = some e) :
    e ∈ scope.expressions ∧ e.kind = kind ∧ e.name = name := by
  unfold find? at h
  have hp := List.find?_some h
  rw [Bool.and_eq_true, beq_iff_eq, beq_iff_eq] at hp
  exact ⟨List.mem_of_find?_eq_some h, hp⟩

/-- Whether following the first name leads on to the second one. -/
def Follows (scope : Scope) (a b : String) : Prop :=
  ∃ n, scope.tree? a = some n ∧ b ∈ n.columns ∧ (scope.tree? b).isSome

/-- The names of all expressions. -/
def names (scope : Scope) : Finset String := (scope.expressions.map Expression.name).toFinset

theorem mem_names_of_tree? (h : scope.tree? name = some n) : name ∈ scope.names := by
  obtain ⟨e, he, -⟩ := tree?_eq_some.1 h
  obtain ⟨hmem, -, rfl⟩ := find?_eq_some (target?_eq_some.1 he).2
  exact List.mem_toFinset.2 (List.mem_map_of_mem hmem)

/-- Whether a budget is as large as the number of names left to follow. -/
def Suffices (scope : Scope) (budget : Nat) (following : List String) : Prop :=
  (scope.names \ following.toFinset).card ≤ budget

/-- As many as there are expressions is always enough. -/
theorem suffices_length (following : List String) :
    scope.Suffices scope.expressions.length following := by
  unfold Suffices names
  calc (_ \ following.toFinset).card
      ≤ (scope.expressions.map Expression.name).toFinset.card :=
        Finset.card_le_card Finset.sdiff_subset
    _ ≤ (scope.expressions.map Expression.name).length := List.toFinset_card_le _
    _ = scope.expressions.length := List.length_map _

/-- With nothing left, every name that can be followed is being followed. -/
theorem Suffices.mem_of_zero (h : scope.Suffices 0 following) (ht : scope.tree? name = some n) :
    name ∈ following := by
  have empty := Finset.card_eq_zero.1 (Nat.le_zero.1 h)
  have hsub := Finset.sdiff_eq_empty_iff_subset.1 empty
  exact List.mem_toFinset.1 (hsub (mem_names_of_tree? ht))

/-- Following one more name takes one from the budget. -/
theorem Suffices.follow (h : scope.Suffices (budget + 1) following)
    (ht : scope.tree? name = some n) (fresh : name ∉ following) :
    scope.Suffices budget (name :: following) := by
  have mem : name ∈ scope.names \ following.toFinset :=
    Finset.mem_sdiff.2 ⟨mem_names_of_tree? ht, fun hm => fresh (List.mem_toFinset.1 hm)⟩
  unfold Suffices at h ⊢
  rw [List.toFinset_cons, Finset.sdiff_insert, Finset.card_erase_of_mem mem]
  omega

/-! ## Writing out -/

/-- What is written out behind a step: if it is a reference to follow, the steps of its field. -/
def detour (scope : Scope) (inside : List String → List Step → List Step)
    (following : List String) : Step → List Step
  | .reference name =>
    match scope.tree? name with
    | some n =>
      if name ∈ following then []
      else .deeper :: (inside (name :: following) (steps n) ++ [.shallower])
    | none => []
  | _ => []

/-- Whether nothing is followed at a step: it is no reference to a field that was read, or one that
is being followed already. -/
def Stops (scope : Scope) (following : List String) (s : Step) : Prop :=
  ∀ name n, s = .reference name → scope.tree? name = some n → name ∈ following

theorem exists_of_not_stops {s : Step} (h : ¬scope.Stops following s) :
    ∃ name n, s = .reference name ∧ scope.tree? name = some n ∧ name ∉ following := by
  unfold Stops at h
  push Not at h
  exact h

theorem Suffices.stops (h : scope.Suffices 0 following) (s : Step) : scope.Stops following s :=
  fun _ _ _ ht => h.mem_of_zero ht

theorem detour_reference (inside : List String → List Step → List Step)
    (ht : scope.tree? name = some n) (fresh : name ∉ following) :
    scope.detour inside following (.reference name) =
      .deeper :: (inside (name :: following) (steps n) ++ [.shallower]) := by
  simp only [detour, ht, if_neg fresh]

theorem Stops.detour_eq_nil {s : Step} (h : scope.Stops following s)
    (inside : List String → List Step → List Step) : scope.detour inside following s = [] := by
  cases s with
  | reference name =>
    simp only [detour]
    cases ht : scope.tree? name with
    | none => rfl
    | some n => exact if_pos (h name n rfl ht)
  | _ => rfl

/-- The steps with the calculated fields written out, at most `budget` deep. -/
def unroll (scope : Scope) : Nat → List String → List Step → List Step
  | 0, _, σ => σ
  | budget + 1, following, σ =>
    σ.flatMap fun s => s :: scope.detour (scope.unroll budget) following s

theorem unroll_singleton (budget : Nat) (following : List String) (s : Step) :
    scope.unroll (budget + 1) following [s] =
      s :: scope.detour (scope.unroll budget) following s := by
  unfold unroll
  rw [List.flatMap_cons, List.flatMap_nil, List.append_nil]

/-- Every step is still there when the fields are written out. -/
theorem subset_unroll (budget : Nat) (following : List String) (σ : List Step) :
    σ ⊆ scope.unroll budget following σ := by
  cases budget with
  | zero => exact List.Subset.refl _
  | succ budget =>
    exact fun s hs => List.mem_flatMap.2 ⟨s, hs, List.mem_cons_self⟩

theorem mem_detour {inside : List String → List Step → List Step} {r s : Step}
    (h : s ∈ scope.detour inside following r) :
    ∃ name n, r = .reference name ∧ scope.tree? name = some n ∧ name ∉ following ∧
      (s = .deeper ∨ s ∈ inside (name :: following) (steps n) ∨ s = .shallower) := by
  by_cases stops : scope.Stops following r
  · rw [stops.detour_eq_nil] at h
    exact absurd h List.not_mem_nil
  · obtain ⟨name, n, rfl, ht, fresh⟩ := exists_of_not_stops stops
    refine ⟨name, n, rfl, ht, fresh, ?_⟩
    simpa only [detour_reference _ ht fresh, List.mem_cons, List.mem_append, List.not_mem_nil,
      or_false] using h

/-- The steps of a field that is met are all there, unless it is being followed from the start. -/
theorem steps_subset_unroll : ∀ {budget : Nat} {following : List String} {σ : List Step},
    scope.Suffices budget following → .reference name ∈ scope.unroll budget following σ →
      scope.tree? name = some n → name ∉ following →
      steps n ⊆ scope.unroll budget following σ := by
  intro budget
  induction budget with
  | zero => exact fun hb _ ht fresh => absurd (hb.mem_of_zero ht) fresh
  | succ budget ih =>
    intro following σ hb hmem ht fresh
    obtain ⟨r, hr, hmem⟩ := List.mem_flatMap.1 hmem
    -- what stands behind one step of the list stands in the whole
    have lift : r :: scope.detour (scope.unroll budget) following r ⊆
        scope.unroll (budget + 1) following σ :=
      fun s hs => List.mem_flatMap.2 ⟨r, hr, hs⟩
    have here : ∀ {m : Node}, r = .reference name → scope.tree? name = some m →
        steps m ⊆ scope.unroll (budget + 1) following σ := by
      rintro m rfl hm s hs
      refine lift (List.mem_cons_of_mem _ ?_)
      simp only [detour, hm, if_neg fresh]
      exact List.mem_cons_of_mem _ (List.mem_append_left _ (subset_unroll _ _ _ hs))
    rcases List.mem_cons.1 hmem with e | hmem
    · exact here e.symm ht
    · obtain ⟨other, m, rfl, hm, hother, e | hinside | e⟩ := mem_detour hmem
      · cases e
      · by_cases same : name = other
        · subst same
          exact here rfl ht
        · intro s hs
          have hnot : name ∉ other :: following := by
            rw [List.mem_cons, not_or]
            exact ⟨same, fresh⟩
          have := ih (hb.follow hm hother) hinside ht hnot hs
          refine lift (List.mem_cons_of_mem _ ?_)
          simp only [detour, hm, if_neg hother]
          exact List.mem_cons_of_mem _ (List.mem_append_left _ this)
      · cases e

/-- What is written out are steps of fields that following leads to, and changes of the level. -/
theorem mem_unroll {s : Step} {budget : Nat} : ∀ {following : List String} {σ : List Step},
    s ∈ scope.unroll budget following σ → s ∈ σ ∨ s = .deeper ∨ s = .shallower ∨
      ∃ first name n, .reference first ∈ σ ∧ (scope.tree? first).isSome ∧
        ReflTransGen scope.Follows first name ∧ scope.tree? name = some n ∧ s ∈ steps n := by
  induction budget with
  | zero => exact fun h => .inl h
  | succ budget ih =>
    intro following σ h
    obtain ⟨r, hr, h⟩ := List.mem_flatMap.1 h
    rcases List.mem_cons.1 h with rfl | h
    · exact .inl hr
    · obtain ⟨first, n, rfl, hn, -, e | h | e⟩ := mem_detour h
      · exact .inr (.inl e)
      · have hsome := Option.isSome_of_mem hn
        rcases ih h with h | h | h | ⟨next, name, m, hnext, hsome', hway, hm, hs⟩
        · exact .inr (.inr (.inr ⟨first, first, n, hr, hsome, .refl, hn, h⟩))
        · exact .inr (.inl h)
        · exact .inr (.inr (.inl h))
        · have hfirst : scope.Follows first next := ⟨n, hn, reference_mem_steps.1 hnext, hsome'⟩
          exact .inr (.inr (.inr ⟨first, name, m, hr, hsome, .head hfirst hway, hm, hs⟩))
      · exact .inr (.inr (.inl e))

/-- Steps end on the same level if what is put behind each of them does. -/
theorem levelAfter_flatMap {behind : Step → List Step}
    (flat : ∀ s level, levelAfter level (behind s) = level) (σ : List Step) (level : Nat) :
    levelAfter level (σ.flatMap fun s => s :: behind s) = levelAfter level σ := by
  induction σ generalizing level with
  | nil => rfl
  | cons s σ ih =>
    rw [List.flatMap_cons, levelAfter_append, ih]
    exact congrArg (levelAfter · σ) (flat s (s.levelAfter level))

/-- What is written out behind a step ends on the level on which it starts. -/
theorem levelAfter_detour {inside : List String → List Step → List Step}
    (h : ∀ following σ level, levelAfter level (inside following σ) = levelAfter level σ)
    (following : List String) (s : Step) (level : Nat) :
    levelAfter level (scope.detour inside following s) = level := by
  by_cases stops : scope.Stops following s
  · rw [stops.detour_eq_nil]
    rfl
  · obtain ⟨name, n, rfl, ht, fresh⟩ := exists_of_not_stops stops
    rw [detour_reference _ ht fresh]
    show levelAfter (level + 1) _ = level
    rw [levelAfter_append, h, (walk n).levelAfter]
    rfl

/-- Steps end on the same level when the fields are written out. -/
theorem levelAfter_unroll (budget : Nat) : ∀ (following : List String) (σ : List Step)
    (level : Nat), levelAfter level (scope.unroll budget following σ) = levelAfter level σ := by
  induction budget with
  | zero => exact fun _ _ _ => rfl
  | succ budget ih =>
    exact fun following σ level => levelAfter_flatMap (levelAfter_detour ih following) σ level

end Scope

/-! ## One pass -/

namespace Tally

variable {scope : Scope}

/-- A step on its own, with nothing followed. -/
def meet (scope : Scope) (t : Tally) : Step → Tally
  | .call id aggregate name => (t.charge aggregate name).recordCall scope id aggregate name
  | .reference name => t.reference scope none name
  | .deeper => t.enter
  | .shallower => t.leave
  | .callAgain id aggregate name => t.recordCall scope id aggregate name
  | .referenceAgain name => t.reference scope none name

/-- Following changes nothing, or goes through the tree of the name. -/
theorem follow_referent (descend : List Step → Tally → Tally) (t : Tally) (name : String) :
    t.follow descend name (scope.referent name) =
      match scope.tree? name with
      | none => t
      | some n =>
        if name ∈ t.following then t
        else
          { (descend (steps n) { t with following := name :: t.following }.enter).leave with
            following := t.following } := by
  unfold Scope.tree? Scope.target?
  cases scope.referent name with
  | calculatedField e =>
    simp only [follow, Option.bind_some]
    cases e.tree? with
    | none => rfl
    | some n => simp only [List.contains_iff_mem]
  | _ => rfl

theorem recordCall_following (t : Tally) (following : List String) (id : NodeId)
    (aggregate : Bool) (name : String) :
    { t with following }.recordCall scope id aggregate name =
      { t.recordCall scope id aggregate name with following } := by
  unfold recordCall
  cases scope.mode with
  | exhaustive => rfl
  | deduplicated =>
    dsimp only
    split <;> rfl

theorem reference_following (t : Tally) (following : List String) (name : String) :
    { t with following }.reference scope none name =
      { t.reference scope none name with following } := by
  have recorded (t : Tally) (r : Referent) :
      { t with following }.recordReferent name r = { t.recordReferent name r with following } := by
    cases r <;> rfl
  unfold reference
  cases scope.mode with
  | exhaustive => exact recorded t _
  | deduplicated =>
    dsimp only
    split
    · rfl
    · exact recorded { t with seenNames := name :: t.seenNames } _

/-- A step on its own does not look at what is being followed. -/
theorem meet_following (t : Tally) (following : List String) (s : Step) :
    { t with following }.meet scope s = { t.meet scope s with following } := by
  cases s with
  | call id aggregate name => exact recordCall_following (t.charge aggregate name) ..
  | callAgain id aggregate name => exact recordCall_following t ..
  | reference name => exact reference_following t ..
  | referenceAgain name => exact reference_following t ..
  | deeper => rfl
  | shallower => rfl

theorem foldl_meet_following (σ : List Step) : ∀ (t : Tally) (following : List String),
    σ.foldl (meet scope) { t with following } = { σ.foldl (meet scope) t with following } := by
  induction σ with
  | nil => exact fun _ _ => rfl
  | cons s σ ih =>
    intro t following
    rw [List.foldl_cons, List.foldl_cons, meet_following, ih]

theorem following_meet (t : Tally) (s : Step) : (t.meet scope s).following = t.following := by
  have h : t.meet scope s = { t.meet scope s with following := t.following } :=
    meet_following t t.following s
  rw [h]

theorem following_foldl_meet (σ : List Step) (t : Tally) :
    (σ.foldl (meet scope) t).following = t.following := by
  have h : σ.foldl (meet scope) t = { σ.foldl (meet scope) t with following := t.following } :=
    foldl_meet_following σ t t.following
  rw [h]

/-- Going through a tree on behalf of a name is one pass between two changes of the level. -/
theorem foldl_meet_nested (σ : List Step) (t : Tally) (following : List String) :
    { (σ.foldl (meet scope) { t with following }.enter).leave with following := t.following } =
      (.deeper :: (σ ++ [.shallower])).foldl (meet scope) t := by
  have inside : σ.foldl (meet scope) { t with following }.enter =
      { σ.foldl (meet scope) t.enter with following } := foldl_meet_following σ t.enter following
  have kept : (σ.foldl (meet scope) t.enter).following = t.following :=
    following_foldl_meet σ t.enter
  rw [inside, List.foldl_cons, List.foldl_append, ← kept]
  rfl

/-- A reference is met and followed then, unless the deduplicated mode passes it over. -/
theorem step_reference (descend : List Step → Tally → Tally) (t : Tally) (name : String) :
    t.step scope descend (.reference name) =
      if scope.mode = .deduplicated ∧ name ∈ t.seenNames then t
      else (t.meet scope (.reference name)).follow descend name (scope.referent name) := by
  simp only [step, meet, reference, List.contains_iff_mem]
  cases scope.mode with
  | exhaustive => exact (if_neg fun h => absurd h.1 (by decide)).symm
  | deduplicated =>
    simp only [true_and]
    split <;> rfl

/-- A step at which nothing is followed is a step on its own. -/
theorem step_eq_meet (descend : List Step → Tally → Tally) {t : Tally} {s : Step}
    (h : scope.Stops t.following s) : t.step scope descend s = t.meet scope s := by
  cases s with
  | reference name =>
    rw [step_reference]
    split
    · next seen =>
      simp only [meet, reference, seen.1, List.contains_iff_mem, if_pos seen.2]
    · rw [follow_referent, following_meet]
      split
      · rfl
      · next n hn => rw [if_pos (h name n rfl hn)]
  | _ => rfl

/-- A reference to follow goes through the tree of its name, unless it is passed over. -/
theorem step_follow (descend : List Step → Tally → Tally) {t : Tally} {name : String} {n : Node}
    (hn : scope.tree? name = some n) (fresh : name ∉ t.following) :
    t.step scope descend (.reference name) =
      if scope.mode = .deduplicated ∧ name ∈ t.seenNames then t
      else
        { (descend (steps n)
            { t.meet scope (.reference name) with
              following := name :: t.following }.enter).leave with
          following := t.following } := by
  rw [step_reference, follow_referent, hn, following_meet]
  simp only [if_neg fresh]

/-- A name that is met and followed is one pass over what is written out for it; `inside` says what
going through its tree does. -/
theorem follow_eq_foldl {budget : Nat} {following : List String}
    {descend : List Step → Tally → Tally} {t u : Tally} {name : String} {n : Node}
    (ht : t.following = following) (hn : scope.tree? name = some n) (fresh : name ∉ following)
    (hu : u = { t.meet scope (.reference name) with following := name :: following }.enter)
    (inside : descend (steps n) u =
      (scope.unroll budget (name :: following) (steps n)).foldl (meet scope) u) :
    { (descend (steps n) u).leave with following } =
      (.reference name :: scope.detour (scope.unroll budget) following (.reference name)).foldl
        (meet scope) t := by
  rw [List.foldl_cons, Scope.detour_reference _ hn fresh,
    ← foldl_meet_nested _ _ (name :: following), following_meet, ht, inside, hu]

/-- One step, followed, is the step on its own and what is written out behind it; `inside` says what
following a name does. -/
theorem step_eq_foldl (hmode : scope.mode = .exhaustive) {budget : Nat} {following : List String}
    {descend : List Step → Tally → Tally}
    (inside : ∀ name n t, scope.tree? name = some n → name ∉ following →
      t.following = name :: following → descend (steps n) t =
        (scope.unroll budget (name :: following) (steps n)).foldl (meet scope) t)
    (t : Tally) (s : Step) (ht : t.following = following) :
    t.step scope descend s =
      (s :: scope.detour (scope.unroll budget) following s).foldl (meet scope) t := by
  by_cases stops : scope.Stops following s
  · rw [step_eq_meet _ (ht ▸ stops), stops.detour_eq_nil]
    rfl
  · obtain ⟨name, n, rfl, hn, fresh⟩ := Scope.exists_of_not_stops stops
    have met : ¬(scope.mode = .deduplicated ∧ name ∈ t.seenNames) :=
      fun h => nomatch (hmode.symm.trans h.1 : Mode.exhaustive = .deduplicated)
    rw [step_follow _ hn (ht ▸ fresh), if_neg met, ht]
    exact follow_eq_foldl ht hn fresh rfl (inside name n _ hn fresh rfl)

/-- Many steps are one pass if each step is, as long as the same names are being followed. -/
theorem foldl_eq_foldl_flatMap {behind : Step → List Step} {next : Tally → Step → Tally}
    {following : List String}
    (each : ∀ t s, t.following = following → next t s = (s :: behind s).foldl (meet scope) t)
    (σ : List Step) : ∀ t : Tally, t.following = following →
      σ.foldl next t = (σ.flatMap fun s => s :: behind s).foldl (meet scope) t := by
  induction σ with
  | nil => exact fun _ _ => rfl
  | cons s σ ih =>
    intro t ht
    have kept : (next t s).following = following := by
      rw [each t s ht, following_foldl_meet, ht]
    rw [List.foldl_cons, ih _ kept, each t s ht, List.flatMap_cons, List.foldl_append]

/-- The exhaustive mode goes once through the steps with the calculated fields written out. -/
theorem run_eq_foldl (hmode : scope.mode = .exhaustive) (budget : Nat) :
    ∀ {following : List String} (σ : List Step) (t : Tally), scope.Suffices budget following →
      t.following = following →
      run scope budget σ t = (scope.unroll budget following σ).foldl (meet scope) t := by
  induction budget with
  | zero =>
    intro following σ t hb ht
    have each (t : Tally) (s : Step) (ht : t.following = following) :
        t.step scope (fun _ t => t) s = [s].foldl (meet scope) t :=
      step_eq_meet _ (ht ▸ hb.stops s)
    have all := foldl_eq_foldl_flatMap each σ t ht
    rwa [List.flatMap_singleton'] at all
  | succ budget ih =>
    intro following σ t hb ht
    refine foldl_eq_foldl_flatMap (step_eq_foldl hmode fun name n u hn fresh hu => ?_) σ t ht
    exact ih (steps n) u (hb.follow hn fresh) hu

end Tally

end DashCalc.Cost
