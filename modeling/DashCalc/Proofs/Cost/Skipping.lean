import DashCalc.Proofs.Cost.Deduplication

/-!
# What passing over references leaves out

The deduplicated mode passes over a name that it met before, and with the record it leaves out all
that stands behind the name: the calls of a calculated field that is referred to twice are charged
once, and the levels that they open at the second place are not seen. So its cost and depth are at
most those of the exhaustive mode (`Tally.within_run`), they are the same where no field is followed
twice (`Tally.run_eq_foldl_of_nodup`), and they differ in general (`Scope.totals_ne_totalAndSum`).
-/

namespace DashCalc.Cost

/-! ## At most what is written out -/

namespace Tally

variable {scope : Scope} {following : List String} {t u v : Tally} {σ τ : List Step}

/-- Whether the second tally comes from the first one by steps that cost and reach at most as much
as these and end on their level. -/
structure Within (t u : Tally) (σ : List Step) : Prop where
  level : u.level = levelAfter t.level σ
  cost : u.cost ≤ t.cost + (σ.map Step.cost).sum
  maxDepth : u.maxDepth ≤ max t.maxDepth (deepest t.level σ)

namespace Within

/-- Steps that end on the level on which they start can be left out. -/
theorem skip (flat : ∀ level, levelAfter level σ = level) : Within t t σ where
  level := (flat t.level).symm
  cost := Nat.le_add_right _ _
  maxDepth := Nat.le_max_left _ _

theorem append (h : Within t u σ) (h' : Within u v τ) : Within t v (σ ++ τ) where
  level := by rw [h'.level, h.level, levelAfter_append]
  cost := by
    rw [List.map_append, List.sum_append, ← Nat.add_assoc]
    exact h'.cost.trans (Nat.add_le_add_right h.cost _)
  maxDepth := by
    rw [deepest_append, ← Nat.max_assoc, ← h.level]
    exact h'.maxDepth.trans (max_le_max_right _ h.maxDepth)

theorem meet (scope : Scope) (t : Tally) (s : Step) : Within t (t.meet scope s) [s] :=
  have sums := foldl_meet_sums scope [s] t
  ⟨sums.level, sums.cost.le, sums.maxDepth.le⟩

end Within

theorem following_step (descend : List Step → Tally → Tally) (t : Tally) (s : Step) :
    (t.step scope descend s).following = t.following := by
  by_cases stops : scope.Stops t.following s
  · rw [step_eq_meet _ stops, following_meet]
  · obtain ⟨name, n, rfl, hn, fresh⟩ := Scope.exists_of_not_stops stops
    rw [step_follow _ hn fresh]
    split <;> rfl

/-- A step that is passed over, or met and followed, stays within what is written out. -/
theorem within_step {budget : Nat} {descend : List Step → Tally → Tally}
    (ht : t.following = following)
    (inside : ∀ name n u, scope.tree? name = some n → name ∉ following →
      u.following = name :: following →
      Within u (descend (steps n) u) (scope.unroll budget (name :: following) (steps n)))
    (s : Step) :
    Within t (t.step scope descend s) (s :: scope.detour (scope.unroll budget) following s) := by
  by_cases stops : scope.Stops following s
  · rw [step_eq_meet _ (ht ▸ stops), stops.detour_eq_nil]
    exact .meet scope t s
  · obtain ⟨name, n, rfl, hn, fresh⟩ := Scope.exists_of_not_stops stops
    rw [step_follow _ hn (ht ▸ fresh), ht]
    split
    · rw [← Scope.unroll_singleton]
      exact .skip fun level =>
        Scope.levelAfter_unroll (budget + 1) following [.reference name] level
    · rw [Scope.detour_reference _ hn fresh]
      let u : Tally := { t.meet scope (.reference name) with following := name :: following }.enter
      have met : Within t (t.meet scope (.reference name)) [.reference name] := .meet scope t _
      have entered : Within (t.meet scope (.reference name)) u [.deeper] :=
        ⟨rfl, Nat.le_refl _, Nat.le_refl _⟩
      have below := inside name n u hn fresh rfl
      have left : Within (descend (steps n) u) { (descend (steps n) u).leave with following }
          [.shallower] := ⟨rfl, Nat.le_refl _, Nat.le_max_left _ _⟩
      exact met.append (entered.append (below.append left))

/-- Many steps stay within what is written out if each does, as long as the same names are being
followed. -/
theorem within_foldl {behind : Step → List Step} {next : Tally → Step → Tally}
    (kept : ∀ t s, (next t s).following = t.following)
    (each : ∀ t s, t.following = following → Within t (next t s) (s :: behind s))
    (σ : List Step) : ∀ t : Tally, t.following = following →
      Within t (σ.foldl next t) (σ.flatMap fun s => s :: behind s) := by
  induction σ with
  | nil => exact fun _ _ => .skip fun _ => rfl
  | cons s σ ih => exact fun t ht => (each t s ht).append (ih _ ((kept t s).trans ht))

/-- Whatever the mode, a run stays within the steps with the calculated fields written out. -/
theorem within_run (budget : Nat) : ∀ {following : List String} (σ : List Step) (t : Tally),
    scope.Suffices budget following → t.following = following →
      Within t (run scope budget σ t) (scope.unroll budget following σ) := by
  induction budget with
  | zero =>
    intro following σ t hb ht
    have each (t : Tally) (s : Step) (ht : t.following = following) :
        Within t (t.step scope (fun _ t => t) s) [s] := by
      rw [step_eq_meet _ (ht ▸ hb.stops s)]
      exact .meet scope t s
    have all := within_foldl (following_step _) each σ t ht
    rwa [List.flatMap_singleton'] at all
  | succ budget ih =>
    intro following σ t hb ht
    refine within_foldl (following_step _) (fun t s ht => ?_) σ t ht
    exact within_step ht (fun name n u hn fresh hu => ih (steps n) u (hb.follow hn fresh) hu) s

end Tally

/-! ## Names that are followed -/

namespace Scope

variable {scope : Scope} {following : List String} {name : String} {n : Node}

/-- The names that are followed behind a step: if it is a reference to follow, that name and those
in its field. -/
def followedBehind (scope : Scope) (inside : List String → List Step → List String)
    (following : List String) : Step → List String
  | .reference name =>
    match scope.tree? name with
    | some n => if name ∈ following then [] else name :: inside (name :: following) (steps n)
    | none => []
  | _ => []

/-- The names that are followed to write the steps out, at most `budget` deep, in order and with
repetitions. -/
def followed (scope : Scope) : Nat → List String → List Step → List String
  | 0, _, _ => []
  | budget + 1, following, σ => σ.flatMap (scope.followedBehind (scope.followed budget) following)

/-- The names that the exhaustive mode follows for a tree. -/
def followedNames (scope : Scope) (own : Option String) (n : Node) : List String :=
  scope.followed scope.expressions.length own.toList (steps n)

theorem followedBehind_reference (inside : List String → List Step → List String)
    (ht : scope.tree? name = some n) (fresh : name ∉ following) :
    scope.followedBehind inside following (.reference name) =
      name :: inside (name :: following) (steps n) := by
  simp only [followedBehind, ht, if_neg fresh]

/-- A field that is met where its steps are written out is followed, unless that is being done
already. -/
theorem mem_followed (budget : Nat) : ∀ {following : List String} {σ : List Step},
    scope.Suffices budget following → .reference name ∈ scope.unroll budget following σ →
      scope.tree? name = some n → name ∈ following ∨ name ∈ scope.followed budget following σ := by
  induction budget with
  | zero => exact fun hb _ ht => .inl (hb.mem_of_zero ht)
  | succ budget ih =>
    intro following σ hb hmem ht
    obtain ⟨r, hr, hmem⟩ := List.mem_flatMap.1 hmem
    have lift : scope.followedBehind (scope.followed budget) following r ⊆
        scope.followed (budget + 1) following σ := fun x hx => List.mem_flatMap.2 ⟨r, hr, hx⟩
    rcases List.mem_cons.1 hmem with rfl | hmem
    · by_cases fresh : name ∈ following
      · exact .inl fresh
      · refine .inr (lift ?_)
        rw [followedBehind_reference _ ht fresh]
        exact List.mem_cons_self
    · obtain ⟨other, m, rfl, hm, hother, e | hinside | e⟩ := mem_detour hmem
      · cases e
      · rw [followedBehind_reference _ hm hother] at lift
        rcases ih (hb.follow hm hother) hinside ht with hmem | hmem
        · rcases List.mem_cons.1 hmem with rfl | hmem
          · exact .inr (lift List.mem_cons_self)
          · exact .inl hmem
        · exact .inr (lift (List.mem_cons_of_mem _ hmem))
      · cases e

end Scope

/-! ## Nothing is left out where nothing is followed twice -/

namespace Tally

variable {scope : Scope} {following φ : List String} {t : Tally} {σ τ : List Step}

/-- Whether the fields that were met are being followed or among those followed before. -/
def Accounted (scope : Scope) (following φ : List String) (τ : List Step) : Prop :=
  ∀ name n, .reference name ∈ τ → scope.tree? name = some n → name ∈ following ∨ name ∈ φ

/-- What is written out behind a step is accounted for by the names followed there. -/
theorem Accounted.step {budget : Nat} (h : Accounted scope following φ τ)
    (hb : scope.Suffices (budget + 1) following) (s : Step) :
    Accounted scope following (φ ++ scope.followedBehind (scope.followed budget) following s)
      (τ ++ s :: scope.detour (scope.unroll budget) following s) := by
  intro name n hmem ht
  rcases List.mem_append.1 hmem with hmem | hmem
  · exact (h name n hmem ht).imp id (List.mem_append_left _)
  · rw [← Scope.unroll_singleton] at hmem
    refine (Scope.mem_followed (budget + 1) hb hmem ht).imp id fun hin => ?_
    rw [Scope.followed, List.flatMap_singleton] at hin
    exact List.mem_append_right _ hin

/-- What is met while a name is followed is accounted for once that name is. -/
theorem Accounted.enter (h : Accounted scope following φ τ) (name : String) :
    Accounted scope (name :: following) (φ ++ [name]) (τ ++ [.reference name] ++ [.deeper]) := by
  intro other n hmem ht
  simp only [List.mem_append, List.mem_singleton, Step.reference.injEq, reduceCtorEq, or_false]
    at hmem
  rcases hmem with hmem | rfl
  · exact (h other n hmem ht).imp (List.mem_cons_of_mem _) (List.mem_append_left _)
  · exact .inl List.mem_cons_self

variable (hmode : scope.mode = .deduplicated)
include hmode

/-- A step goes through what is written out behind it, if the name that it may follow was not
followed before; `inside` says what following a name does. -/
theorem step_eq_foldl_of_nodup {budget : Nat} {descend : List Step → Tally → Tally}
    {ψ : List String} (h : Tracks scope following τ t) (known : Accounted scope following φ τ)
    {s : Step}
    (nodup : (φ ++ scope.followedBehind (scope.followed budget) following s ++ ψ).Nodup)
    (inside : ∀ name n σ u, scope.tree? name = some n → name ∉ following →
      Tracks scope (name :: following) σ u → Accounted scope (name :: following) (φ ++ [name]) σ →
      (φ ++ [name] ++ scope.followed budget (name :: following) (steps n)).Nodup →
      descend (steps n) u =
        (scope.unroll budget (name :: following) (steps n)).foldl (meet scope) u) :
    t.step scope descend s =
      (s :: scope.detour (scope.unroll budget) following s).foldl (meet scope) t := by
  by_cases stops : scope.Stops following s
  · rw [step_eq_meet _ (h.stack ▸ stops), stops.detour_eq_nil]
    rfl
  · obtain ⟨name, n, rfl, hn, fresh⟩ := Scope.exists_of_not_stops stops
    rw [Scope.followedBehind_reference _ hn fresh] at nodup
    have nodup := List.Nodup.of_append_left nodup
    -- a name that was met would have been followed before
    have new : name ∉ t.seenNames := by
      intro hname
      have old : name ∈ φ := (known name n (h.reference_mem hname) hn).resolve_left fresh
      exact List.disjoint_of_nodup_append nodup old List.mem_cons_self
    rw [step_follow _ hn (h.stack ▸ fresh), if_neg fun seen => new seen.2, h.stack]
    refine follow_eq_foldl h.stack hn fresh rfl ?_
    have entered := (h.meet_followed hmode name).enter hmode
    refine inside name n _ _ hn fresh entered (known.enter name) ?_
    rwa [List.append_assoc, List.singleton_append]

/-- If no name is followed twice, the deduplicated mode goes once through the steps with the
calculated fields written out, as the exhaustive mode does. -/
theorem run_eq_foldl_of_nodup (budget : Nat) : ∀ {following φ : List String} {σ τ : List Step}
    {t : Tally}, scope.Suffices budget following → Tracks scope following τ t → Announced τ σ →
      Accounted scope following φ τ → (φ ++ scope.followed budget following σ).Nodup →
      run scope budget σ t = (scope.unroll budget following σ).foldl (meet scope) t := by
  induction budget with
  | zero =>
    intro following φ σ τ t hb h _ _ _
    have each (t : Tally) (s : Step) (ht : t.following = following) :
        t.step scope (fun _ t => t) s = [s].foldl (meet scope) t :=
      step_eq_meet _ (ht ▸ hb.stops s)
    have all := foldl_eq_foldl_flatMap each σ t h.stack
    rwa [List.flatMap_singleton'] at all
  | succ budget ih =>
    intro following φ σ
    -- the names followed so far grow with each step, so this is no pass over single steps
    induction σ generalizing φ with
    | nil => exact fun _ _ _ _ _ => rfl
    | cons s σ ihσ =>
      intro τ t hb h hσ known nodup
      have behind : scope.followed (budget + 1) following (s :: σ) =
          scope.followedBehind (scope.followed budget) following s ++
            scope.followed (budget + 1) following σ := List.flatMap_cons
      rw [behind, ← List.append_assoc] at nodup
      have first : t.step scope (run scope budget) s =
          (s :: scope.detour (scope.unroll budget) following s).foldl (meet scope) t :=
        step_eq_foldl_of_nodup hmode h known nodup fun name n _ _ hn fresh hu known nodup =>
          ih (hb.follow hn fresh) hu ((walk n).announced _) known nodup
      have tracked : Tracks scope following
          (τ ++ s :: scope.detour (scope.unroll budget) following s)
          (t.step scope (run scope budget) s) :=
        h.step hmode hσ.1 fun name n σ u hn fresh hu =>
          tracks_run hmode budget (hb.follow hn fresh) hu ((walk n).announced σ)
      have met : s :: τ ⊆ τ ++ s :: scope.detour (scope.unroll budget) following s := by
        refine List.cons_subset.2 ⟨?_, List.subset_append_left _ _⟩
        exact List.mem_append_right _ List.mem_cons_self
      have rest := ihσ hb tracked (hσ.2.mono met) (known.step hb s) nodup
      show σ.foldl (Tally.step scope (run scope budget)) (t.step scope (run scope budget) s) = _
      rw [Scope.unroll, List.flatMap_cons, List.foldl_append, ← first]
      exact rest

end Tally

/-! ## Reports -/

namespace Scope

variable {scope : Scope}

/-- In either mode, a report stays within the trail. -/
theorem within_trail (scope : Scope) (own : Option String) (n : Node) :
    (scope.report own n).totalCost ≤ ((scope.trail own n).map Step.cost).sum ∧
      (scope.report own n).maxDepth ≤ deepest 0 (scope.trail own n) := by
  have h : Tally.Within (.start own.toList) _ (scope.trail own n) :=
    Tally.within_run _ (steps n) _ (suffices_length _) rfl
  exact ⟨h.cost.trans (Nat.zero_add _).le, h.maxDepth.trans (Nat.zero_max _).le⟩

/-- Where no name is followed twice, a report of the deduplicated mode has the cost and the depth of
the trail. -/
theorem totals_of_nodup (hmode : scope.mode = .deduplicated) {own : Option String} {n : Node}
    (h : (scope.followedNames own n).Nodup) :
    (scope.report own n).totalCost = ((scope.trail own n).map Step.cost).sum ∧
      (scope.report own n).maxDepth = deepest 0 (scope.trail own n) := by
  have nothing : Tally.Accounted scope own.toList [] [] :=
    fun _ _ hmem => absurd hmem List.not_mem_nil
  have once := Tally.run_eq_foldl_of_nodup hmode _ (suffices_length _) (.start own.toList)
    ((walk n).announced []) nothing h
  have sums := Tally.foldl_meet_sums scope (scope.trail own n) (.start own.toList)
  unfold report
  rw [once]
  exact ⟨sums.cost.trans (Nat.zero_add _), sums.maxDepth.trans (Nat.zero_max _)⟩

theorem followed_inMode (mode : Mode) (budget : Nat) :
    (scope.inMode mode).followed budget = scope.followed budget := by
  induction budget with
  | zero => rfl
  | succ budget ih =>
    funext following σ
    unfold followed
    rw [ih]
    rfl

/-- **Deduplication costs at most as much.** Whatever the fields refer to, the deduplicated mode
finds at most the cost and the depth of the exhaustive mode. It finds the same ones if the
exhaustive mode follows no name twice. -/
theorem totals_deduplicated (scope : Scope) (own : Option String) (n : Node) :
    ((scope.inMode .deduplicated).report own n).totalCost ≤
        ((scope.inMode .exhaustive).report own n).totalCost ∧
      ((scope.inMode .deduplicated).report own n).maxDepth ≤
        ((scope.inMode .exhaustive).report own n).maxDepth ∧
      ((scope.followedNames own n).Nodup →
        ((scope.inMode .deduplicated).report own n).totalCost =
            ((scope.inMode .exhaustive).report own n).totalCost ∧
          ((scope.inMode .deduplicated).report own n).maxDepth =
            ((scope.inMode .exhaustive).report own n).maxDepth) := by
  have hall : (scope.inMode .exhaustive).mode = .exhaustive := rfl
  have honce : (scope.inMode .deduplicated).mode = .deduplicated := rfl
  have within := (scope.inMode .deduplicated).within_trail own n
  rw [totalCost_exhaustive hall, maxDepth_exhaustive hall, trail_inMode]
  rw [trail_inMode] at within
  refine ⟨within.1, within.2, fun h => ?_⟩
  have nodup : ((scope.inMode .deduplicated).followedNames own n).Nodup := by
    unfold followedNames
    rw [followed_inMode]
    exact h
  have same := totals_of_nodup honce nodup
  rwa [trail_inMode] at same

/-- The total of the sales, a calculated field. -/
def totalOfSales : Scope where
  expressions := [
    { Expression.calculatedField "total" "SUM(sales)" with
      reading := .tree (.call 0 true "SUM" [.column 1 none "sales"] none) }]
  parameters := ∅
  links := .off
  mode := .exhaustive

/-- The share of a sale in the total. -/
def shareOfTotal : Node := .binary 2 "/" (.column 3 none "sales") (.column 4 none "total")

/-- The share follows the total once, so both modes find the same cost and depth. -/
theorem totals_deduplicated_share : (totalOfSales.followedNames none shareOfTotal).Nodup ∧
    (((totalOfSales.inMode .deduplicated).report none shareOfTotal).totalCost =
        ((totalOfSales.inMode .exhaustive).report none shareOfTotal).totalCost ∧
      ((totalOfSales.inMode .deduplicated).report none shareOfTotal).maxDepth =
        ((totalOfSales.inMode .exhaustive).report none shareOfTotal).maxDepth) ∧
    ((totalOfSales.inMode .exhaustive).report none shareOfTotal).totalCost = 5 ∧
    ((totalOfSales.inMode .exhaustive).report none shareOfTotal).maxDepth = 2 := by
  have once : (totalOfSales.followedNames none shareOfTotal).Nodup := by decide
  obtain ⟨-, -, same⟩ := totals_deduplicated totalOfSales none shareOfTotal
  exact ⟨once, same once, by decide, by decide⟩

/-- The total and a sum over it. -/
def totalAndSum : Node :=
  .binary 2 "+" (.column 3 none "total") (.call 4 true "SUM" [.column 5 none "total"] none)

/-- Where the total is referred to again, the call behind it is not charged and its levels are not
seen, so the modes find different costs and depths. -/
theorem totals_ne_totalAndSum :
    ((totalOfSales.inMode .exhaustive).report none totalAndSum).totalCost = 15 ∧
      ((totalOfSales.inMode .deduplicated).report none totalAndSum).totalCost = 10 ∧
      ((totalOfSales.inMode .exhaustive).report none totalAndSum).maxDepth = 3 ∧
      ((totalOfSales.inMode .deduplicated).report none totalAndSum).maxDepth = 2 := by
  decide

end Scope

end DashCalc.Cost
