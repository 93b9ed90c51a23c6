import DashCalc.Proofs.Cost.Entries

/-!
# What the deduplicated mode leaves out

The deduplicated mode records the first entry of each key, in the order in which the exhaustive
mode records them all (`Scope.report_deduplicated`).

The two modes go different ways: the exhaustive mode follows a name again and again, the
deduplicated mode once, and what is being followed at that moment differs. They agree by the
invariant `Tally.Tracks`: all steps of a field that was met and is not being followed any more are
on the trail already, so writing the field out again brings no new key (`Scope.Closed.covers`).
-/

namespace DashCalc.Cost

/-! ## Trails that are closed -/

namespace Scope

variable {scope : Scope} {τ : List Step} {following : List String}

/-- Whether the fields that were met have all their steps among these, apart from the fields that
are being followed. -/
def Closed (scope : Scope) (following : List String) (τ : List Step) : Prop :=
  ∀ name n, .reference name ∈ τ → scope.tree? name = some n → name ∉ following → steps n ⊆ τ

/-- Whether a step is among these or changes the level only. -/
def Covers (τ : List Step) (s : Step) : Prop := s ∈ τ ∨ s = .deeper ∨ s = .shallower

theorem Closed.mono {following' : List String} (h : scope.Closed following τ)
    (hsub : following ⊆ following') : scope.Closed following' τ :=
  fun name n hmem ht hnot => h name n hmem ht fun hin => hnot (hsub hin)

/-- Writing out steps of a closed trail leads to steps of the trail. -/
theorem Closed.covers (budget : Nat) : ∀ {following : List String} {σ : List Step},
    scope.Closed following τ → σ ⊆ τ → ∀ s ∈ scope.unroll budget following σ, Covers τ s := by
  induction budget with
  | zero => exact fun _ hσ s hs => .inl (hσ hs)
  | succ budget ih =>
    intro following σ h hσ s hs
    obtain ⟨r, hr, hs⟩ := List.mem_flatMap.1 hs
    rcases List.mem_cons.1 hs with rfl | hs
    · exact .inl (hσ hr)
    · obtain ⟨name, n, rfl, ht, fresh, e | hinside | e⟩ := mem_detour hs
      · exact .inr (.inl e)
      · have hn : steps n ⊆ τ := h name n (hσ hr) ht fresh
        exact ih (h.mono (List.subset_cons_self name following)) hn s hinside
      · exact .inr (.inr e)

theorem Covers.key {s : Step} (h : Covers τ s) {k : Key} (hk : s.key? = some k) :
    k ∈ τ.filterMap Step.key? := by
  rcases h with h | rfl | rfl
  · exact List.mem_filterMap.2 ⟨s, h, hk⟩
  · cases hk
  · cases hk

end Scope

/-! ## What has been seen -/

namespace Tally

variable {scope : Scope}

/-- The keys that were seen. -/
def seen (t : Tally) : List Key := t.seenCalls.map .call ++ t.seenNames.map .name

theorem call_mem_seen {t : Tally} {id : NodeId} : .call id ∈ t.seen ↔ id ∈ t.seenCalls := by
  simp [seen]

theorem name_mem_seen {t : Tally} {name : String} : .name name ∈ t.seen ↔ name ∈ t.seenNames := by
  simp [seen]

/-- A tally after the deduplicated mode met a step, compared with the tally before. -/
structure Met (scope : Scope) (s : Step) (t u : Tally) : Prop where
  dependencies : u.dependencies.toList = t.dependencies.toList ++
    (firstPerKey t.seen (scope.entryOf? t.level s).toList).map Entry.dependency
  seen : ∀ k, k ∈ u.seen ↔ k ∈ t.seen ∨ s.key? = some k

/-- A step with a key that was seen changes nothing. -/
theorem Met.again {t : Tally} {s : Step} (h : ∀ k, s.key? = some k → k ∈ t.seen) :
    Met scope s t t := by
  refine ⟨?_, fun k => ⟨.inl, Or.rec id (h k)⟩⟩
  have old : ∀ e ∈ (scope.entryOf? t.level s).toList, e.key ∈ t.seen := by
    intro e he
    refine h e.key (Option.mem_toList.1 ?_)
    rw [← Scope.map_key_entryOf? t.level s]
    exact List.mem_map_of_mem he
  rw [firstPerKey_eq_nil old]
  exact (List.append_nil _).symm

/-- A step with a new key adds its entry. -/
theorem Met.fresh {t u : Tally} {s : Step} {e : Entry} (he : scope.entryOf? t.level s = some e)
    (hkey : s.key? = some e.key) (hnew : e.key ∉ t.seen)
    (hdependencies : u.dependencies = t.dependencies.push e.dependency)
    (hseen : ∀ k, k ∈ u.seen ↔ k ∈ t.seen ∨ k = e.key) : Met scope s t u := by
  refine ⟨?_, fun k => ?_⟩
  · rw [he, hdependencies, Array.toList_push]
    simp only [Option.toList, firstPerKey, if_neg hnew, List.map_cons, List.map_nil]
  · rw [hseen k, hkey, Option.some.injEq, eq_comm (a := k)]

variable (hmode : scope.mode = .deduplicated)
include hmode

theorem recordCall_met (t : Tally) (id : NodeId) (aggregate : Bool) (name : String) :
    Met scope (.call id aggregate name) t (t.recordCall scope id aggregate name) := by
  by_cases hid : id ∈ t.seenCalls
  · have h : t.recordCall scope id aggregate name = t := by
      simp only [recordCall, hmode, List.contains_iff_mem, if_pos hid]
    rw [h]
    refine .again ?_
    rintro _ ⟨⟩
    exact call_mem_seen.2 hid
  · have h : t.recordCall scope id aggregate name =
        { t with seenCalls := id :: t.seenCalls }.record
          (scope.callRecord t.level aggregate name) := by
      simp only [recordCall, hmode, List.contains_iff_mem, if_neg hid]
      rfl
    rw [h]
    refine .fresh rfl rfl (fun hk => hid (call_mem_seen.1 hk)) rfl fun k => ?_
    cases k with
    | call other => simp [seen, record, or_comm]
    | name other => simp [seen, record]

theorem reference_met (t : Tally) (name : String) :
    Met scope (.reference name) t (t.reference scope none name) := by
  by_cases hname : name ∈ t.seenNames
  · have h : t.reference scope none name = t := by
      simp only [reference, hmode, List.contains_iff_mem, if_pos hname]
    rw [h]
    refine .again ?_
    rintro _ ⟨⟩
    exact name_mem_seen.2 hname
  · have h : t.reference scope none name =
        { t with seenNames := name :: t.seenNames }.record
          (scope.referenceRecord t.level name) := by
      simp only [reference, hmode, List.contains_iff_mem, if_neg hname, recordReferent_eq]
    rw [h]
    refine .fresh rfl rfl (fun hk => hname (name_mem_seen.1 hk)) rfl fun k => ?_
    cases k with
    | call other => simp [seen, record]
    | name other => simp [seen, record, or_comm]

/-- The deduplicated mode records the entry of a step if its key is new. -/
theorem meet_met (t : Tally) (s : Step) : Met scope s t (t.meet scope s) := by
  cases s with
  | call id aggregate name =>
    obtain ⟨dependencies, seen⟩ := recordCall_met hmode (t.charge aggregate name) id aggregate name
    exact ⟨dependencies, seen⟩
  | callAgain id aggregate name =>
    obtain ⟨dependencies, seen⟩ := recordCall_met hmode t id aggregate name
    exact ⟨dependencies, seen⟩
  | reference name => exact reference_met hmode t name
  | referenceAgain name =>
    obtain ⟨dependencies, seen⟩ := reference_met hmode t name
    exact ⟨dependencies, seen⟩
  | deeper => exact ⟨(List.append_nil _).symm, fun k => ⟨.inl, Or.rec id (nomatch ·)⟩⟩
  | shallower => exact ⟨(List.append_nil _).symm, fun k => ⟨.inl, Or.rec id (nomatch ·)⟩⟩

end Tally

/-! ## Runs -/

namespace Tally

variable {scope : Scope} {following : List String} {τ : List Step} {t : Tally}

/-- Whether a tally of the deduplicated mode is what a trail leads to: it has the first entry of
each key and the flags of all steps, and the trail is closed but for the fields being followed. -/
structure Tracks (scope : Scope) (following : List String) (τ : List Step) (t : Tally) : Prop where
  stack : t.following = following
  level : t.level = levelAfter 0 τ
  dependencies : t.dependencies.toList =
    (firstPerKey [] (scope.entriesFrom 0 τ)).map Entry.dependency
  seen : ∀ k, k ∈ t.seen ↔ k ∈ τ.filterMap Step.key?
  isAggregation : t.isAggregation = τ.any Step.aggregates
  isStringFunction : t.isStringFunction = τ.any Step.isString
  announced : ∀ name, .referenceAgain name ∈ τ → .reference name ∈ τ
  closed : scope.Closed following τ

namespace Tracks

theorem start (following : List String) : Tracks scope following [] (.start following) where
  stack := rfl
  level := rfl
  dependencies := rfl
  seen := fun _ => Iff.rfl
  isAggregation := rfl
  isStringFunction := rfl
  announced := fun _ h => absurd h List.not_mem_nil
  closed := fun _ _ h => absurd h List.not_mem_nil

/-- The entries of more steps, behind those of a trail. -/
theorem entries_append (h : Tracks scope following τ t) (ρ : List Step) :
    firstPerKey [] (scope.entriesFrom 0 (τ ++ ρ)) =
      firstPerKey [] (scope.entriesFrom 0 τ) ++
        firstPerKey t.seen (scope.entriesFrom t.level ρ) := by
  rw [Scope.entriesFrom_append, ← h.level]
  refine firstPerKey_append (fun k => ?_) _
  rw [h.seen k, Scope.map_key_entriesFrom]
  simp only [List.not_mem_nil, false_or]

/-- What meeting a step on its own does. A field that is met from now on has to be followed. -/
theorem meet (hmode : scope.mode = .deduplicated) (h : Tracks scope following τ t) {s : Step}
    (announced : ∀ name, s = .referenceAgain name → .reference name ∈ τ)
    (followed : ∀ name n, s = .reference name → scope.tree? name = some n → name ∈ following) :
    Tracks scope following (τ ++ [s]) (t.meet scope s) := by
  have met := meet_met hmode t s
  have sums := meet_sums scope t s
  refine ⟨?_, ?_, ?_, fun k => ?_, ?_, ?_, fun name hname => ?_, fun name n hname ht hnot => ?_⟩
  · rw [following_meet, h.stack]
  · rw [sums.level, h.level, levelAfter_append]
    rfl
  · rw [met.dependencies, h.dependencies, h.entries_append [s], List.map_append,
      Scope.entriesFrom, Scope.entriesFrom, List.append_nil]
  · rw [met.seen, h.seen, List.filterMap_append, List.mem_append]
    refine or_congr_right ?_
    rw [List.mem_filterMap]
    simp only [List.mem_singleton, exists_eq_left]
  · rw [sums.isAggregation, h.isAggregation, List.any_append, List.any_cons, List.any_nil,
      Bool.or_false]
  · rw [sums.isStringFunction, h.isStringFunction, List.any_append, List.any_cons, List.any_nil,
      Bool.or_false]
  · rcases List.mem_append.1 hname with hname | hname
    · exact List.mem_append_left _ (h.announced name hname)
    · exact List.mem_append_left _ (announced name (List.mem_singleton.1 hname).symm)
  · rcases List.mem_append.1 hname with hname | hname
    · exact List.subset_append_of_subset_left _ (h.closed name n hname ht hnot)
    · exact absurd (followed name n (List.mem_singleton.1 hname).symm ht) hnot

/-- Going one level deeper and up again keeps track. -/
theorem enter (h : Tracks scope following τ t) (hmode : scope.mode = .deduplicated) :
    Tracks scope following (τ ++ [.deeper]) t.enter := by
  refine h.meet hmode (s := .deeper) ?_ ?_
  · rintro _ ⟨⟩
  · rintro _ _ ⟨⟩

theorem leave (h : Tracks scope following τ t) (hmode : scope.mode = .deduplicated) :
    Tracks scope following (τ ++ [.shallower]) t.leave := by
  refine h.meet hmode (s := .shallower) ?_ ?_
  · rintro _ ⟨⟩
  · rintro _ _ ⟨⟩

/-- Steps that are covered already change nothing, if they end on the level where they start. -/
theorem append_covered (h : Tracks scope following τ t) {ρ : List Step}
    (flat : ∀ level, levelAfter level ρ = level) (covered : ∀ s ∈ ρ, Scope.Covers τ s) :
    Tracks scope following (τ ++ ρ) t := by
  -- a step that is no change of the level is on the trail
  have old {s : Step} (hs : s ∈ τ ++ ρ) (hd : s ≠ .deeper) (hu : s ≠ .shallower) : s ∈ τ := by
    rcases List.mem_append.1 hs with hs | hs
    · exact hs
    · rcases covered s hs with hs | hs | hs
      · exact hs
      · exact absurd hs hd
      · exact absurd hs hu
  have flag (p : Step → Bool) (hd : p .deeper = false) (hu : p .shallower = false) :
      (τ ++ ρ).any p = τ.any p := by
    rw [Bool.eq_iff_iff, List.any_eq_true, List.any_eq_true]
    constructor
    · rintro ⟨s, hs, hp⟩
      refine ⟨s, old hs ?_ ?_, hp⟩
      · rintro rfl
        exact Bool.false_ne_true (hd.symm.trans hp)
      · rintro rfl
        exact Bool.false_ne_true (hu.symm.trans hp)
    · rintro ⟨s, hs, hp⟩
      exact ⟨s, List.mem_append_left _ hs, hp⟩
  have keys : ∀ k, k ∈ (τ ++ ρ).filterMap Step.key? ↔ k ∈ τ.filterMap Step.key? := by
    intro k
    rw [List.filterMap_append, List.mem_append, or_iff_left_iff_imp, List.mem_filterMap]
    rintro ⟨s, hs, hk⟩
    exact (covered s hs).key hk
  have none_new : ∀ e ∈ scope.entriesFrom t.level ρ, e.key ∈ t.seen := by
    intro e he
    have hk : e.key ∈ ρ.filterMap Step.key? := by
      rw [← Scope.map_key_entriesFrom t.level ρ]
      exact List.mem_map_of_mem he
    rw [h.seen, ← keys, List.filterMap_append]
    exact List.mem_append_right _ hk
  refine ⟨h.stack, ?_, ?_, fun k => ?_, ?_, ?_, fun name hname => ?_,
    fun name n hname ht hnot => ?_⟩
  · rw [levelAfter_append, flat, h.level]
  · rw [h.entries_append, firstPerKey_eq_nil none_new, List.append_nil, h.dependencies]
  · rw [keys, h.seen]
  · rw [flag _ rfl rfl, h.isAggregation]
  · rw [flag _ rfl rfl, h.isStringFunction]
  · exact List.mem_append_left _ (h.announced name (old hname nofun nofun))
  · exact List.subset_append_of_subset_left _ (h.closed name n (old hname nofun nofun) ht hnot)

/-- From now on one more name is being followed. -/
theorem begin_following (h : Tracks scope following τ t) (name : String) :
    Tracks scope (name :: following) τ { t with following := name :: following } :=
  { h with
    stack := rfl
    closed := h.closed.mono (List.subset_cons_self name following) }

/-- A name is met, and from then on it is being followed. -/
theorem meet_followed (hmode : scope.mode = .deduplicated) (h : Tracks scope following τ t)
    (name : String) : Tracks scope (name :: following) (τ ++ [.reference name])
      { t.meet scope (.reference name) with following := name :: following } := by
  rw [← meet_following]
  refine (h.begin_following name).meet hmode nofun ?_
  rintro _ m ⟨⟩ -
  exact List.mem_cons_self

/-- A name is no longer being followed once the steps of its field are there. -/
theorem end_following {name : String} {n : Node} (h : Tracks scope (name :: following) τ t)
    (ht : scope.tree? name = some n) (hn : steps n ⊆ τ) :
    Tracks scope following τ { t with following } := by
  refine { h with stack := rfl, closed := fun other m hmem hm hnot => ?_ }
  by_cases same : other = name
  · subst same
    obtain rfl : n = m := Option.some.inj (ht.symm.trans hm)
    exact hn
  · refine h.closed other m hmem hm ?_
    rw [List.mem_cons, not_or]
    exact ⟨same, hnot⟩

/-- A name that was seen is a reference that was met. -/
theorem reference_mem (h : Tracks scope following τ t) {name : String}
    (hname : name ∈ t.seenNames) : .reference name ∈ τ := by
  have hkey : .name name ∈ τ.filterMap Step.key? := (h.seen _).1 (name_mem_seen.2 hname)
  obtain ⟨s, hs, hk⟩ := List.mem_filterMap.1 hkey
  cases s <;> cases hk
  · exact hs
  · exact h.announced name hs

/-- What is written out behind a name that was seen is covered. -/
theorem reference_seen (h : Tracks scope following τ t) (budget : Nat) {name : String}
    (hname : name ∈ t.seenNames) :
    Tracks scope following (τ ++ scope.unroll budget following [.reference name]) t := by
  have hmet : .reference name ∈ τ := h.reference_mem hname
  refine h.append_covered (fun level => ?_) ?_
  · exact Scope.levelAfter_unroll budget following [.reference name] level
  · exact h.closed.covers budget (List.cons_subset.2 ⟨hmet, List.nil_subset τ⟩)

/-- One step, with what is written out behind it; `inside` says what following a name does. -/
theorem step (hmode : scope.mode = .deduplicated) (h : Tracks scope following τ t)
    {budget : Nat} {descend : List Step → Tally → Tally} {s : Step}
    (announced : ∀ name, s = .referenceAgain name → .reference name ∈ τ)
    (inside : ∀ name n σ u, scope.tree? name = some n → name ∉ following →
      Tracks scope (name :: following) σ u →
      Tracks scope (name :: following) (σ ++ scope.unroll budget (name :: following) (steps n))
        (descend (steps n) u)) :
    Tracks scope following (τ ++ s :: scope.detour (scope.unroll budget) following s)
      (t.step scope descend s) := by
  by_cases stops : scope.Stops following s
  · rw [step_eq_meet _ (h.stack ▸ stops), stops.detour_eq_nil]
    exact h.meet hmode announced stops
  · obtain ⟨name, n, rfl, ht, fresh⟩ := Scope.exists_of_not_stops stops
    rw [step_follow _ ht (h.stack ▸ fresh)]
    by_cases hname : name ∈ t.seenNames
    · rw [if_pos ⟨hmode, hname⟩, ← Scope.unroll_singleton]
      exact h.reference_seen (budget + 1) hname
    · rw [if_neg fun seen => hname seen.2, Scope.detour_reference _ ht fresh, h.stack]
      have below := inside name n _ _ ht fresh ((h.meet_followed hmode name).enter hmode)
      have there : steps n ⊆ τ ++ [.reference name] ++ [.deeper] ++
          scope.unroll budget (name :: following) (steps n) ++ [.shallower] :=
        fun s hs => List.mem_append_left _ (List.mem_append_right _ (Scope.subset_unroll _ _ _ hs))
      have done := (below.leave hmode).end_following ht there
      rw [List.append_assoc, List.append_assoc, List.append_assoc] at done
      exact done

/-- Many steps, if each step with what is written out behind it can be taken. -/
theorem foldl {behind : Step → List Step} {next : Tally → Step → Tally}
    (each : ∀ (τ : List Step) (t : Tally) (s : Step), Tracks scope following τ t →
      (∀ name, s = .referenceAgain name → .reference name ∈ τ) →
      Tracks scope following (τ ++ s :: behind s) (next t s)) (σ : List Step) :
    ∀ {τ : List Step} {t : Tally}, Tracks scope following τ t → Announced τ σ →
      Tracks scope following (τ ++ σ.flatMap fun s => s :: behind s) (σ.foldl next t) := by
  induction σ with
  | nil =>
    intro τ t h _
    rwa [List.flatMap_nil, List.append_nil]
  | cons s σ ih =>
    intro τ t h hσ
    have met : s :: τ ⊆ τ ++ s :: behind s := by
      refine List.cons_subset.2 ⟨?_, List.subset_append_left _ _⟩
      exact List.mem_append_right _ List.mem_cons_self
    have := ih (each τ t s h hσ.1) (hσ.2.mono met)
    rwa [List.append_assoc] at this

end Tracks

/-- The deduplicated mode tracks the written out steps, although it does not go through them all. -/
theorem tracks_run (hmode : scope.mode = .deduplicated) (budget : Nat) :
    ∀ {following : List String} {σ τ : List Step} {t : Tally}, scope.Suffices budget following →
      Tracks scope following τ t → Announced τ σ →
      Tracks scope following (τ ++ scope.unroll budget following σ) (run scope budget σ t) := by
  induction budget with
  | zero =>
    intro following σ τ t hb h hσ
    -- with an empty budget all names that could be followed are being followed
    have each : ∀ (τ : List Step) (t : Tally) (s : Step), Tracks scope following τ t →
        (∀ name, s = .referenceAgain name → .reference name ∈ τ) →
        Tracks scope following (τ ++ [s]) (t.step scope (fun _ t => t) s) := by
      intro τ t s h hs
      rw [step_eq_meet _ (h.stack ▸ hb.stops s)]
      exact h.meet hmode hs (hb.stops s)
    have all := Tracks.foldl each σ h hσ
    rwa [List.flatMap_singleton'] at all
  | succ budget ih =>
    intro following σ τ t hb h hσ
    refine Tracks.foldl (fun τ t s h hs => ?_) σ h hσ
    refine h.step hmode hs fun name n σ u ht fresh hu => ?_
    exact ih (hb.follow ht fresh) hu ((walk n).announced σ)

end Tally

/-! ## Reports -/

namespace Scope

variable {scope : Scope}

/-- What the deduplicated mode has at the end. -/
theorem tracks_trail (hmode : scope.mode = .deduplicated) (own : Option String) (n : Node) :
    Tally.Tracks scope own.toList (scope.trail own n)
      (Tally.run scope scope.expressions.length (steps n) (.start own.toList)) :=
  Tally.tracks_run hmode _ (suffices_length _) (.start _) ((walk n).announced [])

/-- The deduplicated mode records the first entry of each key. -/
theorem dependencies_deduplicated (hmode : scope.mode = .deduplicated) (own : Option String)
    (n : Node) : (scope.report own n).dependencies =
      (firstPerKey [] (scope.entries own n)).map Entry.dependency :=
  (tracks_trail hmode own n).dependencies

/-- Both modes find a tree to be an aggregation if a step of its trail is one. -/
theorem report_isAggregation (own : Option String) (n : Node) :
    (scope.report own n).isAggregation = (scope.trail own n).any Step.aggregates := by
  cases hmode : scope.mode with
  | exhaustive =>
    rw [report_exhaustive hmode]
    exact (Tally.foldl_meet_sums _ _ _).isAggregation
  | deduplicated => exact (tracks_trail hmode own n).isAggregation

/-- Both modes find a tree to be a string function if a step of its trail is one. -/
theorem report_isStringFunction (own : Option String) (n : Node) :
    (scope.report own n).isStringFunction = (scope.trail own n).any Step.isString := by
  cases hmode : scope.mode with
  | exhaustive =>
    rw [report_exhaustive hmode]
    exact (Tally.foldl_meet_sums _ _ _).isStringFunction
  | deduplicated => exact (tracks_trail hmode own n).isStringFunction

/-- The same names in another mode. -/
def inMode (scope : Scope) (mode : Mode) : Scope := { scope with mode }

theorem unroll_inMode (mode : Mode) (budget : Nat) :
    (scope.inMode mode).unroll budget = scope.unroll budget := by
  induction budget with
  | zero => rfl
  | succ budget ih =>
    funext following σ
    unfold unroll
    rw [ih]
    rfl

theorem entriesFrom_inMode (mode : Mode) (σ : List Step) (level : Nat) :
    (scope.inMode mode).entriesFrom level σ = scope.entriesFrom level σ := by
  induction σ generalizing level with
  | nil => rfl
  | cons s σ ih =>
    have here : (scope.inMode mode).entryOf? level s = scope.entryOf? level s := by cases s <;> rfl
    rw [entriesFrom, entriesFrom, here, ih]

/-- The mode has no part in the entries of a tree. -/
theorem entries_inMode (mode : Mode) (own : Option String) (n : Node) :
    (scope.inMode mode).entries own n = scope.entries own n := by
  unfold entries trail
  rw [unroll_inMode, entriesFrom_inMode]
  rfl

theorem trail_inMode (mode : Mode) (own : Option String) (n : Node) :
    (scope.inMode mode).trail own n = scope.trail own n := by
  unfold trail
  rw [unroll_inMode]
  rfl

end Scope

/-- Whether a dependency is a call. -/
def Dependency.isCall (d : Dependency) : Bool := d.kind == .function || d.kind == .aggregate

/-- Whether the key of an entry belongs to its record. The record of a call has the id of a call of
that function, in the tree or in that of a field; any other record has its own name. -/
def Entry.IsKeyed (scope : Scope) (n : Node) (e : Entry) : Prop :=
  match e.key with
  | .call id => ∃ aggregate m, (m = n ∨ ∃ name, scope.tree? name = some m) ∧
      CallAmong m.nodes id aggregate e.dependency.name ∧
      e.dependency.kind = if aggregate then .aggregate else .function
  | .name name => e.dependency.name = name ∧
      e.dependency.kind ≠ .function ∧ e.dependency.kind ≠ .aggregate

namespace Scope

variable {scope : Scope}

theorem referenceRecord_keyed (level : Nat) (name : String) :
    (scope.referenceRecord level name).name = name ∧
      (scope.referenceRecord level name).kind ≠ .function ∧
      (scope.referenceRecord level name).kind ≠ .aggregate := by
  unfold referenceRecord
  cases scope.referent name <;> exact ⟨rfl, nofun, nofun⟩

theorem isCall_referenceRecord (level : Nat) (name : String) :
    (scope.referenceRecord level name).isCall = false := by
  obtain ⟨-, function, aggregate⟩ := scope.referenceRecord_keyed level name
  simp [Dependency.isCall, function, aggregate]

/-- A call on the trail of a tree is a call of the tree or of a field. -/
theorem callAmong_of_mem_trail {own : Option String} {n : Node} {s : Step}
    (hs : s ∈ scope.trail own n) {id : NodeId} {aggregate : Bool} {name : String}
    (hcall : s.IsCall id aggregate name) :
    ∃ m, (m = n ∨ ∃ name, scope.tree? name = some m) ∧ CallAmong m.nodes id aggregate name := by
  rcases mem_unroll hs with hs | rfl | rfl | ⟨_, field, m, -, -, -, hm, hs⟩
  · exact ⟨n, .inl rfl, (walk n).callAmong hs hcall⟩
  · rcases hcall with e | e <;> cases e
  · rcases hcall with e | e <;> cases e
  · exact ⟨m, .inr ⟨field, hm⟩, (walk m).callAmong hs hcall⟩

theorem entries_keyed {own : Option String} {n : Node} {e : Entry}
    (h : e ∈ scope.entries own n) : e.IsKeyed scope n := by
  have call {level : Nat} {s : Step} {id : NodeId} {aggregate : Bool} {name : String}
      (hs : s ∈ scope.trail own n) (hcall : s.IsCall id aggregate name) :
      Entry.IsKeyed scope n ⟨.call id, scope.callRecord level aggregate name⟩ := by
    obtain ⟨m, hm, hamong⟩ := callAmong_of_mem_trail hs hcall
    exact ⟨aggregate, m, hm, hamong, rfl⟩
  obtain ⟨level, s, hs, he⟩ := exists_of_mem_entriesFrom h
  cases s with
  | call id aggregate name =>
    cases he
    exact call hs (.inl rfl)
  | callAgain id aggregate name =>
    cases he
    exact call hs (.inr rfl)
  | reference name =>
    cases he
    exact referenceRecord_keyed level name
  | referenceAgain name =>
    cases he
    exact referenceRecord_keyed level name
  | deeper => cases he
  | shallower => cases he

/-- **Deduplication keeps the first record of each key.** Whatever the fields refer to, the
exhaustive mode records all entries of a tree, the deduplicated mode the first entry of each key,
and both find the same kind of computation. -/
theorem report_deduplicated (scope : Scope) (own : Option String) (n : Node) :
    ((scope.inMode .exhaustive).report own n).dependencies =
        (scope.entries own n).map Entry.dependency ∧
      ((scope.inMode .deduplicated).report own n).dependencies =
        (firstPerKey [] (scope.entries own n)).map Entry.dependency ∧
      (∀ e ∈ scope.entries own n, e.IsKeyed scope n) ∧
      ((scope.inMode .deduplicated).report own n).isAggregation =
        ((scope.inMode .exhaustive).report own n).isAggregation ∧
      ((scope.inMode .deduplicated).report own n).isStringFunction =
        ((scope.inMode .exhaustive).report own n).isStringFunction := by
  refine ⟨?_, ?_, fun e he => entries_keyed he, ?_, ?_⟩
  · rw [dependencies_exhaustive rfl, entries_inMode]
  · rw [dependencies_deduplicated rfl, entries_inMode]
  · rw [report_isAggregation, report_isAggregation, trail_inMode, trail_inMode]
  · rw [report_isStringFunction, report_isStringFunction, trail_inMode, trail_inMode]

/-- The tree of a ratio that names a share twice. -/
def ratioTree : Node := .binary 0 "/" (.column 1 none "share") (.column 2 none "share")

/-- A ratio of a share, and the share of the ratio: two calculated fields that refer to each
other. -/
def ratioAndShare : Scope where
  expressions := [
    { Expression.calculatedField "ratio" "share / share" with reading := .tree ratioTree },
    { Expression.calculatedField "share" "SUM(ratio)" with
      reading := .tree (.call 3 true "SUM" [.column 4 none "ratio"] none) }]
  parameters := ∅
  links := .off
  mode := .exhaustive

/-- The second share is left out, with all that stands behind it. -/
theorem report_deduplicated_ratio :
    ((ratioAndShare.inMode .exhaustive).report (some "ratio") ratioTree).dependencies.map
        Dependency.name = ["share", "SUM", "ratio", "share", "SUM", "ratio"] ∧
      ((ratioAndShare.inMode .deduplicated).report (some "ratio") ratioTree).dependencies.map
        Dependency.name = ["share", "SUM", "ratio"] := by
  obtain ⟨all, once, -⟩ := report_deduplicated ratioAndShare (some "ratio") ratioTree
  rw [all, once]
  decide

end Scope

end DashCalc.Cost
