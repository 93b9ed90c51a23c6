import DashCalc.Proofs.Cost.Additivity
import DashCalc.Proofs.Cost.Skipping

/-!
# Following ends

Costing is a walk from moment to moment: the next step of the tree at hand is met, or a name is
followed into its tree, or a tree is done and the walk goes back to where it left off
(`Moment.next?`). Nothing bounds this walk from outside. It ends all the same, and where it ends
stands the report (`Scope.leads_run`): the names that are being followed are calculated fields that
were read, and none comes twice (`Moment.Sound`), so no more of them can be on the way than there
are names of calculated fields.

Each of them adds one level for the reference and the levels of its own tree, which bounds the depth
of every report (`Scope.deepest_unroll_le`), however the fields refer to each other.
-/

namespace DashCalc.Cost

open Relation (ReflTransGen)

/-! ## Moments -/

/-- A moment of costing: the tally, the steps that are left of the tree at hand, and those left of
the trees in which names are being followed, the last one first. -/
structure Moment where
  tally : Tally
  left : List Step
  waiting : List (List Step)

namespace Scope

variable {scope : Scope} {t : Tally} {name : String} {n : Node}

/-- The name that is followed at a step, with its tree: a reference to a calculated field that was
read, unless it is passed over or being followed already. -/
def entered? (scope : Scope) (t : Tally) : Step → Option (String × Node)
  | .reference name =>
    if scope.mode = .deduplicated ∧ name ∈ t.seenNames then none
    else if name ∈ t.following then none
    else (scope.tree? name).map fun n => (name, n)
  | _ => none

theorem entered?_eq_none {s : Step} (h : scope.Stops t.following s) :
    scope.entered? t s = none := by
  cases s with
  | reference name =>
    simp only [entered?]
    split
    · rfl
    · split
      · rfl
      · next fresh =>
        cases hn : scope.tree? name with
        | none => rfl
        | some n => exact absurd (h name n rfl hn) fresh
  | _ => rfl

theorem entered?_eq_some {s : Step} : scope.entered? t s = some (name, n) ↔
    s = .reference name ∧ ¬(scope.mode = .deduplicated ∧ name ∈ t.seenNames) ∧
      name ∉ t.following ∧ scope.tree? name = some n := by
  cases s with
  | reference other =>
    simp only [entered?, Step.reference.injEq]
    constructor
    · intro h
      split at h
      · cases h
      · next new =>
        split at h
        · cases h
        · next fresh =>
          obtain ⟨m, hm, hpair⟩ := Option.map_eq_some_iff.1 h
          cases hpair
          exact ⟨rfl, new, fresh, hm⟩
    · rintro ⟨rfl, new, fresh, hn⟩
      rw [if_neg new, if_neg fresh, hn]
      rfl
  | _ => simp [entered?]

end Scope

namespace Moment

/-- Before the first step through a tree that is followed under a name, if it has one. -/
def start (own : Option String) (n : Node) : Moment := ⟨.start own.toList, steps n, []⟩

/-- The next moment, until nothing is left. A tree that is done is left together with its name. -/
def next? (scope : Scope) : Moment → Option Moment
  | ⟨t, s :: σ, waiting⟩ =>
    match scope.entered? t s with
    | some (name, n) =>
      some ⟨{ t.meet scope s with following := name :: t.following }.enter, steps n, σ :: waiting⟩
    | none => some ⟨t.meet scope s, σ, waiting⟩
  | ⟨t, [], σ :: waiting⟩ =>
    some ⟨{ t.leave with following := t.following.tail }, σ, waiting⟩
  | ⟨_, [], []⟩ => none

/-- Whether costing comes from one moment to another. -/
def Leads (scope : Scope) (m m' : Moment) : Prop :=
  ReflTransGen (fun a b => a.next? scope = some b) m m'

/-- There is one way to go on, so a moment that is passed leads to where costing ends. -/
theorem Leads.to_last {scope : Scope} {first m last : Moment} (h : Leads scope first m)
    (hlast : Leads scope first last) (ends : last.next? scope = none) : Leads scope m last := by
  have unique : Relator.RightUnique fun a b : Moment => a.next? scope = some b :=
    fun _ _ _ hb hc => Option.some.inj (hb.symm.trans hc)
  rcases ReflTransGen.total_of_right_unique unique h hlast with on | back
  · exact on
  · rcases ReflTransGen.cases_head back with rfl | ⟨m', hnext, -⟩
    · exact .refl
    · rw [ends] at hnext
      cases hnext

end Moment

/-! ## Costing ends with the report -/

namespace Tally

variable {scope : Scope}

theorem meet_of_seen {t : Tally} {name : String}
    (h : scope.mode = .deduplicated ∧ name ∈ t.seenNames) :
    t.meet scope (.reference name) = t := by
  simp only [meet, reference, h.1, List.contains_iff_mem, if_pos h.2]

theorem following_foldl_step (descend : List Step → Tally → Tally) (σ : List Step) (t : Tally) :
    (σ.foldl (step scope descend) t).following = t.following := by
  induction σ generalizing t with
  | nil => rfl
  | cons s σ ih => rw [List.foldl_cons, ih, following_step]

/-- A run leaves what is being followed as it was. -/
theorem following_run (budget : Nat) (σ : List Step) (t : Tally) :
    (run scope budget σ t).following = t.following := by
  cases budget <;> exact following_foldl_step _ σ t

end Tally

namespace Scope

variable {scope : Scope} {following : List String}

open Moment (Leads)
open Tally (step run)

/-- One step, followed, is some moments of costing; `inside` says so of the tree of a name. -/
theorem leads_step {descend : List Step → Tally → Tally}
    (inside : ∀ name n u waiting, scope.tree? name = some n → name ∉ following →
      u.following = name :: following →
      Leads scope ⟨u, steps n, waiting⟩ ⟨descend (steps n) u, [], waiting⟩ ∧
        (descend (steps n) u).following = u.following)
    {t : Tally} (ht : t.following = following) (s : Step) (σ : List Step)
    (waiting : List (List Step)) :
    Leads scope ⟨t, s :: σ, waiting⟩ ⟨t.step scope descend s, σ, waiting⟩ := by
  by_cases stops : scope.Stops t.following s
  · have here : Moment.next? scope ⟨t, s :: σ, waiting⟩ = some ⟨t.meet scope s, σ, waiting⟩ := by
      simp only [Moment.next?, entered?_eq_none stops]
    rw [Tally.step_eq_meet _ stops]
    exact .single here
  · obtain ⟨name, n, rfl, hn, fresh⟩ := exists_of_not_stops stops
    rw [Tally.step_follow _ hn fresh]
    split
    · next seen =>
      have passed : scope.entered? t (.reference name) = none := if_pos seen
      have here : Moment.next? scope ⟨t, .reference name :: σ, waiting⟩ = some ⟨t, σ, waiting⟩ := by
        simp only [Moment.next?, passed, Tally.meet_of_seen seen]
      exact .single here
    · next new =>
      -- into the tree of the name, through it, and back
      have enters : scope.entered? t (.reference name) = some (name, n) :=
        entered?_eq_some.2 ⟨rfl, new, fresh, hn⟩
      let u : Tally :=
        { t.meet scope (.reference name) with following := name :: t.following }.enter
      have into : Moment.next? scope ⟨t, .reference name :: σ, waiting⟩ =
          some ⟨u, steps n, σ :: waiting⟩ := by
        simp only [Moment.next?, enters, u]
      obtain ⟨through, kept⟩ := inside name n u (σ :: waiting) hn (ht ▸ fresh) (ht ▸ rfl)
      have tail : (descend (steps n) u).following.tail = t.following := by
        rw [kept]
        rfl
      have back : Moment.next? scope ⟨descend (steps n) u, [], σ :: waiting⟩ =
          some ⟨{ (descend (steps n) u).leave with following := t.following }, σ, waiting⟩ := by
        simp only [Moment.next?, tail]
      exact .head into (through.tail back)

theorem leads_foldl {descend : List Step → Tally → Tally}
    (inside : ∀ name n u waiting, scope.tree? name = some n → name ∉ following →
      u.following = name :: following →
      Leads scope ⟨u, steps n, waiting⟩ ⟨descend (steps n) u, [], waiting⟩ ∧
        (descend (steps n) u).following = u.following)
    (σ : List Step) : ∀ {t : Tally}, t.following = following → ∀ waiting,
      Leads scope ⟨t, σ, waiting⟩ ⟨σ.foldl (step scope descend) t, [], waiting⟩ := by
  induction σ with
  | nil => exact fun _ _ => .refl
  | cons s σ ih =>
    intro t ht waiting
    have first := leads_step inside ht s σ waiting
    have kept : (t.step scope descend s).following = following := by
      rw [Tally.following_step, ht]
    exact first.trans (ih kept waiting)

/-- With a budget that suffices, costing goes through the steps at hand and does to the tally what a
run does. -/
theorem leads_run (budget : Nat) : ∀ {following : List String} (σ : List Step) {t : Tally},
    scope.Suffices budget following → t.following = following → ∀ waiting,
      Leads scope ⟨t, σ, waiting⟩ ⟨run scope budget σ t, [], waiting⟩ := by
  induction budget with
  | zero =>
    intro following σ t hb ht
    refine leads_foldl (fun name n u waiting hn fresh _ => ?_) σ ht
    exact absurd (hb.mem_of_zero hn) fresh
  | succ budget ih =>
    intro following σ t hb ht
    refine leads_foldl (fun name n u waiting hn fresh hu => ⟨?_, ?_⟩) σ ht
    · exact ih (steps n) (hb.follow hn fresh) hu waiting
    · exact Tally.following_run budget (steps n) u

end Scope

/-! ## What is being followed -/

namespace Scope

variable {scope : Scope} {name : String} {n : Node}

/-- The names of the calculated fields. -/
def fieldNames (scope : Scope) : Finset String :=
  ((scope.expressions.filter fun e => e.kind == .calculatedField).map Expression.name).toFinset

/-- A name that can be followed is that of a calculated field that was read. -/
theorem exists_of_tree? (h : scope.tree? name = some n) :
    ∃ e ∈ scope.expressions, e.kind = .calculatedField ∧ e.name = name ∧ e.tree? = some n := by
  obtain ⟨e, he, hn⟩ := tree?_eq_some.1 h
  obtain ⟨hmem, hkind, hname⟩ := find?_eq_some (target?_eq_some.1 he).2
  exact ⟨e, hmem, hkind, hname, hn⟩

theorem mem_fieldNames {e : Expression} (he : e ∈ scope.expressions)
    (hkind : e.kind = .calculatedField) : e.name ∈ scope.fieldNames := by
  rw [fieldNames, List.mem_toFinset]
  exact List.mem_map_of_mem (List.mem_filter.2 ⟨he, beq_iff_eq.2 hkind⟩)

theorem mem_fieldNames_of_tree? (h : scope.tree? name = some n) : name ∈ scope.fieldNames := by
  obtain ⟨e, he, hkind, rfl, -⟩ := exists_of_tree? h
  exact mem_fieldNames he hkind

end Scope

namespace Moment

variable {scope : Scope} {own : Option String} {m m' : Moment}

/-- What holds at every moment: no name is being followed twice, and for each tree that waits there
is one name above the own name of the tree, that of a calculated field that was read. -/
structure Sound (scope : Scope) (own : Option String) (m : Moment) : Prop where
  nodup : m.tally.following.Nodup
  stack : ∃ names, m.tally.following = names ++ own.toList ∧
    names.length = m.waiting.length ∧ ∀ name ∈ names, (scope.tree? name).isSome

theorem Sound.start (scope : Scope) (own : Option String) (n : Node) :
    Sound scope own (start own n) where
  nodup := by cases own <;> simp [Moment.start, Tally.start]
  stack := ⟨[], rfl, rfl, fun _ h => absurd h List.not_mem_nil⟩

/-- What can come next: a step is met, a name is followed, or a tree is done. -/
theorem next?_cases (h : m.next? scope = some m') :
    (m'.tally.following = m.tally.following ∧ m'.waiting = m.waiting) ∨
      (∃ name σ, name ∉ m.tally.following ∧ (scope.tree? name).isSome ∧
        m'.tally.following = name :: m.tally.following ∧ m'.waiting = σ :: m.waiting) ∨
      ∃ σ, m.waiting = σ :: m'.waiting ∧ m'.tally.following = m.tally.following.tail := by
  obtain ⟨t, _ | ⟨s, σ⟩, waiting⟩ := m
  · cases waiting with
    | nil => cases h
    | cons σ waiting =>
      cases h
      exact .inr (.inr ⟨σ, rfl, rfl⟩)
  · simp only [next?] at h
    split at h
    · next name n entered =>
      obtain ⟨-, -, fresh, hn⟩ := Scope.entered?_eq_some.1 entered
      cases h
      exact .inr (.inl ⟨name, σ, fresh, Option.isSome_of_mem hn, rfl, rfl⟩)
    · cases h
      exact .inl ⟨Tally.following_meet t s, rfl⟩

theorem Sound.next (h : Sound scope own m) (hnext : m.next? scope = some m') :
    Sound scope own m' := by
  obtain ⟨names, hnames, hlength, hread⟩ := h.stack
  rcases next?_cases hnext with ⟨hf, hw⟩ | ⟨name, σ, fresh, hsome, hf, hw⟩ | ⟨σ, hw, hf⟩
  · exact ⟨hf ▸ h.nodup, names, hf ▸ hnames, hw ▸ hlength, hread⟩
  · refine ⟨?_, name :: names, ?_, ?_, ?_⟩
    · rw [hf]
      exact List.nodup_cons.2 ⟨fresh, h.nodup⟩
    · rw [hf, hnames, List.cons_append]
    · rw [hw, List.length_cons, List.length_cons, hlength]
    · rintro other hother
      rcases List.mem_cons.1 hother with rfl | hother
      · exact hsome
      · exact hread other hother
  · rw [hw] at hlength
    cases names with
    | nil => cases hlength
    | cons first names =>
      rw [hnames, List.cons_append, List.tail_cons] at hf
      refine ⟨?_, names, hf, Nat.succ.inj hlength,
        fun name hname => hread name (List.mem_cons_of_mem _ hname)⟩
      have nodup := h.nodup
      rw [hnames, List.cons_append] at nodup
      exact hf ▸ nodup.tail

/-- All moments of costing are sound. -/
theorem Sound.leads (h : Sound scope own m) (hleads : Leads scope m m') : Sound scope own m' := by
  induction hleads with
  | refl => exact h
  | tail _ hnext ih => exact ih.next hnext

/-- No more names are being followed than there are names of calculated fields. -/
theorem Sound.waiting_le (h : Sound scope own m) : m.waiting.length ≤ scope.fieldNames.card := by
  obtain ⟨names, hnames, hlength, hread⟩ := h.stack
  have nodup : names.Nodup := by
    have all := h.nodup
    rw [hnames] at all
    exact all.of_append_left
  rw [← hlength, ← List.toFinset_card_of_nodup nodup]
  refine Finset.card_le_card fun name hname => ?_
  obtain ⟨n, hn⟩ := Option.isSome_iff_exists.1 (hread name (List.mem_toFinset.1 hname))
  exact Scope.mem_fieldNames_of_tree? hn

end Moment

/-! ## How deep following goes -/

theorem highest_le {xs : List Nat} {bound : Nat} (h : ∀ x ∈ xs, x ≤ bound) :
    highest xs ≤ bound := by
  induction xs with
  | nil => exact Nat.zero_le _
  | cons x xs ih =>
    have hx := h x List.mem_cons_self
    have hxs := ih fun y hy => h y (List.mem_cons_of_mem _ hy)
    show max x (highest xs) ≤ bound
    omega

/-- How many calls and sort keys a site is nested in, itself included if it is one. -/
def Site.nesting : Nat × Site → Nat
  | (depth, .opening) => depth + 1
  | (_, .column _) => 0

/-- The number of nested calls and sort keys of a tree. -/
def height (n : Node) : Nat := highest ((sites n).map Site.nesting)

theorem nesting_eq_siteLevel : Site.nesting = siteLevel (fun _ => none) 0 := by
  funext ⟨depth, site⟩
  cases site with
  | opening => simp only [Site.nesting, siteLevel, Nat.zero_add]
  | column name => rfl

theorem deepest_steps (n : Node) : deepest 0 (steps n) = height n := by
  rw [(walk n).deepest, height, nesting_eq_siteLevel]

/-- Around a site of a walk there are no more calls and sort keys than its sites nest. -/
theorem Walk.depth_le {ns : List Node} {ps : List (Nat × Site)} {σ : List Step}
    (h : Walk ns ps σ) : ∀ p ∈ ps, p.1 ≤ highest (ps.map (siteLevel (fun _ => none) 0)) := by
  induction h with
  | nil => exact fun _ hp => absurd hp List.not_mem_nil
  | append _ _ ih ih' =>
    intro p hp
    rw [List.map_append, highest_append]
    rcases List.mem_append.1 hp with hp | hp
    · exact (ih p hp).trans (Nat.le_max_left _ _)
    · exact (ih' p hp).trans (Nat.le_max_right _ _)
  | column id table name =>
    intro p hp
    rw [List.mem_singleton.1 hp]
    exact Nat.zero_le _
  | plain _ _ _ _ ih => exact ih
  | call _ _ _ _ _ _ ih => exact ih
  | @nest _ ps _ _ ih =>
    have whole : highest (((0, Site.opening) :: deepened ps).map (siteLevel (fun _ => none) 0)) =
        1 + highest (ps.map (siteLevel (fun _ => none) 0)) := by
      rw [← max_highest_siteLevel, List.map_cons, siteLevel_deepened]
      rfl
    intro p hp
    rw [whole]
    rcases List.mem_cons.1 hp with rfl | hp
    · exact Nat.zero_le _
    · obtain ⟨q, hq, rfl⟩ := List.mem_map.1 hp
      have := ih q hq
      show q.1 + 1 ≤ _
      omega
  | again _ ih => exact ih

theorem depth_le_height {n : Node} {depth : Nat} {site : Site} (h : (depth, site) ∈ sites n) :
    depth ≤ height n := by
  rw [height, nesting_eq_siteLevel]
  exact (walk n).depth_le _ h

namespace Scope

variable {scope : Scope} {name : String} {n : Node}

/-- The largest height of a calculated field that was read. -/
def fieldHeight (scope : Scope) : Nat :=
  highest ((scope.expressions.filter fun e => e.kind == .calculatedField).map fun e =>
    e.tree?.elim 0 height)

theorem height_le_fieldHeight (h : scope.tree? name = some n) : height n ≤ scope.fieldHeight := by
  obtain ⟨e, he, hkind, -, hn⟩ := exists_of_tree? h
  have mem : e ∈ scope.expressions.filter fun e => e.kind == .calculatedField :=
    List.mem_filter.2 ⟨he, beq_iff_eq.2 hkind⟩
  have le := le_highest (List.mem_map_of_mem (f := fun e : Expression => e.tree?.elim 0 height) mem)
  rwa [hn] at le

/-- Following one more name leaves one name less to follow. -/
theorem card_fieldNames_follow {following : List String} (h : scope.tree? name = some n)
    (fresh : name ∉ following) :
    (scope.fieldNames \ (name :: following).toFinset).card + 1 =
      (scope.fieldNames \ following.toFinset).card := by
  have mem : name ∈ scope.fieldNames \ following.toFinset :=
    Finset.mem_sdiff.2 ⟨mem_fieldNames_of_tree? h, fun hm => fresh (List.mem_toFinset.1 hm)⟩
  rw [List.toFinset_cons, Finset.sdiff_insert, Finset.card_erase_add_one mem]

/-- Each name that is left to follow adds at most one level and the height of a field. -/
theorem deepest_unroll_le (budget : Nat) : ∀ (following : List String) (n : Node),
    deepest 0 (scope.unroll budget following (steps n)) ≤
      height n + (scope.fieldNames \ following.toFinset).card * (1 + scope.fieldHeight) := by
  induction budget with
  | zero =>
    intro following n
    show deepest 0 (steps n) ≤ _
    rw [deepest_steps]
    exact Nat.le_add_right _ _
  | succ budget ih =>
    intro following n
    rw [deepest_unroll_succ (fun following n level =>
      deepest_unroll_shift budget following (walk n) level) following (walk n)]
    refine highest_le fun level hlevel => ?_
    obtain ⟨⟨depth, site⟩, hsite, rfl⟩ := List.mem_map.1 hlevel
    cases site with
    | opening =>
      have le := le_highest (List.mem_map_of_mem (f := Site.nesting) hsite)
      change depth + 1 ≤ height n at le
      show 0 + depth + 1 ≤ _
      omega
    | column name =>
      simp only [siteLevel, depthInside]
      cases hm : scope.tree? name with
      | none => exact Nat.zero_le _
      | some m =>
        dsimp only
        split
        · exact Nat.zero_le _
        · next fresh =>
          have inside := ih (name :: following) m
          have own := depth_le_height hsite
          have field := height_le_fieldHeight hm
          rw [← card_fieldNames_follow hm fresh, Nat.add_mul, Nat.one_mul]
          simp only [Option.elim_some]
          omega

/-- **Cycles do not keep costing from ending.** Whatever the fields refer to, costing a tree comes
to a moment after which nothing is left, and its report is the one found there. At every moment on
the way, the names that are being followed are different; but for the own name of the tree they are
names of calculated fields that were read, one for each tree that waits, so that no more trees can
wait than calculated fields have names. Hence the depth is bounded by the height of the tree and,
for each of these names, one level and the height of a field. -/
theorem report_ends (scope : Scope) (own : Option String) (n : Node) :
    (∃ last, last.next? scope = none ∧ last.tally.report = scope.report own n ∧
      Moment.Leads scope (.start own n) last ∧
      ∀ m, Moment.Leads scope (.start own n) m → Moment.Leads scope m last) ∧
    (∀ m, Moment.Leads scope (.start own n) m →
      m.tally.following.Nodup ∧
      (∃ names, m.tally.following = names ++ own.toList ∧ names.length = m.waiting.length ∧
        ∀ name ∈ names, ∃ e ∈ scope.expressions,
          e.kind = .calculatedField ∧ e.name = name ∧ e.isRead = true) ∧
      m.waiting.length ≤ scope.fieldNames.card) ∧
    (scope.report own n).maxDepth ≤ height n + scope.fieldNames.card * (1 + scope.fieldHeight) := by
  refine ⟨?_, ?_, ?_⟩
  · have leads : Moment.Leads scope (.start own n) ⟨_, [], []⟩ :=
      leads_run _ (steps n) (suffices_length own.toList) rfl []
    exact ⟨_, rfl, rfl, leads, fun m hm => hm.to_last leads rfl⟩
  · intro m hm
    have sound := (Moment.Sound.start scope own n).leads hm
    obtain ⟨names, hnames, hlength, hread⟩ := sound.stack
    refine ⟨sound.nodup, ⟨names, hnames, hlength, fun name hname => ?_⟩, sound.waiting_le⟩
    obtain ⟨tree, htree⟩ := Option.isSome_iff_exists.1 (hread name hname)
    obtain ⟨e, he, hkind, hname, htree⟩ := exists_of_tree? htree
    exact ⟨e, he, hkind, hname, Option.isSome_of_mem htree⟩
  · have within := (scope.within_trail own n).2
    have bound := scope.deepest_unroll_le scope.expressions.length own.toList n
    have left : (scope.fieldNames \ own.toList.toFinset).card ≤ scope.fieldNames.card :=
      Finset.card_le_card Finset.sdiff_subset
    calc (scope.report own n).maxDepth
        ≤ deepest 0 (scope.trail own n) := within
      _ ≤ height n + (scope.fieldNames \ own.toList.toFinset).card * (1 + scope.fieldHeight) :=
        bound
      _ ≤ height n + scope.fieldNames.card * (1 + scope.fieldHeight) :=
        Nat.add_le_add_left (Nat.mul_le_mul_right _ left) _

end Scope

end DashCalc.Cost
