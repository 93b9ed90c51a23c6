import DashCalc.Proofs.Cost.Deduplication
import DashCalc.Proofs.Cost.Termination

/-!
# What a visit restores

A visit goes through the steps of a tree, whatever was added up before. Each level that it opens it
closes again (`Framed`), and each name that it follows it leaves again, so at the end the level and
the names are what they were, while all that was added up stays (`Tally.Restores`). A call is
recorded on a level from which another one is opened, so never on the last one.

Costing leaves a level where one is closed and at the end of a tree that is followed. On the way
through framed steps these are levels beyond the one on which it started (`Moment.LeadsBeyond`), so
there always is a level to leave (`visit_restores`).

That nothing is taken back of depths and costs is about natural numbers: it is said of counters
that do not overflow.
-/

namespace DashCalc.Cost

open Relation (ReflTransGen)
open Sql (Bound Frame Window)

/-! ## Levels that are opened are closed -/

/-- Steps that close each level that they open. A call comes before steps that open a level, and it
comes again after such steps only. -/
inductive Framed : List Step → Prop
  | nil : Framed []
  | append {σ τ : List Step} : Framed σ → Framed τ → Framed (σ ++ τ)
  | reference (name : String) : Framed [.reference name]
  | referenceAgain (name : String) : Framed [.referenceAgain name]
  | nest {σ : List Step} : Framed σ → Framed (.deeper :: (σ ++ [.shallower]))
  | call {σ : List Step} (id : NodeId) (aggregate : Bool) (name : String) :
    Framed σ → .deeper ∈ σ → Framed (.call id aggregate name :: σ)
  | callAgain {σ : List Step} (id : NodeId) (aggregate : Bool) (name : String) :
    Framed σ → .deeper ∈ σ → Framed (σ ++ [.callAgain id aggregate name])

theorem Framed.again {σ : List Step} {n : Node} (h : Framed σ) (whole : steps n ⊆ σ) :
    Framed (σ ++ again n) := by
  cases n with
  | call id aggregate name =>
    exact .callAgain id aggregate name h (whole (List.mem_cons_of_mem _ List.mem_cons_self))
  | column _ table name => exact .append h (.referenceAgain _)
  | _ => exact .append h .nil

mutual

/-- The steps of every tree are framed. -/
theorem framed : ∀ n : Node, Framed (steps n)
  | .binary _ _ left right => .append (framed left) (framed right)
  | .unary _ _ operand => framed operand
  | .call id aggregate name arguments window =>
    .call id aggregate name (.nest (.append (framedOfList arguments) (framedOfWindow? window)))
      List.mem_cons_self
  | .column _ _ _ => .reference _
  | .list _ items => framedOfList items
  | .branches _ operand cases otherwise =>
    .append (.append (framedOf? operand) (framedOfCases cases)) (framedOf? otherwise)
  | .number _ _ => .nil
  | .text _ _ => .nil
  | .bool _ _ => .nil
  | .null _ => .nil
  | .star _ => .nil

theorem framedOfList : ∀ ns : List Node, Framed (stepsOfList ns)
  | [] => .nil
  | n :: ns => .append (framed n) (framedOfList ns)

theorem framedOf? : ∀ n : Option Node, Framed (stepsOf? n)
  | none => .nil
  | some n => framed n

theorem framedOfCases : ∀ cases : List (Node × Node), Framed (stepsOfCases cases)
  | [] => .nil
  | (condition, result) :: cases =>
    .append (.append (framed condition) (framed result)) (framedOfCases cases)

theorem framedOfWindow? : ∀ w : Option (Window (SortKey Node) Node), Framed (stepsOfWindow? w)
  | none => .nil
  | some ⟨sortKeys, partitions, frame⟩ =>
    .append (.append (framedOfKeys sortKeys) (framedOfPartitions partitions)) (framedOfFrame? frame)

theorem framedOfKeys : ∀ keys : List (SortKey Node), Framed (stepsOfKeys keys)
  | [] => .nil
  | ⟨_, expr, _⟩ :: keys => by
    have entry : Framed (.deeper :: (steps expr ++ [.shallower]) ++ again expr) :=
      .again (.nest (framed expr)) fun s hs => by simp [hs]
    simpa [stepsOfKeys] using entry.append (framedOfKeys keys)

theorem framedOfPartitions : ∀ ns : List Node, Framed (stepsOfPartitions ns)
  | [] => .nil
  | n :: ns => .append (.again (framed n) (List.Subset.refl _)) (framedOfPartitions ns)

theorem framedOfFrame? : ∀ frame : Option (Frame Node), Framed (stepsOfFrame? frame)
  | none => .nil
  | some ⟨_, start, stop⟩ => .append (framedOfBound start) (framedOfBound? stop)

theorem framedOfBound : ∀ bound : Bound Node, Framed (stepsOfBound bound)
  | .currentRow => .nil
  | .preceding offset => framedOf? offset
  | .following offset => framedOf? offset

theorem framedOfBound? : ∀ bound : Option (Bound Node), Framed (stepsOfBound? bound)
  | none => .nil
  | some bound => framedOfBound bound

end

/-! ## What stays and what comes back -/

namespace Scope

variable {scope : Scope} {level : Nat} {s : Step} {e : Entry}

theorem level_referenceRecord (scope : Scope) (level : Nat) (name : String) :
    (scope.referenceRecord level name).level = level := by
  unfold referenceRecord
  cases scope.referent name <;> rfl

/-- The record of a step is on the level of the step. -/
theorem level_entryOf? (h : scope.entryOf? level s = some e) : e.dependency.level = level := by
  cases s with
  | call => cases h; rfl
  | callAgain => cases h; rfl
  | reference name => cases h; exact scope.level_referenceRecord level name
  | referenceAgain name => cases h; exact scope.level_referenceRecord level name
  | deeper => cases h
  | shallower => cases h

/-- Calls are recorded by calls. -/
theorem exists_isCall_of_entryOf? (h : scope.entryOf? level s = some e)
    (call : e.dependency.isCall = true) : ∃ id aggregate name, s.IsCall id aggregate name := by
  cases s with
  | call id aggregate name => exact ⟨id, aggregate, name, .inl rfl⟩
  | callAgain id aggregate name => exact ⟨id, aggregate, name, .inr rfl⟩
  | reference name =>
    cases h
    rw [scope.isCall_referenceRecord] at call
    cases call
  | referenceAgain name =>
    cases h
    rw [scope.isCall_referenceRecord] at call
    cases call
  | deeper => cases h
  | shallower => cases h

end Scope

namespace Tally

/-- A tally after a visit, compared with the one before, and the dependencies that were added. The
level and the names that are being followed are the same, and all that was added up stays. What was
added stands on levels from that of the visit to the depth that was reached, calls on levels below
`depth`. -/
structure Restores (depth : Nat) (t u : Tally) (added : List Dependency) : Prop where
  level : u.level = t.level
  following : u.following = t.following
  dependencies : u.dependencies.toList = t.dependencies.toList ++ added
  cost : t.cost ≤ u.cost
  maxDepth : t.maxDepth ≤ u.maxDepth
  isAggregation : t.isAggregation = true → u.isAggregation = true
  isStringFunction : t.isStringFunction = true → u.isStringFunction = true
  levels : ∀ d ∈ added, t.level ≤ d.level ∧ d.level ≤ u.maxDepth
  calls : ∀ d ∈ added, d.isCall = true → d.level < depth

namespace Restores

variable {depth : Nat} {t u v : Tally} {added more : List Dependency}

theorem refl (depth : Nat) (t : Tally) : Restores depth t t [] where
  level := rfl
  following := rfl
  dependencies := (List.append_nil _).symm
  cost := Nat.le_refl _
  maxDepth := Nat.le_refl _
  isAggregation := id
  isStringFunction := id
  levels _ h := absurd h List.not_mem_nil
  calls _ h := absurd h List.not_mem_nil

theorem trans (h : Restores depth t u added) (h' : Restores depth u v more) :
    Restores depth t v (added ++ more) where
  level := h'.level.trans h.level
  following := h'.following.trans h.following
  dependencies := by rw [h'.dependencies, h.dependencies, List.append_assoc]
  cost := h.cost.trans h'.cost
  maxDepth := h.maxDepth.trans h'.maxDepth
  isAggregation := h'.isAggregation ∘ h.isAggregation
  isStringFunction := h'.isStringFunction ∘ h.isStringFunction
  levels d hd := by
    rcases List.mem_append.1 hd with hd | hd
    · exact (h.levels d hd).imp_right (Nat.le_trans · h'.maxDepth)
    · exact (h'.levels d hd).imp_left (Nat.le_trans (Nat.le_of_eq h.level.symm))
  calls d hd := (List.mem_append.1 hd).elim (h.calls d) (h'.calls d)

theorem mono {depth' : Nat} (h : Restores depth t u added) (le : depth ≤ depth') :
    Restores depth' t u added :=
  { h with calls := fun d hd call => (h.calls d hd call).trans_le le }

theorem covered (h : Restores depth t u added) (covered : t.level ≤ t.maxDepth) :
    u.level ≤ u.maxDepth :=
  h.level ▸ covered.trans h.maxDepth

/-- A level that was opened is closed. -/
theorem enclose (h : Restores depth t.enter u added) : Restores depth t u.leave added :=
  { h with
    level := by
      show u.level - 1 = t.level
      rw [h.level]
      rfl
    maxDepth := (Nat.le_max_left _ _).trans h.maxDepth
    levels := fun d hd => (h.levels d hd).imp_left (Nat.le_trans (Nat.le_succ _)) }

/-- A name that was being followed is left. -/
theorem unname {name : String} {names : List String}
    (h : Restores depth { t with following := name :: names } u added)
    (before : t.following = names) :
    Restores depth t { u with following := u.following.tail } added :=
  { h with following := (congrArg List.tail h.following).trans before.symm }

end Restores

variable {scope : Scope}

/-- A step adds no other record than its own. -/
theorem exists_added_meet (scope : Scope) (t : Tally) (s : Step) : ∃ added,
    (t.meet scope s).dependencies.toList = t.dependencies.toList ++ added ∧
      ∀ d ∈ added, ∃ e, scope.entryOf? t.level s = some e ∧ e.dependency = d := by
  cases hmode : scope.mode with
  | exhaustive =>
    refine ⟨_, dependencies_meet_exhaustive hmode t s, fun d hd => ?_⟩
    obtain ⟨e, he, rfl⟩ := List.mem_map.1 hd
    exact ⟨e, Option.mem_toList.1 he, rfl⟩
  | deduplicated =>
    refine ⟨_, (meet_met hmode t s).dependencies, fun d hd => ?_⟩
    obtain ⟨e, he, rfl⟩ := List.mem_map.1 hd
    exact ⟨e, Option.mem_toList.1 (mem_of_mem_firstPerKey he), rfl⟩

/-- A step that stays on its level restores it; a call needs a level below. -/
theorem exists_restores_meet {depth : Nat} {t : Tally} {s : Step}
    (stays : s.levelAfter t.level = t.level) (covered : t.level ≤ t.maxDepth)
    (below : ∀ id aggregate name, s.IsCall id aggregate name → t.level < depth) :
    ∃ added, Restores depth t (t.meet scope s) added := by
  have sums := meet_sums scope t s
  obtain ⟨added, dependencies, own⟩ := exists_added_meet scope t s
  refine ⟨added, sums.level.trans stays, following_meet t s, dependencies, ?_, ?_, ?_, ?_, ?_, ?_⟩
  · exact sums.cost ▸ Nat.le_add_right _ _
  · exact sums.maxDepth ▸ Nat.le_max_left _ _
  · exact fun h => by rw [sums.isAggregation, h, Bool.true_or]
  · exact fun h => by rw [sums.isStringFunction, h, Bool.true_or]
  · intro d hd
    obtain ⟨e, he, rfl⟩ := own d hd
    rw [Scope.level_entryOf? he, sums.maxDepth]
    exact ⟨Nat.le_refl _, covered.trans (Nat.le_max_left _ _)⟩
  · intro d hd call
    obtain ⟨e, he, rfl⟩ := own d hd
    obtain ⟨id, aggregate, name, hs⟩ := Scope.exists_isCall_of_entryOf? he call
    rw [Scope.level_entryOf? he]
    exact below id aggregate name hs

end Tally

/-! ## On the way -/

namespace Moment

variable {scope : Scope} {base : Nat} {m m' last : Moment}

/-- Whether a level is left next: it is closed, or a tree that is being followed is done. -/
def Leaves (m : Moment) : Prop :=
  m.left.head? = some .shallower ∨ (m.left = [] ∧ m.waiting ≠ [])

theorem leaves_cons {t : Tally} {s : Step} {σ : List Step} {waiting : List (List Step)} :
    Leaves ⟨t, s :: σ, waiting⟩ ↔ s = .shallower := by
  simp [Leaves]

theorem Leaves.exists_next (h : m.Leaves) (scope : Scope) : ∃ m', m.next? scope = some m' := by
  obtain ⟨t, _ | ⟨s, σ⟩, waiting⟩ := m
  · cases waiting with
    | nil => rcases h with h | ⟨-, h⟩ <;> simp at h
    | cons τ waiting => exact ⟨_, rfl⟩
  · simp only [next?]
    split <;> exact ⟨_, rfl⟩

/-- Whether costing comes from one moment to another and leaves only levels beyond `base` on the
way. -/
def LeadsBeyond (scope : Scope) (base : Nat) (m m' : Moment) : Prop :=
  ReflTransGen (fun a b => a.next? scope = some b ∧ (a.Leaves → base < a.tally.level)) m m'

namespace LeadsBeyond

theorem leads (h : LeadsBeyond scope base m m') : Leads scope m m' :=
  ReflTransGen.mono (fun _ _ one => one.1) _ _ h

theorem mono {base' : Nat} (h : LeadsBeyond scope base m m') (le : base' ≤ base) :
    LeadsBeyond scope base' m m' :=
  ReflTransGen.mono (fun _ _ one => ⟨one.1, fun leaves => le.trans_lt (one.2 leaves)⟩) _ _ h

/-- There is one way to go on, so this holds of every moment that costing comes to. -/
theorem lt_level (h : LeadsBeyond scope base m last) (ends : last.next? scope = none)
    (hm : Leads scope m m') (leaves : m'.Leaves) : base < m'.tally.level := by
  -- costing comes to the last moment, or to the second one of the way and from there on
  induction h using ReflTransGen.head_induction_on with
  | refl =>
    rcases ReflTransGen.cases_head hm with rfl | ⟨next, hnext, -⟩
    · obtain ⟨next, hnext⟩ := leaves.exists_next scope
      rw [ends] at hnext
      cases hnext
    · rw [ends] at hnext
      cases hnext
  | head first _ ih =>
    rcases ReflTransGen.cases_head hm with rfl | ⟨next, hnext, hm⟩
    · exact first.2 leaves
    · cases first.1.symm.trans hnext
      exact ih hm

section Single

variable {t : Tally} {s : Step} {σ : List Step} {waiting : List (List Step)}

theorem meet (stops : scope.entered? t s = none) (stays : s ≠ .shallower) :
    LeadsBeyond scope base ⟨t, s :: σ, waiting⟩ ⟨t.meet scope s, σ, waiting⟩ :=
  .single ⟨by simp only [next?, stops], fun leaves => absurd (leaves_cons.1 leaves) stays⟩

theorem follow {name : String} {n : Node} (entered : scope.entered? t s = some (name, n)) :
    LeadsBeyond scope base ⟨t, s :: σ, waiting⟩
      ⟨{ t.meet scope s with following := name :: t.following }.enter, steps n, σ :: waiting⟩ := by
  refine .single ⟨by simp only [next?, entered], fun leaves => ?_⟩
  rw [leaves_cons.1 leaves] at entered
  cases entered

theorem close (beyond : base < t.level) :
    LeadsBeyond scope base ⟨t, .shallower :: σ, waiting⟩ ⟨t.leave, σ, waiting⟩ :=
  .single ⟨rfl, fun _ => beyond⟩

theorem done (beyond : base < t.level) :
    LeadsBeyond scope base ⟨t, [], σ :: waiting⟩
      ⟨{ t.leave with following := t.following.tail }, σ, waiting⟩ :=
  .single ⟨rfl, fun _ => beyond⟩

end Single

end LeadsBeyond

end Moment

/-! ## Through framed steps -/

section Passing

open Moment (LeadsBeyond)
open Tally (Restores)

variable {scope : Scope} {following : List String} {σ τ : List Step}

/-- Whether costing gets through some steps, with whatever was added up before and whatever comes
after, while these names are being followed, and restores the tally. If the steps open a level, the
depth is beyond the level on which they start. -/
def Passable (scope : Scope) (following : List String) (σ : List Step) : Prop :=
  ∀ ⦃t : Tally⦄, t.following = following → t.level ≤ t.maxDepth → ∀ τ waiting, ∃ u added,
    LeadsBeyond scope t.level ⟨t, σ ++ τ, waiting⟩ ⟨u, τ, waiting⟩ ∧
      Restores u.maxDepth t u added ∧ (.deeper ∈ σ → t.level < u.maxDepth)

namespace Passable

theorem nil : Passable scope following [] :=
  fun t _ _ _ _ => ⟨t, [], .refl, .refl _ t, fun h => absurd h List.not_mem_nil⟩

theorem append (h : Passable scope following σ) (h' : Passable scope following τ) :
    Passable scope following (σ ++ τ) := by
  intro t ht covered rest waiting
  obtain ⟨u, added, way, restores, opens⟩ := h ht covered (τ ++ rest) waiting
  obtain ⟨v, more, way', restores', opens'⟩ :=
    h' (restores.following.trans ht) (restores.covered covered) rest waiting
  rw [restores.level] at way' opens'
  refine ⟨v, added ++ more, ?_, (restores.mono restores'.maxDepth).trans restores', fun hmem => ?_⟩
  · rw [List.append_assoc]
    exact way.trans way'
  · rcases List.mem_append.1 hmem with hmem | hmem
    · exact (opens hmem).trans_le restores'.maxDepth
    · exact opens' hmem

theorem nest (h : Passable scope following σ) :
    Passable scope following (.deeper :: (σ ++ [.shallower])) := by
  intro t ht covered rest waiting
  obtain ⟨u, added, way, restores, -⟩ :=
    h (t := t.enter) ht (Nat.le_max_right _ _) (.shallower :: rest) waiting
  have deeper : t.level < u.maxDepth := (Nat.le_max_right _ _).trans restores.maxDepth
  refine ⟨u.leave, added, ?_, restores.enclose, fun _ => deeper⟩
  have into : LeadsBeyond scope t.level ⟨t, .deeper :: (σ ++ .shallower :: rest), waiting⟩
      ⟨t.enter, σ ++ .shallower :: rest, waiting⟩ := .meet rfl nofun
  have back : LeadsBeyond scope t.level ⟨u, .shallower :: rest, waiting⟩ ⟨u.leave, rest, waiting⟩ :=
    .close (restores.level ▸ Nat.lt_succ_self t.level)
  rw [List.cons_append, List.append_assoc]
  exact into.trans ((way.mono (Nat.le_succ _)).trans back)

/-- The call is recorded on the level on which its arguments open another one. -/
theorem call (id : NodeId) (aggregate : Bool) (name : String) (h : Passable scope following σ)
    (opens : .deeper ∈ σ) : Passable scope following (.call id aggregate name :: σ) := by
  intro t ht covered rest waiting
  obtain ⟨added, met⟩ : ∃ added,
      Restores (t.level + 1) t (t.meet scope (.call id aggregate name)) added :=
    Tally.exists_restores_meet rfl covered fun _ _ _ _ => Nat.lt_succ_self t.level
  obtain ⟨u, more, way, restores, deeper⟩ :=
    h (met.following.trans ht) (met.covered covered) rest waiting
  rw [met.level] at way deeper
  have restores' := (met.mono (deeper opens)).trans restores
  exact ⟨u, _, .trans (LeadsBeyond.meet rfl nofun) way, restores', fun _ => deeper opens⟩

/-- A call that comes again is recorded once more after its arguments opened a level. -/
theorem callAgain (id : NodeId) (aggregate : Bool) (name : String)
    (h : Passable scope following σ) (opens : .deeper ∈ σ) :
    Passable scope following (σ ++ [.callAgain id aggregate name]) := by
  intro t ht covered rest waiting
  obtain ⟨u, added, way, restores, deeper⟩ :=
    h ht covered (.callAgain id aggregate name :: rest) waiting
  obtain ⟨more, met⟩ : ∃ more,
      Restores u.maxDepth u (u.meet scope (.callAgain id aggregate name)) more :=
    Tally.exists_restores_meet rfl (restores.covered covered)
      fun _ _ _ _ => restores.level ▸ deeper opens
  have restores' := (restores.mono met.maxDepth).trans (met.mono met.maxDepth)
  refine ⟨_, added ++ more, ?_, restores', fun _ => (deeper opens).trans_le met.maxDepth⟩
  rw [List.append_assoc]
  exact way.trans (LeadsBeyond.meet rfl nofun)

theorem referenceAgain (name : String) : Passable scope following [.referenceAgain name] := by
  intro t ht covered rest waiting
  let u := t.meet scope (.referenceAgain name)
  obtain ⟨added, met⟩ : ∃ added, Restores u.maxDepth t u added :=
    Tally.exists_restores_meet rfl covered nofun
  exact ⟨u, added, .meet rfl nofun, met, nofun⟩

/-- A name that is followed has its tree one level further down. -/
theorem reference (name : String)
    (inside : ∀ n, scope.tree? name = some n → name ∉ following →
      Passable scope (name :: following) (steps n)) :
    Passable scope following [.reference name] := by
  intro t ht covered rest waiting
  obtain ⟨added, met⟩ : ∃ added, Restores 0 t (t.meet scope (.reference name)) added :=
    Tally.exists_restores_meet rfl covered nofun
  cases entered : scope.entered? t (.reference name) with
  | none => exact ⟨_, added, .meet entered nofun, met.mono (Nat.zero_le _), nofun⟩
  | some target =>
    obtain ⟨_, n⟩ := target
    obtain ⟨⟨⟩, -, fresh, hn⟩ := Scope.entered?_eq_some.1 entered
    -- into the tree of the name, through it, and back
    let named : Tally := { t.meet scope (.reference name) with following := name :: t.following }
    obtain ⟨u, more, way, restores, -⟩ := inside n hn (ht ▸ fresh) (t := named.enter)
      (congrArg (name :: ·) ht) (Nat.le_max_right _ _) [] (rest :: waiting)
    have below : u.level = t.level + 1 := restores.level.trans (congrArg (· + 1) met.level)
    have inner := way.mono (Nat.le_succ_of_le (Nat.le_of_eq met.level.symm))
    rw [List.append_nil] at inner
    refine ⟨{ u.leave with following := u.following.tail }, added ++ more, ?_, ?_, nofun⟩
    · exact (LeadsBeyond.follow entered).trans
        (inner.trans (LeadsBeyond.done (below ▸ Nat.lt_succ_self _)))
    · exact (met.mono (Nat.zero_le _)).trans (restores.enclose.unname met.following)

end Passable

/-- Framed steps are gone through and restored if the trees of names that are new are. -/
theorem Framed.passable (h : Framed σ)
    (inside : ∀ name n, scope.tree? name = some n → name ∉ following →
      Passable scope (name :: following) (steps n)) : Passable scope following σ := by
  induction h with
  | nil => exact .nil
  | append _ _ ih ih' => exact ih.append ih'
  | reference name => exact .reference name (inside name)
  | referenceAgain name => exact .referenceAgain name
  | nest _ ih => exact ih.nest
  | call id aggregate name _ opens ih => exact ih.call id aggregate name opens
  | callAgain id aggregate name _ opens ih => exact ih.callAgain id aggregate name opens

/-- Every tree is gone through and restored: with each name that is followed, fewer are left. -/
theorem passable_steps (budget : Nat) : ∀ {following : List String},
    scope.Suffices budget following → ∀ n, Passable scope following (steps n) := by
  induction budget with
  | zero =>
    intro following enough n
    exact (framed n).passable fun name m hm fresh => absurd (enough.mem_of_zero hm) fresh
  | succ budget ih =>
    intro following enough n
    exact (framed n).passable fun name m hm fresh => ih (enough.follow hm fresh) m

end Passing

/-- **A visit restores the state of the traversal.** Whatever names are being followed, whatever was
seen and in whichever mode, a visit of a tree leaves the level and these names as they were and
takes back nothing of what was added up. What it records stands on levels from its own up to the
depth that is reached then, and calls stand on lower ones than that. Costing gets there from moment
to moment, and each time that it leaves a level, this is one beyond the level of the visit, so the
one that is taken off was there. -/
theorem visit_restores (scope : Scope) (n : Node) {t : Tally} (covered : t.level ≤ t.maxDepth) :
    let u := Tally.run scope scope.expressions.length (steps n) t
    (∃ added, Tally.Restores u.maxDepth t u added) ∧
      Moment.Leads scope ⟨t, steps n, []⟩ ⟨u, [], []⟩ ∧
      ∀ m, Moment.Leads scope ⟨t, steps n, []⟩ m → m.Leaves →
        t.level < m.tally.level ∧ m.tally.leave.level + 1 = m.tally.level := by
  intro u
  have leads : Moment.Leads scope ⟨t, steps n, []⟩ ⟨u, [], []⟩ :=
    Scope.leads_run _ (steps n) (Scope.suffices_length t.following) rfl []
  obtain ⟨v, added, way, restores, -⟩ :=
    passable_steps _ (Scope.suffices_length t.following) n rfl covered [] []
  rw [List.append_nil] at way
  have same : v = u := by
    rcases ReflTransGen.cases_head (way.leads.to_last leads rfl) with same | ⟨m, hm, -⟩
    · exact congrArg Moment.tally same
    · cases hm
  refine ⟨⟨added, same ▸ restores⟩, leads, fun m hm leaves => ?_⟩
  have beyond := way.lt_level rfl hm leaves
  exact ⟨beyond, Nat.sub_add_cancel (Nat.one_le_of_lt beyond)⟩

/-- A rank by the sum of a share. -/
def rankOfShare : Node :=
  .call 10 true "RANK" [] (some
    ⟨[⟨11, .call 12 true "SUM" [.column 13 none "share"] none, .descending⟩], [], none⟩)

/-- Three levels down in a ratio, where it was five levels deep before. -/
def insideRatio : Tally where
  level := 3
  maxDepth := 5
  cost := 40
  isAggregation := false
  isStringFunction := true
  dependencies := #[⟨"ratio", .calculatedField, "share / share", 0, 2, none⟩]
  seenCalls := [7]
  seenNames := ["ratio"]
  following := ["ratio"]

/-- The share has a sum of ratios, but of these one is being followed. -/
theorem visit_restores_rankOfShare :
    let scope := Scope.ratioAndShare.inMode .deduplicated
    let u := Tally.run scope 2 (steps rankOfShare) insideRatio
    insideRatio.level ≤ insideRatio.maxDepth ∧ u.maxDepth = 8 ∧
      (∃ added, Tally.Restores 8 insideRatio u added) ∧
      ∀ m, Moment.Leads scope ⟨insideRatio, steps rankOfShare, []⟩ m → m.Leaves →
        3 < m.tally.level ∧ m.tally.leave.level + 1 = m.tally.level := by
  intro scope u
  have covered : insideRatio.level ≤ insideRatio.maxDepth := by decide
  obtain ⟨restores, -, beyond⟩ := visit_restores scope rankOfShare covered
  exact ⟨covered, by decide, restores, beyond⟩

example : (Tally.run (Scope.ratioAndShare.inMode .deduplicated) 2 (steps rankOfShare)
    insideRatio).dependencies.toList.map (fun d => (d.name, d.level)) =
      [("ratio", 2), ("RANK", 3), ("SUM", 5), ("share", 6), ("SUM", 7)] := by
  decide

end DashCalc.Cost
