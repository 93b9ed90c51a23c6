import DashCalc.Proofs.Cost.Deduplication

/-!
# Charges and records

The deduplicated mode charges a call whenever it comes to it, but records it once per id. If no id
stands at two calls, charges and records balance: the cost of a report is that of the calls that it
records (`Scope.totalCost_eq_callCost`), whatever the fields refer to. A field is gone through at
most once, so no call is come to twice; an entry of a window that is met again is recorded already.

The invariant is `Tally.Balanced`: besides the balance, the calls of the fields that may still be
followed are not recorded yet. `Tally.Ready` is what the steps ahead need for that, and
`Tally.Grown` what they leave.
-/

namespace DashCalc

/-- The id of a call. -/
def Node.callId? : Node → Option NodeId
  | .call id _ _ _ _ => some id
  | _ => none

namespace Cost

/-! ## The ids of calls -/

/-- The id of a call that is met for the first time. -/
def Step.callId? : Step → Option NodeId
  | .call id _ _ => some id
  | _ => none

/-- The ids of the calls among some steps. -/
def callIds (σ : List Step) : List NodeId := σ.filterMap Step.callId?

theorem callIds_append (σ τ : List Step) : callIds (σ ++ τ) = callIds σ ++ callIds τ :=
  List.filterMap_append

theorem callIds_cons (s : Step) (σ : List Step) :
    callIds (s :: σ) = s.callId?.toList ++ callIds σ := by
  unfold callIds
  rw [List.filterMap_cons]
  cases s.callId? <;> rfl

theorem callIds_again (n : Node) : callIds (again n) = [] := by
  cases n <;> rfl

theorem Walk.callIds {ns : List Node} {ps : List (Nat × Site)} {σ : List Step}
    (h : Walk ns ps σ) : callIds σ = ns.filterMap Node.callId? := by
  induction h with
  | nil => rfl
  | append _ _ ih ih' => rw [callIds_append, List.filterMap_append, ih, ih']
  | column => rfl
  | plain n hn _ _ ih =>
    have other : n.callId? = none := by cases n <;> first | rfl | cases hn
    rw [List.filterMap_cons_none other, ih]
  | call id aggregate name arguments window _ ih => exact congrArg (id :: ·) ih
  | nest _ ih =>
    rw [callIds_cons, callIds_append, ih]
    exact List.append_nil _
  | again _ ih => rw [callIds_append, callIds_again, ih, List.append_nil]

/-- The ids of the calls that are steps of a tree are those of the calls among its nodes. -/
theorem callIds_steps (n : Node) : callIds (steps n) = n.nodes.filterMap Node.callId? :=
  (walk n).callIds

/-- Every call that comes again has come before, in these steps or among those with these ids. -/
def CallsAnnounced : List NodeId → List Step → Prop
  | _, [] => True
  | met, s :: σ =>
    (∀ id aggregate name, s = .callAgain id aggregate name → id ∈ met) ∧
      CallsAnnounced (s.callId?.toList ++ met) σ

theorem CallsAnnounced.mono {met met' : List NodeId} {σ : List Step} (h : CallsAnnounced met σ)
    (hsub : met ⊆ met') : CallsAnnounced met' σ := by
  induction σ generalizing met met' with
  | nil => trivial
  | cons s σ ih =>
    refine ⟨fun id aggregate name e => hsub (h.1 id aggregate name e), ih h.2 ?_⟩
    exact List.append_subset.2 ⟨List.subset_append_left _ _,
      List.subset_append_of_subset_right _ hsub⟩

theorem CallsAnnounced.append {met : List NodeId} {σ τ : List Step} (h : CallsAnnounced met σ)
    (h' : CallsAnnounced (callIds σ ++ met) τ) : CallsAnnounced met (σ ++ τ) := by
  induction σ generalizing met with
  | nil => exact h'
  | cons s σ ih =>
    refine ⟨h.1, ih h.2 (h'.mono ?_)⟩
    rw [callIds_cons]
    intro x hx
    simp only [List.mem_append] at hx ⊢
    tauto

theorem Walk.callsAnnounced {ns : List Node} {ps : List (Nat × Site)} {σ : List Step}
    (h : Walk ns ps σ) (met : List NodeId) : CallsAnnounced met σ := by
  induction h generalizing met with
  | nil => trivial
  | append _ _ ih ih' => exact (ih met).append (ih' _)
  | column => exact ⟨fun _ _ _ e => (nomatch e), trivial⟩
  | plain _ _ _ _ ih => exact ih met
  | call _ _ _ _ _ _ ih => exact ⟨fun _ _ _ e => (nomatch e), ih _⟩
  | nest _ ih =>
    refine ⟨fun _ _ _ e => (nomatch e), (ih _).append ?_⟩
    exact ⟨fun _ _ _ e => (nomatch e), trivial⟩
  | @again n _ σ hn ih =>
    refine (ih met).append ?_
    cases n with
    | call id aggregate name arguments window =>
      -- the call is the first of the nodes that were gone through just before
      refine ⟨?_, trivial⟩
      rintro _ _ _ ⟨⟩
      rw [hn.callIds]
      exact List.mem_append_left _ List.mem_cons_self
    | column => exact ⟨fun _ _ _ e => (nomatch e), trivial⟩
    | _ => trivial

/-! ## Records of calls -/

/-- What the calls among some dependencies cost. -/
def callCost (ds : List Dependency) : Nat := ((ds.filter Dependency.isCall).map Dependency.cost).sum

theorem callCost_append (ds es : List Dependency) :
    callCost (ds ++ es) = callCost ds + callCost es := by
  unfold callCost
  rw [List.filter_append, List.map_append, List.sum_append]

theorem callCost_call (scope : Scope) (level : Nat) (aggregate : Bool) (name : String) :
    callCost [scope.callRecord level aggregate name] = Catalog.cost name := by
  cases aggregate <;> exact Nat.add_zero _

theorem callCost_reference (scope : Scope) (level : Nat) (name : String) :
    callCost [scope.referenceRecord level name] = 0 := by
  unfold callCost
  rw [List.filter_cons_of_neg (by rw [Scope.isCall_referenceRecord]; exact Bool.false_ne_true)]
  rfl

/-! ## The invariant -/

namespace Scope

/-- Whether no id stands at two calls of the fields that names are followed into. -/
structure Separate (scope : Scope) : Prop where
  nodup : ∀ name n, scope.tree? name = some n → (callIds (steps n)).Nodup
  apart : ∀ name n other m, scope.tree? name = some n → scope.tree? other = some m → name ≠ other →
    List.Disjoint (callIds (steps n)) (callIds (steps m))

end Scope

namespace Tally

variable {scope : Scope} {t u v : Tally} {s : Step} {σ τ : List Step}

/-- Whether a name has this tree and may still be followed: it was not seen and is not being
followed. -/
def Opens (scope : Scope) (t : Tally) (name : String) (n : Node) : Prop :=
  scope.tree? name = some n ∧ name ∉ t.seenNames ∧ name ∉ t.following

/-- The tally with which the tree of a name is gone into. -/
def entered (scope : Scope) (t : Tally) (name : String) : Tally :=
  { t.meet scope (.reference name) with following := name :: t.following }.enter

/-- Whether what was charged is what the recorded calls cost, and no call of a field that may still
be followed is recorded. -/
structure Balanced (scope : Scope) (t : Tally) : Prop where
  cost : t.cost = callCost t.dependencies.toList
  fresh : ∀ name n, t.Opens scope name n → List.Disjoint (callIds (steps n)) t.seenCalls

/-- Whether the calls of steps are not recorded yet, no two of them have the same id, none has the
id of a call of a field that may still be followed, and those that come again have come before. -/
structure Ready (scope : Scope) (t : Tally) (σ : List Step) : Prop where
  nodup : (callIds σ).Nodup
  new : List.Disjoint (callIds σ) t.seenCalls
  apart : ∀ name n, t.Opens scope name n → List.Disjoint (callIds σ) (callIds (steps n))
  announced : CallsAnnounced t.seenCalls σ

/-- A tally after steps, compared with the tally before: what was recorded besides is their calls
and calls of fields that could be followed. -/
structure Grown (scope : Scope) (t u : Tally) (σ : List Step) : Prop where
  following : u.following = t.following
  names : t.seenNames ⊆ u.seenNames
  kept : t.seenCalls ⊆ u.seenCalls
  calls : ∀ id ∈ u.seenCalls, id ∈ t.seenCalls ∨ id ∈ callIds σ ∨
    ∃ name n, t.Opens scope name n ∧ id ∈ callIds (steps n)

/-- What may be followed later could be followed before. -/
theorem Grown.opens (h : Grown scope t u σ) {name : String} {n : Node}
    (hu : u.Opens scope name n) : t.Opens scope name n :=
  ⟨hu.1, fun hname => hu.2.1 (h.names hname), h.following ▸ hu.2.2⟩

theorem Grown.refl (scope : Scope) (t : Tally) (σ : List Step) : Grown scope t t σ :=
  ⟨rfl, List.Subset.refl _, List.Subset.refl _, fun _ => .inl⟩

theorem Grown.trans (h : Grown scope t u σ) (h' : Grown scope u v τ) :
    Grown scope t v (σ ++ τ) where
  following := h'.following.trans h.following
  names := List.Subset.trans h.names h'.names
  kept := List.Subset.trans h.kept h'.kept
  calls := by
    intro id hid
    rw [callIds_append, List.mem_append]
    rcases h'.calls id hid with hid | hid | ⟨name, n, hn, hid⟩
    · rcases h.calls id hid with hid | hid | hfield
      · exact .inl hid
      · exact .inr (.inl (.inl hid))
      · exact .inr (.inr hfield)
    · exact .inr (.inl (.inr hid))
    · exact .inr (.inr ⟨name, n, h.opens hn, hid⟩)

/-- After the first step the others are ready. -/
theorem Ready.tail (h : Ready scope t (s :: σ)) (grown : Grown scope t u [s])
    (met : callIds [s] ⊆ u.seenCalls) : Ready scope u σ := by
  obtain ⟨nodup, new, apart, announced⟩ := h
  rw [callIds_cons] at nodup new
  have one : callIds [s] = s.callId?.toList := by
    rw [callIds_cons]
    exact List.append_nil _
  refine ⟨nodup.of_append_right, fun id hid hseen => ?_, fun name n hn id hid => ?_, ?_⟩
  · rcases grown.calls id hseen with hseen | hfirst | ⟨name, n, hn, hfield⟩
    · exact new (List.mem_append_right _ hid) hseen
    · exact List.disjoint_of_nodup_append nodup (one ▸ hfirst) hid
    · refine apart name n hn ?_ hfield
      rw [callIds_cons]
      exact List.mem_append_right _ hid
  · refine apart name n (grown.opens hn) ?_
    rw [callIds_cons]
    exact List.mem_append_right _ hid
  · exact announced.2.mono (List.append_subset.2 ⟨one ▸ met, grown.kept⟩)

/-! ## Steps -/

variable (hmode : scope.mode = .deduplicated)
include hmode

/-- Meeting a step on its own records its call, if it is one. -/
theorem mem_seenCalls_meet (t : Tally) {s : Step} (again : ∀ id aggregate name,
    s = .callAgain id aggregate name → id ∈ t.seenCalls) {id : NodeId} :
    id ∈ (t.meet scope s).seenCalls ↔ id ∈ t.seenCalls ∨ id ∈ callIds [s] := by
  rw [← call_mem_seen, (meet_met hmode t s).seen, call_mem_seen]
  cases s with
  | call other aggregate name => simp [Step.key?, callIds, Step.callId?, eq_comm]
  | callAgain other aggregate name =>
    have known := again other aggregate name rfl
    simp only [Step.key?, Option.some.injEq, Key.call.injEq, callIds, Step.callId?,
      List.filterMap_cons, List.filterMap_nil, List.not_mem_nil, or_false, or_iff_left_iff_imp]
    rintro rfl
    exact known
  | _ => simp [Step.key?, callIds, Step.callId?]

theorem grown_meet (t : Tally) {s : Step} (again : ∀ id aggregate name,
    s = .callAgain id aggregate name → id ∈ t.seenCalls) : Grown scope t (t.meet scope s) [s] where
  following := following_meet t s
  names _ hname := name_mem_seen.1
    (((meet_met hmode t s).seen _).2 (.inl (name_mem_seen.2 hname)))
  kept _ hid := (mem_seenCalls_meet hmode t again).2 (.inl hid)
  calls _ hid := ((mem_seenCalls_meet hmode t again).1 hid).imp_right .inl

omit hmode in
theorem callCost_recordedReference (t : Tally) (name : String) :
    callCost ((firstPerKey t.seen [⟨.name name, scope.referenceRecord t.level name⟩]).map
      Entry.dependency) = 0 := by
  rw [firstPerKey_singleton]
  split
  · rfl
  · exact callCost_reference scope t.level name

omit hmode in
/-- A step that is ready is charged if and only if its call is recorded. -/
theorem callCost_recorded (ready : Ready scope t (s :: σ)) :
    callCost ((firstPerKey t.seen (scope.entryOf? t.level s).toList).map Entry.dependency) =
      s.cost := by
  cases s with
  | call id aggregate name =>
    have new : id ∉ t.seenCalls := ready.new List.mem_cons_self
    show callCost ((firstPerKey t.seen [⟨.call id, _⟩]).map _) = Catalog.cost name
    rw [firstPerKey_singleton, if_neg fun hseen => new (call_mem_seen.1 hseen)]
    exact callCost_call scope t.level aggregate name
  | callAgain id aggregate name =>
    have known : id ∈ t.seenCalls := ready.announced.1 id aggregate name rfl
    show callCost ((firstPerKey t.seen [⟨.call id, _⟩]).map _) = 0
    rw [firstPerKey_singleton, if_pos (call_mem_seen.2 known)]
    rfl
  | reference name => exact callCost_recordedReference t name
  | referenceAgain name => exact callCost_recordedReference t name
  | deeper => rfl
  | shallower => rfl

theorem balanced_meet (h : Balanced scope t) (ready : Ready scope t (s :: σ)) :
    Balanced scope (t.meet scope s) := by
  have again := ready.announced.1
  refine ⟨?_, fun name n hn id hid hseen => ?_⟩
  · rw [(meet_sums scope t s).cost, (meet_met hmode t s).dependencies, callCost_append,
      callCost_recorded ready, h.cost]
  · have hn' := (grown_meet hmode t again).opens hn
    rcases (mem_seenCalls_meet hmode t again).1 hseen with hseen | hcall
    · exact h.fresh name n hn' hid hseen
    · refine ready.apart name n hn' ?_ hid
      rw [callIds_cons]
      rw [callIds_cons, List.mem_append] at hcall
      exact List.mem_append_left _ (hcall.resolve_right List.not_mem_nil)

/-! ### Into a tree and back -/

variable {name : String} {n : Node}

theorem grown_reference (t : Tally) (name : String) :
    Grown scope t (t.meet scope (.reference name)) [.reference name] :=
  grown_meet hmode t nofun

theorem opens_entered {other : String} {m : Node}
    (hu : (entered scope t name).Opens scope other m) : t.Opens scope other m ∧ name ≠ other := by
  obtain ⟨hm, unseen, notFollowing⟩ := hu
  refine ⟨⟨hm, fun seen => unseen ((grown_reference hmode t name).names seen),
    fun hf => notFollowing (List.mem_cons_of_mem _ hf)⟩, ?_⟩
  rintro rfl
  exact notFollowing List.mem_cons_self

theorem ready_entered (separate : scope.Separate) (h : Balanced scope t)
    (opens : t.Opens scope name n) : Ready scope (entered scope t name) (steps n) := by
  refine ⟨separate.nodup name n opens.1, fun id hid hseen => ?_, fun other m hu => ?_, ?_⟩
  · have before := (mem_seenCalls_meet hmode t (s := .reference name) nofun).1 hseen
    exact h.fresh name n opens hid (before.resolve_right List.not_mem_nil)
  · exact separate.apart name n other m opens.1 hu.1 (opens_entered hmode hu).2
  · exact (walk n).callsAnnounced _

theorem balanced_entered (h : Balanced scope t) (ready : Ready scope t (.reference name :: σ)) :
    Balanced scope (entered scope t name) := by
  have balanced := balanced_meet hmode h ready
  refine ⟨balanced.cost, fun other m hu => balanced.fresh other m ⟨hu.1, hu.2.1, ?_⟩⟩
  rw [following_meet]
  exact (opens_entered hmode hu).1.2.2

/-- Back from a tree, its name is recorded and may be left out of those that are followed. -/
theorem balanced_left (opens : t.Opens scope name n) (h : Balanced scope u)
    (grown : Grown scope (entered scope t name) u (steps n)) :
    Balanced scope { u.leave with following := t.following } ∧
      Grown scope t { u.leave with following := t.following } [.reference name] := by
  have met : Grown scope t (t.meet scope (.reference name)) [.reference name] :=
    grown_reference hmode t name
  have named : name ∈ (t.meet scope (.reference name)).seenNames :=
    name_mem_seen.1 (((meet_met hmode t _).seen _).2 (.inr rfl))
  refine ⟨⟨h.cost, fun other m hw => h.fresh other m ⟨hw.1, hw.2.1, ?_⟩⟩,
    ⟨rfl, List.Subset.trans met.names grown.names, List.Subset.trans met.kept grown.kept,
      fun id hid => ?_⟩⟩
  · -- inside the tree the name was being followed, and now it is kept out as one that was seen
    rw [grown.following]
    refine List.not_mem_cons_of_ne_of_not_mem ?_ hw.2.2
    rintro rfl
    exact hw.2.1 (grown.names named)
  · rcases grown.calls id hid with hid | hid | ⟨other, m, hu, hid⟩
    · exact met.calls id hid
    · exact .inr (.inr ⟨name, n, opens, hid⟩)
    · exact .inr (.inr ⟨other, m, (opens_entered hmode hu).1, hid⟩)

/-! ### Runs -/

/-- A step, followed or not, keeps the balance; `inside` says that following does. -/
theorem balanced_step (separate : scope.Separate) {descend : List Step → Tally → Tally}
    (inside : ∀ n u, Balanced scope u → Ready scope u (steps n) →
      Balanced scope (descend (steps n) u) ∧ Grown scope u (descend (steps n) u) (steps n))
    (h : Balanced scope t) (ready : Ready scope t (s :: σ)) :
    Balanced scope (t.step scope descend s) ∧ Grown scope t (t.step scope descend s) [s] ∧
      callIds [s] ⊆ (t.step scope descend s).seenCalls := by
  by_cases stops : scope.Stops t.following s
  · rw [step_eq_meet _ stops]
    refine ⟨balanced_meet hmode h ready, grown_meet hmode t ready.announced.1, fun id hid => ?_⟩
    exact (mem_seenCalls_meet hmode t ready.announced.1).2 (.inr hid)
  · obtain ⟨name, n, rfl, hn, fresh⟩ := Scope.exists_of_not_stops stops
    rw [step_follow _ hn fresh]
    split
    · exact ⟨h, .refl scope t _, List.nil_subset _⟩
    · next new =>
      have opens : t.Opens scope name n := ⟨hn, fun seen => new ⟨hmode, seen⟩, fresh⟩
      obtain ⟨below, grown⟩ := inside n _ (balanced_entered hmode h ready)
        (ready_entered hmode separate h opens)
      obtain ⟨balanced, grown'⟩ := balanced_left hmode opens below grown
      exact ⟨balanced, grown', List.nil_subset _⟩

omit hmode in
theorem balanced_foldl {next : Tally → Step → Tally}
    (each : ∀ t s σ, Balanced scope t → Ready scope t (s :: σ) →
      Balanced scope (next t s) ∧ Grown scope t (next t s) [s] ∧
        callIds [s] ⊆ (next t s).seenCalls) :
    ∀ (σ : List Step) (t : Tally), Balanced scope t → Ready scope t σ →
      Balanced scope (σ.foldl next t) ∧ Grown scope t (σ.foldl next t) σ := by
  intro σ
  induction σ with
  | nil => exact fun t h _ => ⟨h, .refl scope t []⟩
  | cons s σ ih =>
    intro t h ready
    obtain ⟨balanced, grown, met⟩ := each t s σ h ready
    obtain ⟨balanced', grown'⟩ := ih (next t s) balanced (ready.tail grown met)
    exact ⟨balanced', grown.trans grown'⟩

/-- Whatever the budget, a run keeps the balance. -/
theorem balanced_run (separate : scope.Separate) (budget : Nat) : ∀ (σ : List Step) (t : Tally),
    Balanced scope t → Ready scope t σ →
      Balanced scope (run scope budget σ t) ∧ Grown scope t (run scope budget σ t) σ := by
  induction budget with
  | zero =>
    refine balanced_foldl fun t s σ h ready => ?_
    exact balanced_step hmode separate (fun n u hu _ => ⟨hu, .refl scope u _⟩) h ready
  | succ budget ih =>
    refine balanced_foldl fun t s σ h ready => ?_
    exact balanced_step hmode separate (fun n u hu ready => ih (steps n) u hu ready) h ready

end Tally

/-! ## Reports -/

namespace Scope

variable {scope : Scope}

/-- **Charges and records balance.** In the deduplicated mode, the cost of a tree is that of the
calls in its report, if no id stands at two calls of the tree and the fields behind it. -/
theorem totalCost_eq_callCost (hmode : scope.mode = .deduplicated) (separate : scope.Separate)
    {own : Option String} {n : Node} (nodup : (callIds (steps n)).Nodup)
    (apart : ∀ name m, scope.tree? name = some m → own ≠ some name →
      List.Disjoint (callIds (steps n)) (callIds (steps m))) :
    (scope.report own n).totalCost = callCost (scope.report own n).dependencies := by
  have balanced : Tally.Balanced scope (.start own.toList) :=
    ⟨rfl, fun _ _ _ _ _ hseen => absurd hseen List.not_mem_nil⟩
  have ready : Tally.Ready scope (.start own.toList) (steps n) := by
    refine ⟨nodup, fun _ _ hseen => absurd hseen List.not_mem_nil, fun name m hm => ?_, ?_⟩
    · refine apart name m hm.1 fun same => hm.2.2 ?_
      rw [same]
      exact List.mem_singleton_self name
    · exact (walk n).callsAnnounced _
  exact (Tally.balanced_run hmode separate _ _ _ balanced ready).1.cost

end Scope

end Cost

end DashCalc
