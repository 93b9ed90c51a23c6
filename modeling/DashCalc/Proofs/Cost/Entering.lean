import DashCalc.Proofs.Cost.Agreement
import DashCalc.Proofs.Cost.Termination

/-!
# A field on its own and entered from a column

The tree of a calculated field is gone through in two situations: on its own, when the field is
costed, and entered from a column that names it. The totals are the same, one level deeper
(`Scope.report_column`), even if the field refers back to itself, as long as the tree with the column
is not followed under a name that the field leads to.

The proof runs both situations in lock step. The second tally stays a level below the first one
(`Tally.Lowered`), with budgets that need not be the same.
-/

namespace DashCalc.Cost

open Relation (ReflTransGen)

variable {scope : Scope} {x : String} {t t' : Tally}

namespace Tally

theorem mem_seenNames_remember (mode : Mode) (t : Tally) (name other : String) :
    other ∈ (t.remember mode name).seenNames ↔
      (mode = .deduplicated ∧ other = name) ∨ other ∈ t.seenNames := by
  cases mode with
  | exhaustive => simp [remember]
  | deduplicated =>
    by_cases seen : name ∈ t.seenNames
    · simp only [remember, if_pos seen, true_and]
      exact ⟨.inr, fun h => h.elim (· ▸ seen) id⟩
    · simp only [remember, if_neg seen, List.mem_cons, true_and]

theorem exists_remember (mode : Mode) (t : Tally) (name : String) :
    ∃ seenNames, t.remember mode name = { t with seenNames } := by
  unfold remember
  cases mode with
  | exhaustive => exact ⟨_, rfl⟩
  | deduplicated =>
    dsimp only
    split <;> exact ⟨_, rfl⟩

/-- Whether the second tally is the first one a level deeper, where both are following a name and
only what this name leads to is followed further. -/
structure Lowered (scope : Scope) (x : String) (t t' : Tally) : Prop where
  level : t'.level = t.level + 1
  maxDepth : t'.maxDepth = t.maxDepth + 1
  cost : t'.cost = t.cost
  isAggregation : t'.isAggregation = t.isAggregation
  isStringFunction : t'.isStringFunction = t.isStringFunction
  following : ∀ name, ReflTransGen scope.Follows x name →
    (name ∈ t'.following ↔ name ∈ t.following)
  entered : x ∈ t.following
  /-- Only one of them may have met the name itself, but it is not followed again anyway. -/
  seenNames : ∀ name, name ≠ x → (name ∈ t'.seenNames ↔ name ∈ t.seenNames)

namespace Lowered

theorem of_unrecorded (h : Lowered scope x t.unrecorded t'.unrecorded) : Lowered scope x t t' :=
  { h with }

theorem unrecorded (h : Lowered scope x t t') : Lowered scope x t.unrecorded t'.unrecorded :=
  { h with }

theorem enter (h : Lowered scope x t t') : Lowered scope x t.enter t'.enter where
  level := congrArg (· + 1) h.level
  maxDepth := by
    show max t'.maxDepth (t'.level + 1) = max t.maxDepth (t.level + 1) + 1
    have level := h.level
    have depth := h.maxDepth
    omega
  cost := h.cost
  isAggregation := h.isAggregation
  isStringFunction := h.isStringFunction
  following := h.following
  entered := h.entered
  seenNames := h.seenNames

/-- Levels are left that were entered before. -/
theorem leave (h : Lowered scope x t t') (inside : 0 < t.level) :
    Lowered scope x t.leave t'.leave :=
  { h with
    level := by
      show t'.level - 1 = t.level - 1 + 1
      have level := h.level
      omega }

theorem charge (h : Lowered scope x t t') (aggregate : Bool) (name : String) :
    Lowered scope x (t.charge aggregate name) (t'.charge aggregate name) :=
  { h with
    cost := congrArg (· + (Catalog.lookup name).cost) h.cost
    isAggregation := congrArg
      (· || aggregate || isWindowed name (Catalog.lookup name).category) h.isAggregation
    isStringFunction := congrArg
      (· || (Catalog.lookup name).category == some .string) h.isStringFunction }

theorem remember (h : Lowered scope x t t') (mode : Mode) (name : String) :
    Lowered scope x (t.remember mode name) (t'.remember mode name) := by
  have seen (other : String) (hx : other ≠ x) :
      other ∈ (t'.remember mode name).seenNames ↔ other ∈ (t.remember mode name).seenNames := by
    rw [mem_seenNames_remember, mem_seenNames_remember, h.seenNames other hx]
  obtain ⟨names, e⟩ := exists_remember mode t name
  obtain ⟨names', e'⟩ := exists_remember mode t' name
  rw [e, e'] at seen ⊢
  exact { h with seenNames := seen }

/-- A step on its own that does not leave a level. -/
theorem meet (h : Lowered scope x t t') {s : Step} (hs : s ≠ .shallower) :
    Lowered scope x (t.meet scope s) (t'.meet scope s) := by
  refine of_unrecorded ?_
  rw [meet_unrecorded, meet_unrecorded]
  cases s with
  | call _ aggregate name => exact h.unrecorded.charge aggregate name
  | callAgain _ _ _ => exact h.unrecorded
  | reference name => exact h.unrecorded.remember scope.mode name
  | referenceAgain name => exact h.unrecorded.remember scope.mode name
  | deeper => exact h.unrecorded.enter
  | shallower => exact absurd rfl hs

/-- Following one more name, and following as many as before again. -/
theorem follow (h : Lowered scope x t t') (names names' : List String)
    (following : ∀ name, ReflTransGen scope.Follows x name → (name ∈ names' ↔ name ∈ names))
    (entered : x ∈ names) :
    Lowered scope x { t with following := names } { t' with following := names' } :=
  { h with following, entered }

/-- A name is met and entered on one side, and followed from the start on the other. -/
theorem start {names : List String}
    (apart : ∀ y, ReflTransGen scope.Follows x y → y ∉ names) :
    Lowered scope x (.start [x])
      { (Tally.start names).meet scope (.reference x) with following := x :: names }.enter := by
  refine of_unrecorded ?_
  have met : ((Tally.start names).meet scope (.reference x)).unrecorded =
      (Tally.start names).remember scope.mode x :=
    meet_unrecorded _ _
  obtain ⟨seenNames, remembered⟩ := exists_remember scope.mode (.start names) x
  have seen (name : String) (other : name ≠ x) :
      name ∉ ((Tally.start names).remember scope.mode x).seenNames := by
    rw [mem_seenNames_remember]
    exact not_or.2 ⟨fun h => other h.2, List.not_mem_nil⟩
  rw [remembered] at met seen
  show Lowered scope x (.start [x])
    { ((Tally.start names).meet scope (.reference x)).unrecorded with following := x :: names }.enter
  rw [met]
  exact {
    level := rfl
    maxDepth := rfl
    cost := rfl
    isAggregation := rfl
    isStringFunction := rfl
    following := fun y hy => by
      show y ∈ x :: names ↔ y ∈ [x]
      simp only [List.mem_cons, List.not_mem_nil, apart y hy]
    entered := List.mem_singleton_self x
    seenNames := fun name other => iff_of_false (seen name other) List.not_mem_nil }

theorem totals (h : Lowered scope x t t') :
    t'.report.totals = { t.report.totals with maxDepth := t.maxDepth + 1 } := by
  simp only [report, Report.totals, h.cost, h.maxDepth, h.isAggregation, h.isStringFunction]

end Lowered

/-! ## In lock step -/

variable {following following' : List String}

/-- Whether going through something on both sides keeps the second tally a level below the first one
and ends on the level on which it starts, where certain names are being followed. -/
def Sinks (scope : Scope) (x : String) (following following' : List String)
    (pass pass' : Tally → Tally) : Prop :=
  ∀ t t' : Tally, t.following = following → t'.following = following' → Lowered scope x t t' →
    Lowered scope x (pass t) (pass' t') ∧ (pass t).level = t.level

/-- Whether this holds of the trees of all names that can be followed next. -/
def SinksBelow (scope : Scope) (x : String) (following following' : List String)
    (descend descend' : List Step → Tally → Tally) : Prop :=
  ∀ name n, ReflTransGen scope.Follows x name → scope.tree? name = some n → name ∉ following →
    name ∉ following' → Sinks scope x (name :: following) (name :: following')
      (descend (steps n)) (descend' (steps n))

variable {descend descend' : List Step → Tally → Tally}

/-- Whether it holds of steps that are gone through one after the other. -/
def SinksAlong (scope : Scope) (x : String) (following following' : List String)
    (descend descend' : List Step → Tally → Tally) (σ : List Step) : Prop :=
  Sinks scope x following following' (fun t => σ.foldl (step scope descend) t)
    (fun t => σ.foldl (step scope descend') t)

/-- Whether the names of steps that can be followed are names that another name leads to. -/
def Reached (scope : Scope) (x : String) (σ : List Step) : Prop :=
  ∀ name n, .reference name ∈ σ → scope.tree? name = some n → ReflTransGen scope.Follows x name

/-- A step that does not change the level is followed on both sides or on neither. -/
theorem sinksAlong_singleton (below : SinksBelow scope x following following' descend descend')
    {s : Step} (flat : ∀ level, s.levelAfter level = level) (reached : Reached scope x [s]) :
    SinksAlong scope x following following' descend descend' [s] := by
  intro t t' ht ht' h
  subst ht ht'
  have met : Lowered scope x (t.meet scope s) (t'.meet scope s) := by
    refine h.meet ?_
    rintro rfl
    exact absurd (flat 1) (by decide)
  have level : (t.meet scope s).level = t.level := (meet_sums scope t s).level.trans (flat _)
  simp only [List.foldl_cons, List.foldl_nil]
  by_cases stops : scope.Stops t.following s
  · have stops' : scope.Stops t'.following s := fun name n hs hn =>
      (h.following name (reached name n (hs ▸ List.mem_singleton_self _) hn)).2 (stops name n hs hn)
    rw [step_eq_meet _ stops, step_eq_meet _ stops']
    exact ⟨met, level⟩
  · obtain ⟨name, n, rfl, hn, fresh⟩ := Scope.exists_of_not_stops stops
    have hname := reached name n (List.mem_singleton_self _) hn
    have fresh' : name ∉ t'.following := fun mem => fresh ((h.following name hname).1 mem)
    -- the name is not the one being followed, so it was met on both sides or on neither
    have other : name ≠ x := fun same => fresh (same ▸ h.entered)
    rw [step_follow _ hn fresh, step_follow _ hn fresh']
    simp only [h.seenNames name other]
    split
    · exact ⟨h, rfl⟩
    · have entering := met.follow (name :: t.following) (name :: t'.following)
        (fun y hy => by rw [List.mem_cons, List.mem_cons, h.following y hy])
        (List.mem_cons_of_mem _ h.entered)
      obtain ⟨lowered, same⟩ := below name n hname hn fresh fresh' _ _ rfl rfl entering.enter
      have inside : 0 < (descend (steps n)
          { t.meet scope (.reference name) with following := name :: t.following }.enter).level :=
        same ▸ Nat.succ_pos _
      refine ⟨(lowered.leave inside).follow _ _ h.following h.entered, ?_⟩
      show (descend _ _).level - 1 = t.level
      rw [same]
      exact level

theorem SinksAlong.append {σ τ : List Step}
    (h : SinksAlong scope x following following' descend descend' σ)
    (h' : SinksAlong scope x following following' descend descend' τ) :
    SinksAlong scope x following following' descend descend' (σ ++ τ) := by
  intro t t' ht ht' lowered
  simp only [List.foldl_append]
  obtain ⟨middle, level⟩ := h t t' ht ht' lowered
  obtain ⟨last, level'⟩ := h' _ _ ((following_foldl_step _ σ t).trans ht)
    ((following_foldl_step _ σ t').trans ht') middle
  exact ⟨last, level'.trans level⟩

/-- Steps one level deeper. -/
theorem SinksAlong.nest {σ : List Step}
    (h : SinksAlong scope x following following' descend descend' σ) :
    SinksAlong scope x following following' descend descend'
      (.deeper :: (σ ++ [.shallower])) := by
  intro t t' ht ht' lowered
  obtain ⟨inner, level⟩ := h t.enter t'.enter ht ht' lowered.enter
  simp only [List.foldl_cons, List.foldl_append, List.foldl_nil]
  dsimp only at inner level
  refine ⟨inner.leave (level ▸ Nat.succ_pos _), ?_⟩
  exact congrArg (· - 1) level

/-- The steps of a tree. -/
theorem sinksAlong_walk (below : SinksBelow scope x following following' descend descend')
    {ns : List Node} {ps : List (Nat × Site)} {σ : List Step} (h : Walk ns ps σ)
    (reached : Reached scope x σ) :
    SinksAlong scope x following following' descend descend' σ := by
  induction h with
  | nil => exact fun _ _ _ _ lowered => ⟨lowered, rfl⟩
  | append _ _ ih ih' =>
    refine (ih fun name n hmem => ?_).append (ih' fun name n hmem => ?_)
    · exact reached name n (List.mem_append_left _ hmem)
    · exact reached name n (List.mem_append_right _ hmem)
  | column id table name => exact sinksAlong_singleton below (fun _ => rfl) reached
  | plain _ _ _ _ ih => exact ih reached
  | call id aggregate name arguments window _ ih =>
    have first : SinksAlong scope x following following' descend descend'
        [.call id aggregate name] :=
      sinksAlong_singleton below (fun _ => rfl) fun _ _ hmem => by simp at hmem
    exact first.append (ih fun name n hmem => reached name n (List.mem_cons_of_mem _ hmem))
  | nest _ ih =>
    exact (ih fun name n hmem =>
      reached name n (List.mem_cons_of_mem _ (List.mem_append_left _ hmem))).nest
  | @again n _ _ _ ih =>
    refine (ih fun name n hmem => reached name n (List.mem_append_left _ hmem)).append ?_
    cases n with
    | call | column => exact sinksAlong_singleton below (fun _ => rfl) fun _ _ hmem => by simp at hmem
    | _ => exact fun _ _ _ _ lowered => ⟨lowered, rfl⟩

/-- Runs through the tree of a name, with any budgets that suffice. -/
theorem sinks_run (budget : Nat) : ∀ {budget' : Nat} {following following' : List String}
    {name : String} {n : Node}, ReflTransGen scope.Follows x name → scope.tree? name = some n →
      scope.Suffices budget following → scope.Suffices budget' following' →
      Sinks scope x following following' (run scope budget (steps n))
        (run scope budget' (steps n)) := by
  have all {following following' : List String} {descend descend' : List Step → Tally → Tally}
      {name : String} {n : Node} (hname : ReflTransGen scope.Follows x name)
      (hn : scope.tree? name = some n)
      (below : SinksBelow scope x following following' descend descend') :
      SinksAlong scope x following following' descend descend' (steps n) :=
    sinksAlong_walk below (walk n) fun next m hmem hm =>
      hname.tail ⟨n, hn, reference_mem_steps.1 hmem, Option.isSome_of_mem hm⟩
  induction budget with
  | zero =>
    intro budget' following following' name n hname hn hb hb'
    cases budget' <;> exact all hname hn fun next m _ hm fresh => absurd (hb.mem_of_zero hm) fresh
  | succ budget ih =>
    intro budget' following following' name n hname hn hb hb'
    cases budget' with
    | zero => exact all hname hn fun next m _ hm _ fresh' => absurd (hb'.mem_of_zero hm) fresh'
    | succ budget' =>
      exact all hname hn fun next m hnext hm fresh fresh' =>
        ih hnext hm (hb.follow hm fresh) (hb'.follow hm fresh')

end Tally

/-! ## Reports -/

namespace Scope

variable {own : Option String} {column n : Node} (named : column.column? = some x)

include named

theorem steps_of_column? : steps column = [.reference x] := by
  cases column <;> cases named
  rfl

/-- **A column costs what the calculated field behind it costs**, one level deeper. -/
theorem report_column (hn : scope.tree? x = some n)
    (apart : ∀ y ∈ own, ¬ReflTransGen scope.Follows x y) :
    (scope.report own column).totals =
      { (scope.report (some x) n).totals with
        maxDepth := (scope.report (some x) n).maxDepth + 1 } := by
  have fresh : x ∉ own.toList := fun mem => apart x (Option.mem_toList.1 mem) .refl
  obtain ⟨budget, length⟩ : ∃ budget, scope.expressions.length = budget + 1 := by
    obtain ⟨e, he, -⟩ := tree?_eq_some.1 hn
    exact Nat.exists_eq_succ_of_ne_zero
      (List.length_pos_of_mem (find?_eq_some (target?_eq_some.1 he).2).1).ne'
  let entered : Tally :=
    { (Tally.start own.toList).meet scope (.reference x) with following := x :: own.toList }.enter
  have lowered : Tally.Lowered scope x (.start [x]) entered :=
    .start fun y hy mem => apart y (Option.mem_toList.1 mem) hy
  have enough : scope.Suffices budget (x :: own.toList) :=
    (length ▸ suffices_length own.toList : scope.Suffices (budget + 1) own.toList).follow hn fresh
  obtain ⟨result, -⟩ := Tally.sinks_run scope.expressions.length .refl hn (suffices_length [x]) enough
    (.start [x]) entered rfl rfl lowered
  have run : Tally.run scope scope.expressions.length (steps column) (.start own.toList) =
      { (Tally.run scope budget (steps n) entered).leave with following := own.toList } := by
    rw [length, steps_of_column? named]
    show (Tally.start own.toList).step scope (Tally.run scope budget) (.reference x) = _
    rw [Tally.step_follow _ hn fresh, if_neg fun h => List.not_mem_nil h.2]
    rfl
  unfold report
  rw [run]
  -- leaving the field changes neither the sums nor the depth
  exact result.totals

/-- A column that no tree is found for costs nothing. -/
theorem report_column_of_tree?_eq_none (hn : scope.tree? x = none) :
    (scope.report own column).totals = ⟨0, 0, false, false, []⟩ := by
  have stops (following : List String) : scope.Stops following (.reference x) := by
    rintro name n ⟨⟩ found
    rw [hn] at found
    cases found
  have run : Tally.run scope scope.expressions.length (steps column) (.start own.toList) =
      (Tally.start own.toList).meet scope (.reference x) := by
    rw [steps_of_column? named]
    cases scope.expressions.length <;> exact Tally.step_eq_meet _ (stops _)
  have sums := Tally.meet_sums scope (.start own.toList) (.reference x)
  unfold report
  rw [run]
  simp only [Tally.report, Report.totals, sums.cost, sums.maxDepth, sums.isAggregation,
    sums.isStringFunction]
  rfl

end Scope

end DashCalc.Cost
