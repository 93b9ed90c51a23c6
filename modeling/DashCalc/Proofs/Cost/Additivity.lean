import DashCalc.Proofs.Cost.Follow
import DashCalc.Proofs.Cost.Pass
import DashCalc.Proofs.Reference.Ordering
import Mathlib.Algebra.Order.BigOperators.Group.List
import Mathlib.Algebra.Order.Group.Nat

/-!
# Cost and depth without cycles

As long as no calculated field refers to itself, directly or through others, a reference is followed
on every way to it, and the steps written out behind it are the trail of its field on its own
(`Scope.trail_eq_flatMap`): neither the budget nor what is being followed cuts anything off
(`Scope.unroll_congr`). So the cost of a tree is that of its own calls and of the fields behind its
columns, and its depth is the deepest of its own sites and of the fields behind them
(`Scope.analyze_of_acyclic`).
-/

namespace DashCalc.Cost

open Relation (ReflTransGen TransGen)

namespace Scope

variable {scope : Scope} {following : List String} {σ : List Step}

/-! ## Ways of following -/

/-- Whether nothing that is followed from some steps on is being followed already. -/
def Avoids (scope : Scope) (following : List String) (σ : List Step) : Prop :=
  ∀ name, .reference name ∈ σ → (scope.tree? name).isSome →
    ∀ other, ReflTransGen scope.Follows name other → other ∉ following

theorem avoids_nil : scope.Avoids [] σ := fun _ _ _ _ _ => List.not_mem_nil

theorem Avoids.not_mem {name : String} {n : Node} (h : scope.Avoids following σ)
    (hname : .reference name ∈ σ) (ht : scope.tree? name = some n) : name ∉ following :=
  h name hname (Option.isSome_of_mem ht) name .refl

/-- Without cycles, following a name leaves the others free. -/
theorem Avoids.enter (acyclic : ∀ x, ¬ TransGen scope.Follows x x) {name : String} {n : Node}
    (h : scope.Avoids following σ) (hname : .reference name ∈ σ) (ht : scope.tree? name = some n) :
    scope.Avoids (name :: following) (steps n) := by
  intro next hnext hsome other hother
  have first : scope.Follows name next := ⟨n, ht, reference_mem_steps.1 hnext, hsome⟩
  rw [List.mem_cons, not_or]
  constructor
  · rintro rfl
    exact acyclic other (TransGen.head' first hother)
  · exact h name hname (Option.isSome_of_mem ht) other (.head first hother)

/-- Steps without a reference to follow are written out as they are. -/
theorem unroll_eq_self (budget : Nat) (h : ∀ name, .reference name ∈ σ → scope.tree? name = none) :
    scope.unroll budget following σ = σ := by
  cases budget with
  | zero => rfl
  | succ budget =>
    unfold unroll
    have flat : ∀ s ∈ σ, s :: scope.detour (scope.unroll budget) following s = [s] := by
      intro s hs
      cases s with
      | reference name => simp only [detour, h name hs]
      | _ => rfl
    rw [List.flatMap_congr flat, List.flatMap_singleton']

/-- Without cycles, what is written out does not depend on a budget that suffices, nor on what is
being followed, if that is out of the way. -/
theorem unroll_congr (acyclic : ∀ x, ¬ TransGen scope.Follows x x) (budget : Nat) :
    ∀ {budget' : Nat} {following following' : List String} {σ : List Step},
      scope.Suffices budget following → scope.Suffices budget' following' →
      scope.Avoids following σ → scope.Avoids following' σ →
      scope.unroll budget following σ = scope.unroll budget' following' σ := by
  -- an exhausted budget suffices only if there is nothing to follow
  have exhausted {following : List String} {σ : List Step} (hb : scope.Suffices 0 following)
      (h : scope.Avoids following σ) :
      ∀ name, .reference name ∈ σ → scope.tree? name = none := by
    intro name hname
    cases ht : scope.tree? name with
    | none => rfl
    | some n => exact absurd (hb.mem_of_zero ht) (h.not_mem hname ht)
  induction budget with
  | zero =>
    intro budget' following following' σ hb _ h _
    rw [unroll_eq_self _ (exhausted hb h), unroll_eq_self _ (exhausted hb h)]
  | succ budget ih =>
    intro budget' following following' σ hb hb' h h'
    cases budget' with
    | zero => rw [unroll_eq_self _ (exhausted hb' h'), unroll_eq_self _ (exhausted hb' h')]
    | succ budget' =>
      unfold unroll
      refine List.flatMap_congr fun s hs => congrArg (s :: ·) ?_
      cases s with
      | reference name =>
        simp only [detour]
        cases ht : scope.tree? name with
        | none => rfl
        | some n =>
          have fresh := h.not_mem hs ht
          have fresh' := h'.not_mem hs ht
          simp only [if_neg fresh, if_neg fresh']
          rw [ih (hb.follow ht fresh) (hb'.follow ht fresh') (h.enter acyclic hs ht)
            (h'.enter acyclic hs ht)]
      | _ => rfl

/-! ## Trails without cycles -/

/-- What is written out behind a name on its own. -/
def behind (scope : Scope) (name : String) : List Step :=
  match scope.tree? name with
  | some n => .deeper :: (scope.trail (some name) n ++ [.shallower])
  | none => []

/-- What is written out behind a step on its own. -/
def behindStep (scope : Scope) : Step → List Step
  | .reference name => scope.behind name
  | _ => []

/-- Without cycles, a trail has the whole trail of a field behind every reference to it. -/
theorem trail_eq_flatMap (acyclic : ∀ x, ¬ TransGen scope.Follows x x) {own : Option String}
    {n : Node} (h : scope.Avoids own.toList (steps n)) :
    scope.trail own n = (steps n).flatMap fun s => s :: scope.behindStep s := by
  have enough := scope.suffices_length own.toList
  unfold trail
  cases hbudget : scope.expressions.length with
  | zero =>
    rw [hbudget] at enough
    refine (List.flatMap_singleton' _).symm.trans (List.flatMap_congr fun s hs => ?_)
    cases s with
    | reference name =>
      cases ht : scope.tree? name with
      | none => simp only [behindStep, behind, ht]
      | some m => exact absurd (enough.mem_of_zero ht) (h.not_mem hs ht)
    | _ => rfl
  | succ budget =>
    rw [hbudget] at enough
    unfold unroll
    refine List.flatMap_congr fun s hs => congrArg (s :: ·) ?_
    cases s with
    | reference name =>
      simp only [detour, behindStep, behind]
      cases ht : scope.tree? name with
      | none => rfl
      | some m =>
        have fresh := h.not_mem hs ht
        simp only [if_neg fresh]
        have alone : scope.Avoids [name] (steps m) := avoids_nil.enter acyclic hs ht
        rw [unroll_congr acyclic budget (enough.follow ht fresh)
          (scope.suffices_length [name]) (h.enter acyclic hs ht) alone]
        rfl
    | _ => rfl

/-! ## Sums over a trail -/

/-- The report on the field that a name is looked up as, if that field was read. -/
def reportBehind? (scope : Scope) (name : String) : Option Report :=
  (scope.target? name).bind scope.analyze

/-- The report behind a name is that of the first calculated field of the name, unless the name is a
parameter or the field was not read. -/
theorem reportBehind?_eq_some {name : String} {r : Report} :
    scope.reportBehind? name = some r ↔ scope.parameters.get? name = none ∧
      ∃ e, scope.find? .calculatedField name = some e ∧ scope.analyze e = some r := by
  unfold reportBehind?
  simp only [Option.bind_eq_some_iff, target?_eq_some, and_assoc, exists_and_left]

/-- The report behind a name is that of the tree behind it, under its own name. -/
theorem reportBehind?_eq_map (scope : Scope) (name : String) :
    scope.reportBehind? name = (scope.tree? name).map (scope.report (some name)) := by
  unfold reportBehind? tree?
  cases h : scope.target? name with
  | none => rfl
  | some e =>
    obtain ⟨-, hkind, hname⟩ := find?_eq_some (target?_eq_some.1 h).2
    simp only [Option.bind_some, analyze, hkind, hname, beq_self_eq_true, if_true]

theorem sum_cost (σ : List Step) :
    (σ.map Step.cost).sum = ((σ.filterMap Step.function?).map Catalog.cost).sum := by
  induction σ with
  | nil => rfl
  | cons s σ ih =>
    rw [List.map_cons, List.sum_cons, ih]
    cases s with
    | call id aggregate name => rfl
    | _ => exact Nat.zero_add _

/-- What stands behind a name costs what its report says. -/
theorem sum_cost_behind (hmode : scope.mode = .exhaustive) (name : String) :
    ((scope.behind name).map Step.cost).sum =
      (scope.reportBehind? name).elim 0 Report.totalCost := by
  rw [reportBehind?_eq_map]
  unfold behind
  cases scope.tree? name with
  | none => rfl
  | some n =>
    simp only [Option.map_some, Option.elim_some, totalCost_exhaustive hmode, List.map_cons,
      List.map_append, List.map_nil, List.sum_cons, List.sum_append, List.sum_nil, Step.cost]
    omega

theorem sum_cost_flatMap (hmode : scope.mode = .exhaustive) (σ : List Step) :
    ((σ.flatMap fun s => s :: scope.behindStep s).map Step.cost).sum =
      ((σ.filterMap Step.function?).map Catalog.cost).sum +
        ((σ.filterMap Step.column?).map fun name =>
          (scope.reportBehind? name).elim 0 Report.totalCost).sum := by
  rw [← sum_cost]
  induction σ with
  | nil => rfl
  | cons s σ ih =>
    rw [List.flatMap_cons, List.map_append, List.sum_append, ih, List.map_cons, List.map_cons,
      List.sum_cons, List.sum_cons]
    cases s with
    | reference name =>
      have inner : ((scope.behindStep (.reference name)).map Step.cost).sum =
          (scope.reportBehind? name).elim 0 Report.totalCost := sum_cost_behind hmode name
      show _ = _ + ((scope.reportBehind? name).elim 0 Report.totalCost :: List.map _ _).sum
      rw [inner, List.sum_cons]
      omega
    | _ =>
      rw [List.filterMap_cons_none rfl]
      simp only [behindStep, List.map_nil, List.sum_nil]
      omega

/-! ## The depth of a trail -/

end Scope

/-- The largest of some numbers, or zero. -/
def highest (numbers : List Nat) : Nat := numbers.foldr max 0

theorem highest_append (xs ys : List Nat) : highest (xs ++ ys) = max (highest xs) (highest ys) := by
  induction xs with
  | nil => exact (Nat.zero_max _).symm
  | cons x xs ih =>
    show max x (highest (xs ++ ys)) = max (max x (highest xs)) (highest ys)
    rw [ih, Nat.max_assoc]

theorem le_highest {x : Nat} {xs : List Nat} (h : x ∈ xs) : x ≤ highest xs := by
  induction xs with
  | nil => exact absurd h List.not_mem_nil
  | cons y xs ih =>
    rcases List.mem_cons.1 h with rfl | h
    · exact Nat.le_max_left _ _
    · exact (ih h).trans (Nat.le_max_right _ _)

/-- The level that a site opens above a level, if a column goes as much deeper as `inside` says. -/
def siteLevel (inside : String → Option Nat) (level : Nat) : Nat × Site → Nat
  | (depth, .opening) => level + depth + 1
  | (depth, .column name) => (inside name).elim 0 (level + depth + ·)

theorem siteLevel_deepened (inside : String → Option Nat) (level : Nat)
    (ps : List (Nat × Site)) :
    (deepened ps).map (siteLevel inside level) = ps.map (siteLevel inside (level + 1)) := by
  unfold deepened
  rw [List.map_map]
  refine List.map_congr_left fun p _ => ?_
  obtain ⟨depth, site⟩ := p
  have e : level + (depth + 1) = level + 1 + depth := by omega
  cases site <;> simp only [Function.comp, siteLevel, e]

/-- Sites reach as high above the level on which they start as they do from the ground. -/
theorem max_highest_siteLevel (inside : String → Option Nat) (level : Nat)
    (ps : List (Nat × Site)) :
    max level (highest (ps.map (siteLevel inside level))) =
      level + highest (ps.map (siteLevel inside 0)) := by
  induction ps with
  | nil => exact Nat.max_zero level
  | cons p ps ih =>
    have first : siteLevel inside level p = 0 ∧ siteLevel inside 0 p = 0 ∨
        siteLevel inside level p = level + siteLevel inside 0 p := by
      obtain ⟨depth, _ | name⟩ := p <;> simp only [siteLevel]
      · omega
      · cases inside name with
        | none => exact .inl ⟨rfl, rfl⟩
        | some k =>
          simp only [Option.elim_some]
          omega
    show max level (max (siteLevel inside level p) (highest (ps.map (siteLevel inside level)))) =
      level + max (siteLevel inside 0 p) (highest (ps.map (siteLevel inside 0)))
    omega

/-- The deepest level of a walk with more steps behind its references is that of its sites. -/
theorem Walk.deepest_flatMap {behind : Step → List Step} {inside : String → Option Nat}
    (none : ∀ s, (∀ name, s ≠ .reference name) → behind s = [])
    (flat : ∀ s level, Cost.levelAfter level (behind s) = level)
    (deep : ∀ name level,
      deepest level (behind (.reference name)) = (inside name).elim 0 (level + ·))
    {ns : List Node} {ps : List (Nat × Site)} {σ : List Step} (h : Walk ns ps σ) (level : Nat) :
    deepest level (σ.flatMap fun s => s :: behind s) =
      highest (ps.map (siteLevel inside level)) := by
  induction h generalizing level with
  | nil => rfl
  | append hσ _ ih ih' =>
    rw [List.flatMap_append, deepest_append, Scope.levelAfter_flatMap flat, hσ.levelAfter, ih, ih',
      List.map_append, highest_append]
  | column id table name =>
    show max 0 (deepest level (behind _ ++ [])) =
      max ((inside (Node.columnAlias table name)).elim 0 (level + 0 + ·)) 0
    rw [List.append_nil, deep, Nat.zero_max, Nat.max_zero, Nat.add_zero]
  | plain _ _ _ _ ih => exact ih level
  | call id aggregate name arguments window _ ih =>
    rw [List.flatMap_cons, none (.call id aggregate name) fun _ => nofun]
    exact (Nat.zero_max _).trans (ih level)
  | @nest _ ps σ hσ ih =>
    have last : ∀ level, deepest level ([Step.shallower].flatMap fun s => s :: behind s) = 0 := by
      intro level
      rw [List.flatMap_singleton, none .shallower fun _ => nofun]
      rfl
    rw [List.flatMap_cons, List.flatMap_append, none .deeper fun _ => nofun]
    show max (level + 1) (deepest (level + 1) ((σ.flatMap fun s => s :: behind s) ++
        [Step.shallower].flatMap fun s => s :: behind s)) =
      max (level + 0 + 1) (highest ((deepened ps).map (siteLevel inside level)))
    rw [deepest_append, last, Nat.max_zero, ih, siteLevel_deepened, Nat.add_zero]
  | @again n _ _ _ ih =>
    have last : ∀ level, deepest level ((Cost.again n).flatMap fun s => s :: behind s) = 0 := by
      intro level
      cases n with
      | call id aggregate name arguments window =>
        show deepest level ((.callAgain id aggregate name :: behind _) ++ []) = 0
        rw [none (.callAgain id aggregate name) fun _ => nofun]
        rfl
      | column id table name =>
        show deepest level ((.referenceAgain _ :: behind _) ++ []) = 0
        rw [none (.referenceAgain _) fun _ => nofun]
        rfl
      | _ => rfl
    rw [List.flatMap_append, deepest_append, ih, last, Nat.max_zero]

/-- The deepest level of a walk is that of its calls and sort keys. -/
theorem Walk.deepest {ns : List Node} {ps : List (Nat × Site)} {σ : List Step} (h : Walk ns ps σ)
    (level : Nat) : deepest level σ = highest (ps.map (siteLevel (fun _ => none) level)) := by
  have bare : Cost.deepest level (σ.flatMap fun s => [s]) =
      highest (ps.map (siteLevel (fun _ => none) level)) :=
    h.deepest_flatMap (fun _ _ => rfl) (fun _ _ => rfl) (fun _ _ => rfl) level
  rwa [List.flatMap_singleton'] at bare

namespace Scope

variable {scope : Scope}

/-- Steps between two changes of the level. -/
theorem deepest_nested (level : Nat) (σ : List Step) :
    deepest level (.deeper :: (σ ++ [.shallower])) =
      max (level + 1) (deepest (level + 1) σ) := by
  show max (level + 1) (deepest (level + 1) (_ ++ [.shallower])) = _
  rw [deepest_append]
  exact congrArg _ (Nat.max_zero _)

/-- How much deeper than a reference the field behind it goes, if at most `budget` more names are
followed. -/
def depthInside (scope : Scope) (budget : Nat) (following : List String) (name : String) :
    Option Nat :=
  match scope.tree? name with
  | some n =>
    if name ∈ following then none
    else some (1 + deepest 0 (scope.unroll budget (name :: following) (steps n)))
  | none => none

/-- The deepest level of written out steps is that of their sites, each column as deep as the field
behind it; `shift` says that what is written out there does not depend on the level. -/
theorem deepest_unroll_succ {budget : Nat}
    (shift : ∀ (following : List String) (n : Node) (level : Nat),
      max level (deepest level (scope.unroll budget following (steps n))) =
        level + deepest 0 (scope.unroll budget following (steps n)))
    (following : List String) {ns : List Node} {ps : List (Nat × Site)} {σ : List Step}
    (h : Walk ns ps σ) (level : Nat) :
    deepest level (scope.unroll (budget + 1) following σ) =
      highest (ps.map (siteLevel (scope.depthInside budget following) level)) := by
  refine h.deepest_flatMap ?_ (levelAfter_detour (levelAfter_unroll budget) following) ?_ level
  · intro s hs
    cases s with
    | reference name => exact absurd rfl (hs name)
    | _ => rfl
  · intro name level
    simp only [detour, depthInside]
    cases scope.tree? name with
    | none => rfl
    | some n =>
      dsimp only
      split
      · rfl
      · rw [deepest_nested, shift]
        exact Nat.add_assoc ..

/-- Written out steps reach as high above the level on which they start as they do from the
ground. -/
theorem deepest_unroll_shift (budget : Nat) : ∀ (following : List String) {ns : List Node}
    {ps : List (Nat × Site)} {σ : List Step}, Walk ns ps σ → ∀ level : Nat,
      max level (deepest level (scope.unroll budget following σ)) =
        level + deepest 0 (scope.unroll budget following σ) := by
  induction budget with
  | zero =>
    intro following ns ps σ h level
    show max level (deepest level σ) = level + deepest 0 σ
    rw [h.deepest, h.deepest, max_highest_siteLevel]
  | succ budget ih =>
    intro following ns ps σ h level
    have shift := fun following n level => ih following (walk n) level
    rw [deepest_unroll_succ shift following h, deepest_unroll_succ shift following h,
      max_highest_siteLevel]

/-- The level that a site of a tree opens: a call or a sort key one more than there are around it,
a column one more and the depth of the field behind it. -/
def levelAt (scope : Scope) : Nat × Site → Nat
  | (depth, .opening) => depth + 1
  | (depth, .column name) =>
    (scope.reportBehind? name).elim 0 fun r => depth + 1 + r.maxDepth

theorem deepest_flatMap_behindStep (hmode : scope.mode = .exhaustive) (n : Node) :
    deepest 0 ((steps n).flatMap fun s => s :: scope.behindStep s) =
      highest ((sites n).map scope.levelAt) := by
  have same : siteLevel (fun name => (scope.reportBehind? name).map (1 + ·.maxDepth)) 0 =
      scope.levelAt := by
    funext ⟨depth, site⟩
    cases site with
    | opening => exact congrArg (· + 1) (Nat.zero_add depth)
    | column name =>
      simp only [siteLevel, levelAt, Nat.zero_add]
      cases scope.reportBehind? name with
      | none => rfl
      | some r => exact (Nat.add_assoc ..).symm
  rw [← same]
  refine (walk n).deepest_flatMap ?_ ?_ ?_ 0
  · intro s hs
    cases s with
    | reference name => exact absurd rfl (hs name)
    | _ => rfl
  · intro s level
    cases s with
    | reference name =>
      simp only [behindStep, behind]
      split
      · next m _ =>
        show levelAfter (level + 1) _ = level
        rw [levelAfter_append, trail, levelAfter_unroll, (walk m).levelAfter]
        rfl
      · rfl
    | _ => rfl
  · intro name level
    rw [reportBehind?_eq_map]
    simp only [behindStep, behind]
    cases scope.tree? name with
    | none => rfl
    | some m =>
      simp only [Option.map_some, Option.elim_some, maxDepth_exhaustive hmode]
      rw [deepest_nested, trail, deepest_unroll_shift _ _ (walk m), Nat.add_assoc]

/-! ## Reports of expressions -/

/-- Without cycles, an expression never leads back to its own name. -/
theorem avoids_ownName
    (acyclic : ∀ x, ¬ (ReferenceGraph.ofExpressions scope.expressions).Reaches x x)
    {e : Expression} (he : e ∈ scope.expressions) {n : Node} (hn : e.tree? = some n) :
    scope.Avoids (ownName e).toList (steps n) := by
  unfold ownName
  split
  · next hkind =>
    intro name hname hsome other hother hmem
    obtain rfl := List.mem_singleton.1 hmem
    have first : (ReferenceGraph.ofExpressions scope.expressions).Refers e.name name :=
      ReferenceGraph.refers_ofExpressions.2 ⟨e, ⟨he, beq_iff_eq.1 hkind⟩, rfl,
        ⟨n, hn, reference_mem_steps.1 hname⟩, mem_nodes_of_tree? hsome⟩
    have back : ReflTransGen (ReferenceGraph.ofExpressions scope.expressions).Refers name e.name :=
      ReflTransGen.mono (fun _ _ => Follows.refers) _ _ hother
    exact acyclic e.name (TransGen.head' first back)
  · exact avoids_nil

/-- **Cost and depth without cycles**: an expression costs what its own calls and the fields behind
its columns cost together, and it is as deep as the deepest of its sites, a column being one level
deeper than the field behind it. So it costs no less than any of these fields and is deeper. -/
theorem analyze_of_acyclic (hmode : scope.mode = .exhaustive)
    (acyclic : (ReferenceGraph.ofExpressions scope.expressions).evaluationOrder.isSome)
    {e : Expression} (he : e ∈ scope.expressions) {n : Node} (hn : e.tree? = some n) :
    ∃ r, scope.analyze e = some r ∧
      r.totalCost = ((n.nodes.filterMap Node.function?).map Catalog.cost).sum +
        (n.columns.map fun name => (scope.reportBehind? name).elim 0 Report.totalCost).sum ∧
      r.maxDepth = highest ((sites n).map scope.levelAt) ∧
      ∀ name ∈ n.columns, scope.parameters.get? name = none →
        ∀ e', scope.find? .calculatedField name = some e' → ∀ b, scope.analyze e' = some b →
          b.totalCost ≤ r.totalCost ∧ b.maxDepth + 1 ≤ r.maxDepth := by
  have noCycle := ReferenceGraph.isSome_evaluationOrder.1 acyclic
  have noReturn : ∀ x, ¬ TransGen scope.Follows x x :=
    fun x h => noCycle x (TransGen.mono (fun _ _ => Follows.refers) _ _ h)
  have htrail := trail_eq_flatMap noReturn (avoids_ownName noCycle he hn)
  have hcost : (scope.report (ownName e) n).totalCost =
      ((n.nodes.filterMap Node.function?).map Catalog.cost).sum +
        (n.columns.map fun name => (scope.reportBehind? name).elim 0 Report.totalCost).sum := by
    rw [totalCost_exhaustive hmode, htrail, sum_cost_flatMap hmode, filterMap_function?_steps,
      filterMap_column?_steps]
  have hdepth : (scope.report (ownName e) n).maxDepth =
      highest ((sites n).map scope.levelAt) := by
    rw [maxDepth_exhaustive hmode, htrail, deepest_flatMap_behindStep hmode]
  refine ⟨scope.report (ownName e) n, analyze_eq_report hn, hcost, hdepth, ?_⟩
  intro name hname hparameter e' he' b hanalyze
  have hb : scope.reportBehind? name = some b :=
    reportBehind?_eq_some.2 ⟨hparameter, e', he', hanalyze⟩
  constructor
  · have part := List.le_sum_of_mem (List.mem_map_of_mem
      (f := fun name => (scope.reportBehind? name).elim 0 Report.totalCost) hname)
    simp only [hb, Option.elim_some] at part
    rw [hcost]
    exact part.trans (Nat.le_add_left _ _)
  · obtain ⟨depth, hsite⟩ := exists_site_of_mem_columns hname
    have part := le_highest (List.mem_map_of_mem (f := scope.levelAt) hsite)
    rw [← hdepth] at part
    simp only [levelAt, hb, Option.elim_some] at part
    omega

/-- A margin of a profit, both calculated fields; the profit ranks by a sum. -/
def marginAndProfit : Scope where
  expressions := [
    { Expression.calculatedField "margin" "profit / SUM(revenue)" with
      reading := .tree (.binary 0 "/" (.column 1 none "profit")
        (.call 2 true "SUM" [.column 3 none "revenue"] none)) },
    { Expression.calculatedField "profit" "RANK() OVER (ORDER BY SUM(revenue) DESC)" with
      reading := .tree (.call 4 false "RANK" [] (some ⟨[⟨5,
        .call 6 true "SUM" [.column 7 none "revenue"] none, .descending⟩], [], none⟩)) }]
  parameters := ∅
  links := .off
  mode := .exhaustive

/-- The margin costs its sum and the profit, and is one level deeper than the profit. -/
theorem analyze_margin : marginAndProfit.mode = .exhaustive ∧
    (ReferenceGraph.ofExpressions marginAndProfit.expressions).evaluationOrder.isSome ∧
    ∃ e ∈ marginAndProfit.expressions, e.name = "margin" ∧ ∃ n, e.tree? = some n ∧
      ∃ r, marginAndProfit.analyze e = some r ∧ r.totalCost = 5 + (6 + 5) ∧ r.maxDepth = 1 + 3 := by
  refine ⟨rfl, by decide, _, List.mem_cons_self, rfl, _, rfl, ?_⟩
  obtain ⟨r, hr, hcost, hdepth, -⟩ :=
    analyze_of_acyclic (show marginAndProfit.mode = .exhaustive from rfl) (by decide)
      List.mem_cons_self rfl
  exact ⟨r, hr, hcost.trans (by decide), hdepth.trans (by decide)⟩

end Scope

end DashCalc.Cost
