import DashCalc.Proofs.Cost.Unroll
import Mathlib.Algebra.GroupWithZero.Nat

/-!
# What one pass adds up

Whatever the mode, a pass over steps adds the costs of the calls, moves the level, remembers the
highest level and notes what kinds of functions it met; recording dependencies does not interfere
(`Tally.meet_sums`). So the cost and the depth of the exhaustive mode are read off the written out
steps (`Scope.totalCost_exhaustive`, `Scope.maxDepth_exhaustive`).
-/

namespace DashCalc.Cost

/-! ## Costs, levels and flags of steps -/

namespace Step

/-- What a step costs. -/
def cost : Step → Nat
  | .call _ _ name => Catalog.cost name
  | _ => 0

/-- The level that a step opens, if it opens one. -/
def opened (level : Nat) : Step → Nat
  | .deeper => level + 1
  | _ => 0

/-- Whether a step is a call that makes the computation an aggregation. -/
def aggregates : Step → Bool
  | .call _ aggregate name => aggregate || isWindowed name (Catalog.lookup name).category
  | _ => false

/-- Whether a step is a call of a string function. -/
def isString : Step → Bool
  | .call _ _ name => (Catalog.lookup name).category == some .string
  | _ => false

end Step

/-- The highest level that the steps open. -/
def deepest : Nat → List Step → Nat
  | _, [] => 0
  | level, s :: σ => max (s.opened level) (deepest (s.levelAfter level) σ)

theorem deepest_append (level : Nat) (σ τ : List Step) :
    deepest level (σ ++ τ) = max (deepest level σ) (deepest (levelAfter level σ) τ) := by
  induction σ generalizing level with
  | nil => exact (Nat.zero_max _).symm
  | cons s σ ih =>
    show max (s.opened level) (deepest (s.levelAfter level) (σ ++ τ)) = _
    rw [ih, ← Nat.max_assoc]
    rfl

/-! ## Sums of a pass -/

namespace Tally

variable (scope : Scope)

/-- Recording a call adds to the dependencies and the calls seen, at most. -/
theorem exists_recordCall (t : Tally) (id : NodeId) (aggregate : Bool) (name : String) :
    ∃ dependencies seenCalls,
      t.recordCall scope id aggregate name = { t with dependencies, seenCalls } := by
  unfold recordCall
  cases scope.mode with
  | exhaustive => exact ⟨_, _, rfl⟩
  | deduplicated =>
    dsimp only
    split <;> exact ⟨_, _, rfl⟩

/-- Meeting a name that is not followed adds to the dependencies and the names seen, at most. -/
theorem exists_reference (t : Tally) (name : String) :
    ∃ dependencies seenNames,
      t.reference scope none name = { t with dependencies, seenNames } := by
  have recorded (t : Tally) (r : Referent) :
      ∃ dependencies, t.recordReferent name r = { t with dependencies } := by
    cases r <;> exact ⟨_, rfl⟩
  unfold reference
  cases scope.mode with
  | exhaustive =>
    obtain ⟨dependencies, h⟩ := recorded t (scope.referent name)
    exact ⟨dependencies, t.seenNames, h⟩
  | deduplicated =>
    dsimp only
    split
    · exact ⟨_, _, rfl⟩
    · obtain ⟨dependencies, h⟩ :=
        recorded { t with seenNames := name :: t.seenNames } (scope.referent name)
      exact ⟨dependencies, _, h⟩

/-- The sums of a tally after a step, compared with those before. -/
structure Sums (t u : Tally) (cost : Nat) (level opened : Nat) (aggregates isString : Bool) :
    Prop where
  cost : u.cost = t.cost + cost
  level : u.level = level
  maxDepth : u.maxDepth = max t.maxDepth opened
  isAggregation : u.isAggregation = (t.isAggregation || aggregates)
  isStringFunction : u.isStringFunction = (t.isStringFunction || isString)

theorem Sums.same {t u : Tally} (h : u = { t with
    dependencies := u.dependencies, seenCalls := u.seenCalls, seenNames := u.seenNames }) :
    Sums t u 0 t.level 0 false false := by
  rw [h]
  exact ⟨rfl, rfl, (Nat.max_zero _).symm, (Bool.or_false _).symm, (Bool.or_false _).symm⟩

/-- A step on its own adds to the sums what the step says. -/
theorem meet_sums (t : Tally) (s : Step) :
    Sums t (t.meet scope s) s.cost (s.levelAfter t.level) (s.opened t.level) s.aggregates
      s.isString := by
  cases s with
  | call id aggregate name =>
    obtain ⟨_, _, h⟩ := exists_recordCall scope (t.charge aggregate name) id aggregate name
    rw [meet, h]
    exact ⟨rfl, rfl, (Nat.max_zero _).symm, Bool.or_assoc .., rfl⟩
  | callAgain id aggregate name =>
    obtain ⟨_, _, h⟩ := exists_recordCall scope t id aggregate name
    rw [meet, h]
    exact .same rfl
  | reference name =>
    obtain ⟨_, _, h⟩ := exists_reference scope t name
    rw [meet, h]
    exact .same rfl
  | referenceAgain name =>
    obtain ⟨_, _, h⟩ := exists_reference scope t name
    rw [meet, h]
    exact .same rfl
  | deeper => exact ⟨rfl, rfl, rfl, (Bool.or_false _).symm, (Bool.or_false _).symm⟩
  | shallower =>
    exact ⟨rfl, rfl, (Nat.max_zero _).symm, (Bool.or_false _).symm, (Bool.or_false _).symm⟩

/-- A pass adds up what its steps add. -/
theorem foldl_meet_sums (σ : List Step) (t : Tally) :
    Sums t (σ.foldl (meet scope) t) (σ.map Step.cost).sum (levelAfter t.level σ)
      (deepest t.level σ) (σ.any Step.aggregates) (σ.any Step.isString) := by
  induction σ generalizing t with
  | nil => exact .same rfl
  | cons s σ ih =>
    have first := meet_sums scope t s
    have rest := ih (t.meet scope s)
    rw [first.level] at rest
    refine ⟨?_, rest.level, ?_, ?_, ?_⟩
    · rw [List.foldl_cons, rest.cost, first.cost, List.map_cons, List.sum_cons, Nat.add_assoc]
    · rw [List.foldl_cons, rest.maxDepth, first.maxDepth, Nat.max_assoc]
      rfl
    · rw [List.foldl_cons, rest.isAggregation, first.isAggregation, Bool.or_assoc, List.any_cons]
    · rw [List.foldl_cons, rest.isStringFunction, first.isStringFunction, Bool.or_assoc,
        List.any_cons]

end Tally

/-! ## Exhaustive reports -/

namespace Scope

variable {scope : Scope}

/-- All steps that the exhaustive mode goes through for a tree. -/
def trail (scope : Scope) (own : Option String) (n : Node) : List Step :=
  scope.unroll scope.expressions.length own.toList (steps n)

theorem report_exhaustive (hmode : scope.mode = .exhaustive) (own : Option String) (n : Node) :
    scope.report own n =
      ((scope.trail own n).foldl (Tally.meet scope) (.start own.toList)).report := by
  unfold report
  rw [Tally.run_eq_foldl hmode _ _ _ (suffices_length _) rfl]
  rfl

/-- The cost of a tree is that of all calls on the trail. -/
theorem totalCost_exhaustive (hmode : scope.mode = .exhaustive) (own : Option String) (n : Node) :
    (scope.report own n).totalCost = ((scope.trail own n).map Step.cost).sum := by
  rw [report_exhaustive hmode]
  exact (Tally.foldl_meet_sums _ _ _).cost.trans (Nat.zero_add _)

/-- The depth of a tree is the highest level that the trail opens. -/
theorem maxDepth_exhaustive (hmode : scope.mode = .exhaustive) (own : Option String) (n : Node) :
    (scope.report own n).maxDepth = deepest 0 (scope.trail own n) := by
  rw [report_exhaustive hmode]
  exact (Tally.foldl_meet_sums _ _ _).maxDepth.trans (Nat.zero_max _)

end Scope

end DashCalc.Cost
