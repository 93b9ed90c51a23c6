import DashCalc.Hierarchy.Build
import DashCalc.Proofs.Hierarchy.Leaves
import Mathlib.Data.List.Basic

/-!
# What finishing leaves as it is

Tagging and summing up go through the whole tree. Neither moves a branch, and a leaf gets at most
the tag for long durations (`Branch.Keeps`). So a finished tree has its shape, and the leaves are
those that were there before, apart from that tag (`Builder.finish_leaves`).
-/

namespace DashCalc.Hierarchy

namespace Branch

/-- The branch without the tag for long durations. -/
def unmarked (b : Branch) : Branch :=
  { b with metrics := { b.metrics with tags := { b.metrics.tags with longDuration := false } } }

/-- A leaf without the tag for long durations. -/
def unmark (l : Located) : Located := (l.1, l.2.unmarked)

/-- Whether a change of all branches of a tree moves none and gives leaves nothing but the tag for
long durations. -/
structure Keeps (change : Branch → Branch) : Prop where
  key : ∀ b, (change b).key = b.key
  level : ∀ b, (change b).level = b.level
  details : ∀ b, (change b).details = b.details
  children : ∀ b, (change b).children = b.children.map change
  leaf : ∀ b, b.children = [] → (change b).unmarked = b.unmarked

namespace Keeps

variable {change : Branch → Branch}

theorem shaped (h : Keeps change) : ∀ {levels : List Level} {b : Branch}, Shaped levels b →
    Shaped levels (change b) := by
  intro levels
  induction levels with
  | nil => exact id
  | cons level below ih =>
    intro b hb
    have same : Branch.key ∘ change = Branch.key := funext h.key
    refine ⟨(h.level b).trans hb.1, ?_, ?_, ?_⟩
    · rw [h.details]
      exact hb.2.1
    · rw [h.children, List.map_map, same]
      exact hb.2.2.1
    · rw [h.children]
      intro c hc
      obtain ⟨d, hd, rfl⟩ := List.mem_map.1 hc
      exact ih (hb.2.2.2 d hd)

theorem leaves (h : Keeps change) : ∀ {levels : List Level} {b : Branch}, Shaped levels b →
    (change b).leaves.map unmark = b.leaves.map unmark := by
  intro levels
  induction levels with
  | nil => exact fun hb => hb.elim
  | cons level below ih =>
    intro b hb
    cases below with
    | nil =>
      rw [(h.shaped hb).leaves_request, hb.leaves_request]
      exact congrArg (fun c => [([], c)]) (h.leaf b hb.children_eq_nil)
    | cons next below =>
      have inner := List.cons_ne_nil next below
      rw [(h.shaped hb).leaves_inner inner, hb.leaves_inner inner, h.children]
      unfold leavesAmong
      rw [List.flatMap_map, List.map_flatMap, List.map_flatMap]
      refine List.flatMap_congr fun c hc => ?_
      have below := congrArg (List.map (under c.key)) (ih (hb.2.2.2 c hc))
      rw [List.map_map, List.map_map] at below ⊢
      rw [h.key]
      exact below

/-- The branches of a tree are the same ones, changed. -/
theorem branches (h : Keeps change) (b : Branch) : (change b).branches = b.branches.map change := by
  induction b using Branch.induction with
  | step b ih =>
    rw [branches_eq, branches_eq b, h.children, List.map_cons, List.flatMap_map, List.map_flatMap]
    exact congrArg (change b :: ·) (List.flatMap_congr ih)

/-- Keys lead to the same branches, changed. -/
theorem find? (h : Keeps change) (keys : List String) : ∀ b : Branch,
    (change b).find? keys = (b.find? keys).map change := by
  induction keys with
  | nil => exact fun _ => rfl
  | cons key keys ih =>
    intro b
    have child : (change b).child? key = (b.child? key).map change := by
      unfold child?
      rw [h.children, List.find?_map]
      simp only [Function.comp_def, h.key]
    rw [Branch.find?, Branch.find?, child]
    cases b.child? key with
    | none => rfl
    | some c => exact ih c

end Keeps

theorem tagAllAbove_eq_map (threshold : Float) (bs : List Branch) :
    tagAllAbove threshold bs = bs.map (tagAbove threshold) := by
  induction bs with
  | nil => rfl
  | cons b bs ih => rw [tagAllAbove, ih, List.map_cons]

theorem aggregateAll_eq_map (limit : Nat) (bs : List Branch) :
    aggregateAll limit bs = bs.map (aggregate limit) := by
  induction bs with
  | nil => rfl
  | cons b bs ih => rw [aggregateAll, ih, List.map_cons]

/-- What changes the metrics of a branch and the branches below it keeps the tree, if a leaf gets
nothing but the tag for long durations. -/
theorem Keeps.of_eq {change : Branch → Branch}
    (h : ∀ b, ∃ metrics, change b = { b with metrics, children := b.children.map change } ∧
      (b.children = [] → { b with metrics }.unmarked = b.unmarked)) :
    Keeps change := by
  refine ⟨fun b => ?_, fun b => ?_, fun b => ?_, fun b => ?_, fun b empty => ?_⟩ <;>
    obtain ⟨metrics, hb, same⟩ := h b <;> rw [hb]
  rw [← same empty, empty]
  rfl

theorem tagAbove_eq (threshold : Float) (b : Branch) : b.tagAbove threshold =
    { b with
      metrics := { b.metrics with
        tags := b.metrics.tags.insertIf (isAbove threshold b.details) .longDuration }
      children := b.children.map (tagAbove threshold) } := by
  obtain ⟨key, level, name, metrics, details, children⟩ := b
  rw [tagAbove, tagAllAbove_eq_map]

theorem unmarked_insertIf (b : Branch) (condition : Bool) :
    { b with metrics := { b.metrics with
      tags := b.metrics.tags.insertIf condition .longDuration } }.unmarked = b.unmarked := by
  cases condition <;> rfl

theorem keeps_tagAbove (threshold : Float) : Keeps (tagAbove threshold) :=
  .of_eq fun b => ⟨_, tagAbove_eq threshold b, fun _ => unmarked_insertIf b _⟩

theorem keeps_aggregate (limit : Nat) : Keeps (aggregate limit) := by
  refine .of_eq fun b => ?_
  obtain ⟨key, level, name, metrics, details, children⟩ := b
  rw [aggregate]
  -- a leaf is left alone, any other branch gets its metrics anew
  by_cases empty : children = []
  · subst empty
    exact ⟨metrics, rfl, fun _ => rfl⟩
  · rw [if_neg fun h => empty (List.isEmpty_iff.1 h), aggregateAll_eq_map]
    exact ⟨_, rfl, fun h => absurd h empty⟩

end Branch

/-- Finishing makes no path and takes none away. -/
theorem Builder.isSome_find?_finish (settings : Settings.Analysis) (b : Builder)
    (keys : List String) :
    ((b.finish settings).root.find? keys).isSome = (b.root.find? keys).isSome := by
  unfold finish Branch.tagLongDurations
  dsimp only
  rw [(Branch.keeps_aggregate _).find?, Option.isSome_map]
  split
  · rfl
  · rw [(Branch.keeps_tagAbove _).find?, Option.isSome_map]

/-- Finishing keeps the shape of a tree and its leaves, apart from the tag for long durations. -/
theorem Builder.finish_leaves (settings : Settings.Analysis) {b : Builder} {levels : List Level}
    (h : Branch.Shaped levels b.root) :
    Branch.Shaped levels (b.finish settings).root ∧
      (b.finish settings).root.leaves.map Branch.unmark = b.root.leaves.map Branch.unmark := by
  have tagged : Branch.Shaped levels (b.root.tagLongDurations settings.longDurationSigma).1 ∧
      (b.root.tagLongDurations settings.longDurationSigma).1.leaves.map Branch.unmark =
        b.root.leaves.map Branch.unmark := by
    unfold Branch.tagLongDurations
    split
    · exact ⟨h, rfl⟩
    · exact ⟨(Branch.keeps_tagAbove _).shaped h, (Branch.keeps_tagAbove _).leaves h⟩
  have summed := Branch.keeps_aggregate settings.highCostRequestLimit
  exact ⟨summed.shaped tagged.1, (summed.leaves tagged.1).trans tagged.2⟩

end DashCalc.Hierarchy
