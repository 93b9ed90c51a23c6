import DashCalc.Proofs.Hierarchy.Finishing

/-!
# Which branches are tagged for their duration

Two passes go through a tree: one takes the durations of all branches that have one, the other tags
the branches above the threshold that comes of them: so many deviations above the mean
(`map_threshold_ofSamples?`). Afterwards the tree is the one before but for the new tags, and those
are exactly on the outliers (`Branch.tagLongDurations_retags`).

Tags play no part in durations, so a second time the threshold is the same and nothing is left to
tag. None of this looks at the shape of the tree: details may be on any branch.
-/

namespace DashCalc.Hierarchy

/-- A tag that a set has makes no difference to it. -/
theorem TagSet.insertIf_insertIf (condition : Bool) (t : Tag) (s : TagSet) :
    (s.insertIf condition t).insertIf condition t = s.insertIf condition t := by
  refine TagSet.ext fun u => Bool.eq_iff_iff.2 ?_
  rw [contains_insertIf, contains_insertIf, or_assoc, or_self]

/-! ## Mean and deviation -/

/-- The mean of some durations: their sum from left to right, which starts from negative zero,
divided by their number. -/
def mean (samples : List Float) : Float :=
  samples.foldl (· + ·) (-0.0) / samples.length.toFloat

/-- The standard deviation of some durations: the root of the mean of their squared distances from
their mean. -/
def deviation (samples : List Float) : Float :=
  (mean (samples.map fun d => (d - mean samples) * (d - mean samples))).sqrt

/-- There is a threshold as soon as there is a duration, and it is so many deviations above the
mean. -/
theorem map_threshold_ofSamples? (sigma : Float) (samples : List Float) :
    (DurationStats.ofSamples? samples).map (fun stats => stats.threshold sigma) =
      if samples.isEmpty then none else some (mean samples + sigma * deviation samples) := by
  unfold DurationStats.ofSamples?
  split
  · rfl
  · unfold deviation mean
    rw [List.length_map]
    rfl

namespace Branch

/-! ## Outliers -/

/-- The durations that a tree has on any of its branches, each branch before those below it. -/
def samples (b : Branch) : List Float := b.branches.filterMap fun c => c.details.bind (·.duration)

/-- The duration above which branches of a tree took long, if any of them has a duration. -/
def threshold? (sigma : Float) (b : Branch) : Option Float :=
  if b.samples.isEmpty then none else some (mean b.samples + sigma * deviation b.samples)

/-- Whether a branch has details with a duration that is above the threshold. -/
def IsOutlier (threshold? : Option Float) (c : Branch) : Prop :=
  ∃ threshold ∈ threshold?, ∃ d ∈ c.details, ∃ duration ∈ d.duration, threshold < duration

instance (threshold? : Option Float) : DecidablePred (IsOutlier threshold?) := fun c =>
  inferInstanceAs (Decidable (∃ threshold ∈ threshold?, ∃ d ∈ c.details, ∃ duration ∈ d.duration,
    threshold < duration))

theorem isAbove_iff {threshold : Float} {c : Branch} :
    isAbove threshold c.details = true ↔ IsOutlier (some threshold) c := by
  unfold isAbove IsOutlier
  cases c.details with
  | none => simp
  | some d => cases h : d.duration <;> simp [h]

theorem not_isOutlier_none (c : Branch) : ¬IsOutlier none c := nofun

/-- Every duration is found among the requests. -/
theorem durations_eq_samples (b : Branch) : b.durations = b.samples := by
  unfold durations requests samples
  rw [List.filterMap_filter]
  refine List.filterMap_congr fun c _ => ?_
  cases c.details <;> rfl

/-! ## Trees that differ in their tags -/

/-- Whether the second tree is the first one with another tag on certain branches and nothing else
changed: keys, names, metrics, details and the order of children are the same. -/
inductive Retags (tag : Tag) (marked : Branch → Prop) : Branch → Branch → Prop
  | step {b : Branch} {tags : TagSet} {children : List Branch}
    (contains : ∀ t, tags.contains t = true ↔
      b.metrics.tags.contains t = true ∨ t = tag ∧ marked b)
    (below : List.Forall₂ (Retags tag marked) b.children children) :
    Retags tag marked b { b with metrics := { b.metrics with tags }, children }

/-- Where no branch is marked, nothing changes. -/
theorem Retags.refl {tag : Tag} {marked : Branch → Prop} (unmarked : ∀ c, ¬marked c)
    (b : Branch) : Retags tag marked b b := by
  induction b using Branch.induction with
  | step b ih =>
    have below : List.Forall₂ (Retags tag marked) b.children b.children :=
      List.forall₂_same.2 ih
    have contains (t : Tag) : b.metrics.tags.contains t = true ↔
        b.metrics.tags.contains t = true ∨ t = tag ∧ marked b :=
      (or_iff_left fun h => unmarked b h.2).symm
    obtain ⟨key, level, name, metrics, details, children⟩ := b
    exact .step contains below

theorem retags_tagAbove (threshold : Float) (b : Branch) :
    Retags .longDuration (IsOutlier (some threshold)) b (b.tagAbove threshold) := by
  induction b using Branch.induction with
  | step b ih =>
    have below : List.Forall₂ (Retags .longDuration (IsOutlier (some threshold))) b.children
        (b.children.map (tagAbove threshold)) :=
      List.forall₂_map_right_iff.2 (List.forall₂_same.2 ih)
    rw [tagAbove_eq]
    refine .step (fun t => ?_) below
    rw [TagSet.contains_insertIf, isAbove_iff]

/-! ## Tagging twice -/

theorem tagAbove_tagAbove (threshold : Float) (b : Branch) :
    (b.tagAbove threshold).tagAbove threshold = b.tagAbove threshold := by
  induction b using Branch.induction with
  | step b ih =>
    have below : (b.children.map (tagAbove threshold)).map (tagAbove threshold) =
        b.children.map (tagAbove threshold) := by
      rw [List.map_map]
      exact List.map_congr_left ih
    rw [tagAbove_eq threshold b, tagAbove_eq]
    simp only [below, TagSet.insertIf_insertIf]

theorem samples_tagAbove (threshold : Float) (b : Branch) :
    (b.tagAbove threshold).samples = b.samples := by
  unfold samples
  rw [(keeps_tagAbove threshold).branches, List.filterMap_map]
  simp only [Function.comp_def, (keeps_tagAbove threshold).details]

theorem countP_requests (threshold : Float) (b : Branch) :
    (b.requests.countP fun c => isAbove threshold c.details) =
      b.branches.countP fun c => decide (IsOutlier (some threshold) c) := by
  unfold requests
  rw [List.countP_filter]
  refine List.countP_congr fun c _ => ?_
  rw [decide_eq_true_iff, ← isAbove_iff]
  cases c.details <;> simp [isAbove]

/-- Outliers are tagged, and counted, if there is a threshold. -/
theorem tagLongDurations_eq (sigma : Float) (b : Branch) : b.tagLongDurations sigma =
    ((b.threshold? sigma).elim b b.tagAbove,
      b.branches.countP fun c => decide (IsOutlier (b.threshold? sigma) c)) := by
  unfold tagLongDurations threshold?
  rw [durations_eq_samples, ← map_threshold_ofSamples?]
  cases DurationStats.ofSamples? b.samples with
  | none => simp [not_isOutlier_none]
  | some stats => exact congrArg (Prod.mk _) (countP_requests _ b)

/-- **Exactly the outliers are tagged.** The threshold is so many deviations above the mean of the
durations that are present, in the order of the branches. The tree afterwards is the one before,
with the tag for long durations on every branch whose details have a duration above the threshold;
nothing else changes, and the number is that of these branches. Without any duration nothing is
tagged at all, and a second time tagging changes nothing and gives the same number. -/
theorem tagLongDurations_retags (sigma : Float) (b : Branch) :
    (b.samples ≠ [] →
        b.threshold? sigma = some (mean b.samples + sigma * deviation b.samples)) ∧
      Retags .longDuration (IsOutlier (b.threshold? sigma)) b (b.tagLongDurations sigma).1 ∧
      (b.tagLongDurations sigma).2 =
        b.branches.countP (fun c => decide (IsOutlier (b.threshold? sigma) c)) ∧
      (b.samples = [] → b.tagLongDurations sigma = (b, 0)) ∧
      (b.tagLongDurations sigma).1.tagLongDurations sigma = b.tagLongDurations sigma := by
  rw [tagLongDurations_eq]
  refine ⟨fun present => ?_, ?_, rfl, fun empty => ?_, ?_⟩
  · rw [threshold?, if_neg fun empty => present (List.isEmpty_iff.1 empty)]
  · cases b.threshold? sigma with
    | none => exact .refl not_isOutlier_none b
    | some threshold => exact retags_tagAbove threshold b
  · have absent : b.threshold? sigma = none := by
      rw [threshold?, empty]
      rfl
    simp [absent, not_isOutlier_none]
  · cases h : b.threshold? sigma with
    | none =>
      rw [Option.elim, tagLongDurations_eq, h]
      rfl
    | some threshold =>
      have same : (b.tagAbove threshold).threshold? sigma = some threshold := by
        rw [← h, threshold?, samples_tagAbove, threshold?]
      rw [Option.elim, tagLongDurations_eq, same, Option.elim, tagAbove_tagAbove,
        (keeps_tagAbove threshold).branches, List.countP_map]
      refine congrArg (Prod.mk _) (List.countP_congr fun c _ => ?_)
      simp only [Function.comp_def, decide_eq_true_iff, ← isAbove_iff,
        (keeps_tagAbove threshold).details]

end Branch

end DashCalc.Hierarchy
