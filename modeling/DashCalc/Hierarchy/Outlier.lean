import DashCalc.Hierarchy.Basic

/-!
# Requests that took unusually long

A request took long if its duration is above the mean of all durations by more than a given number
of standard deviations. Requests that never ended have no duration and play no part.
-/

namespace DashCalc.Hierarchy

/-- Mean and standard deviation of durations. -/
structure DurationStats where
  mean : Float
  deviation : Float

namespace DurationStats

/-- The sum from left to right, starting from negative zero. -/
def total (samples : List Float) : Float := samples.foldl (· + ·) (-0.0)

/-- The statistics of some durations, if there are any. -/
def ofSamples? (samples : List Float) : Option DurationStats :=
  if samples.isEmpty then none
  else
    let count := samples.length.toFloat
    let mean := total samples / count
    let variance := total (samples.map fun d => (d - mean) * (d - mean)) / count
    some ⟨mean, variance.sqrt⟩

/-- The duration above which a request took long. -/
def threshold (s : DurationStats) (sigma : Float) : Float := s.mean + sigma * s.deviation

end DurationStats

namespace Branch

/-- The durations of all requests that ended. -/
def durations (b : Branch) : List Float :=
  b.requests.filterMap fun c => c.details.bind Details.duration

/-- Whether the branch has details whose duration is above the threshold. -/
def isAbove (threshold : Float) (details : Option Details) : Bool :=
  (details.bind Details.duration).any fun d => decide (threshold < d)

mutual

/-- Tags what took longer than the threshold. -/
def tagAbove (threshold : Float) : Branch → Branch
  | ⟨key, level, name, metrics, details, children⟩ =>
    let tags := metrics.tags.insertIf (isAbove threshold details) .longDuration
    ⟨key, level, name, { metrics with tags }, details, tagAllAbove threshold children⟩

def tagAllAbove (threshold : Float) : List Branch → List Branch
  | [] => []
  | b :: rest => tagAbove threshold b :: tagAllAbove threshold rest

end

/-- Tags the requests that took long, and gives their number. -/
def tagLongDurations (sigma : Float) (b : Branch) : Branch × Nat :=
  match DurationStats.ofSamples? b.durations with
  | none => (b, 0)
  | some stats =>
    let threshold := stats.threshold sigma
    (b.tagAbove threshold, b.requests.countP fun c => isAbove threshold c.details)

end Branch

end DashCalc.Hierarchy
