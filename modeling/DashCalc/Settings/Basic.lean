import DashCalc.Catalog.Docs
import DashCalc.Cost.Report
import DashCalc.Decimal.Written

/-!
# Settings

How requests are judged, and where functions are documented. `Settings.fault?` finds the first
value that the analysis cannot work with.
-/

namespace DashCalc

namespace Settings

/-- How requests are analysed and judged. -/
structure Analysis where
  /-- The highest cost that is not too high. -/
  highCostThreshold : Nat := 150
  /-- The largest number of costly requests that is not too many. -/
  highCostRequestLimit : Nat := 2
  /-- How many standard deviations above the mean a duration is too long. -/
  longDurationSigma : Float := 3.0
  dependencyMode : Cost.Mode := .exhaustive

/-- Where functions are documented. -/
structure Docs where
  /-- Whether functions are linked at all. -/
  enabled : Bool := true
  baseUrl : String := Catalog.defaultDocsBase
  deriving DecidableEq

def Docs.links (d : Docs) : Catalog.DocLinks := if d.enabled then .rootedAt d.baseUrl else .off

end Settings

/-- All settings. -/
structure Settings where
  analysis : Settings.Analysis := {}
  docs : Settings.Docs := {}

namespace Settings

/-- A value that the analysis cannot work with. -/
inductive Fault
  /-- The number of standard deviations is negative, infinite or no number. -/
  | sigma (value : Float)
  /-- Functions are to be linked, but there is no address. -/
  | noBaseUrl

def Fault.message : Fault → String
  | sigma value =>
    "Invalid configuration: analysis.long_duration_sigma must be a non-negative number, got " ++
      String.ofList (Decimal.plain.write value)
  | noBaseUrl => "Invalid configuration: docs.base_url must not be empty when docs are enabled"

/-- The first fault. -/
def fault? (s : Settings) : Option Fault :=
  let sigma := s.analysis.longDurationSigma
  if !sigma.isFinite || decide (sigma < 0.0) then some (.sigma sigma)
  else if s.docs.enabled && Text.isBlankText s.docs.baseUrl.toList then some .noBaseUrl
  else none

end Settings

end DashCalc
