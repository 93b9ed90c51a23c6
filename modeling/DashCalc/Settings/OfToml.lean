import DashCalc.Settings.Basic
import DashCalc.Toml.Reader

/-!
# Settings from TOML

Every setting may be missing, and unknown ones are ignored. A group of settings may also be given as
an array, by position.
-/

namespace DashCalc

namespace Toml.Value

/-- A natural number of at most that many bits. -/
def natBits? (bits : Nat) : Value → Option Nat
  | int n => if 0 ≤ n && n < Nat.pow 2 bits then some n.toNat else none
  | _ => none

/-- A double; integers of at most 64 bits are rounded. -/
def float? : Value → Option Float
  | int n =>
    if -n ≤ Nat.pow 2 63 && n < Nat.pow 2 64 then some (Decimal.floatOfInt n) else none
  | float x => some x
  | _ => none

def bool? : Value → Option Bool
  | bool b => some b
  | _ => none

def text? : Value → Option String
  | str s => some s
  | _ => none

/-- Whether there is nothing in a list or a table. -/
def isEmpty : Value → Bool
  | arr [] => true
  | table [] => true
  | _ => false

/-- The name of one of several alternatives: the name itself, or a table with nothing under that
name. -/
def alternative? : Value → Option String
  | str name => some name
  | table [(name, v)] => if v.isEmpty then some name else none
  | _ => none

/-- The fields of a group that an array may stand for: its items are matched with the names in
order. -/
def record? (names : List String) : Value → Option Table
  | table fields => some fields
  | arr items => some (names.zip items)
  | moment => some []
  | _ => none

/-- The decoded field, or a default if it is missing. -/
def fieldOr {α : Type} (default : α) (decode : Value → Option α) (name : String)
    (fields : Table) : Option α :=
  match fields.lookup name with
  | some v => decode v
  | none => some default

end Toml.Value

namespace Settings

open Toml.Value

def Analysis.ofToml? (v : Toml.Value) : Option Analysis := do
  let fields ← v.record?
    ["high_cost_threshold", "high_cost_request_limit", "long_duration_sigma", "dependency_mode"]
  let base : Analysis := {}
  some {
    highCostThreshold := ← fieldOr base.highCostThreshold (natBits? 64) "high_cost_threshold" fields
    highCostRequestLimit :=
      ← fieldOr base.highCostRequestLimit (natBits? 32) "high_cost_request_limit" fields
    longDurationSigma := ← fieldOr base.longDurationSigma float? "long_duration_sigma" fields
    dependencyMode :=
      ← fieldOr base.dependencyMode (fun v => v.alternative?.bind Cost.Mode.ofName?)
        "dependency_mode" fields }

def Docs.ofToml? (v : Toml.Value) : Option Docs := do
  let fields ← v.record? ["enabled", "base_url"]
  let base : Docs := {}
  some {
    enabled := ← fieldOr base.enabled bool? "enabled" fields
    baseUrl := ← fieldOr base.baseUrl text? "base_url" fields }

/-- Reads all settings. -/
def ofTable? (fields : Toml.Table) : Option Settings := do
  some {
    analysis := ← fieldOr {} Analysis.ofToml? "analysis" fields
    docs := ← fieldOr {} Docs.ofToml? "docs" fields }

/-- Why there are no settings in a file. -/
inductive FileFault
  /-- The file is not encoded in UTF-8. -/
  | notText
  /-- It is not TOML, or a setting is of the wrong kind. -/
  | malformed
  | invalid (fault : Fault)

/-- The settings in a file of these bytes. -/
def ofFile (bytes : ByteArray) : Except FileFault Settings :=
  match String.fromUTF8? bytes with
  | none => .error .notText
  | some text =>
    match (Toml.parse text).bind ofTable? with
    | none => .error .malformed
    | some settings =>
      match settings.fault? with
      | some fault => .error (.invalid fault)
      | none => .ok settings

end Settings

end DashCalc
