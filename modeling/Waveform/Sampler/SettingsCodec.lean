import Waveform.Json.Number
import Waveform.Json.Record
import Waveform.Json.Writer
import Waveform.Sampler.Settings

/-!
# Stored settings

Settings are stored as a record with a field for each of them, under its name and in
the order of `Setting.all`. A field that is missing leaves its setting at the default.
Loading also checks that the settings can be used.
-/

set_option autoImplicit false

namespace Waveform

/-- All settings in the order in which they are stored. -/
def Setting.all : List Setting :=
  [.searchMin, .searchMax, .searchSteps, .closedFormSteps, .threshold, .narrowSpan,
    .narrowPadding, .paddingRatio, .closedFormMinPadding, .closedFormPaddingRatio,
    .defaultDomain, .closedFormDefaultDomain, .areaDigits, .maxDepth, .maxNodes]

/-- Every setting is stored. -/
theorem Setting.mem_all (setting : Setting) : setting ∈ Setting.all := by
  cases setting <;> decide

/-- A stretch of the axis as an array of its ends. -/
def Interval.toJson (interval : Interval) : Json :=
  .array [.ofFloat interval.lower, .ofFloat interval.upper]

/-- The stretch of the axis that an array of two numbers stands for. -/
def Interval.ofJson? : Json → Option Interval
  | .array [lower, upper] => return ⟨← lower.float?, ← upper.float?⟩
  | _ => none

namespace Settings

/-- The value of a setting as it is stored. -/
def stored (settings : Settings) : Setting → Json
  | .searchMin => .ofFloat settings.search.lower
  | .searchMax => .ofFloat settings.search.upper
  | .searchSteps => .ofNat settings.searchSteps.toNat
  | .closedFormSteps => .ofNat settings.closedFormSteps.toNat
  | .threshold => .ofFloat settings.threshold
  | .narrowSpan => .ofFloat settings.narrowSpan
  | .narrowPadding => .ofFloat settings.narrowPadding
  | .paddingRatio => .ofFloat settings.paddingRatio
  | .closedFormMinPadding => .ofFloat settings.closedFormMinPadding
  | .closedFormPaddingRatio => .ofFloat settings.closedFormPaddingRatio
  | .defaultDomain => settings.defaultDomain.toJson
  | .closedFormDefaultDomain => settings.closedFormDefaultDomain.toJson
  | .areaDigits => .ofNat settings.areaDigits.toNat
  | .maxDepth => .ofNat settings.maxDepth.toNat
  | .maxNodes => .ofNat settings.maxNodes.toNat

/-- The word of 64 bits that a value stands for. -/
def word? (value : Json) : Option UInt64 :=
  (value.natBelow? UInt64.size).map UInt64.ofNat

/-- The settings with one of them taken from a stored value. -/
def restore? (settings : Settings) (setting : Setting) (value : Json) : Option Settings :=
  match setting with
  | .searchMin => value.float?.map fun lower =>
    { settings with search := { settings.search with lower } }
  | .searchMax => value.float?.map fun upper =>
    { settings with search := { settings.search with upper } }
  | .searchSteps => (word? value).map fun searchSteps => { settings with searchSteps }
  | .closedFormSteps => (word? value).map fun closedFormSteps => { settings with closedFormSteps }
  | .threshold => value.float?.map fun threshold => { settings with threshold }
  | .narrowSpan => value.float?.map fun narrowSpan => { settings with narrowSpan }
  | .narrowPadding => value.float?.map fun narrowPadding => { settings with narrowPadding }
  | .paddingRatio => value.float?.map fun paddingRatio => { settings with paddingRatio }
  | .closedFormMinPadding => value.float?.map fun closedFormMinPadding =>
    { settings with closedFormMinPadding }
  | .closedFormPaddingRatio => value.float?.map fun closedFormPaddingRatio =>
    { settings with closedFormPaddingRatio }
  | .defaultDomain => (Interval.ofJson? value).map fun defaultDomain =>
    { settings with defaultDomain }
  | .closedFormDefaultDomain => (Interval.ofJson? value).map fun closedFormDefaultDomain =>
    { settings with closedFormDefaultDomain }
  | .areaDigits => (value.natBelow? UInt32.size).map fun digits =>
    { settings with areaDigits := UInt32.ofNat digits }
  | .maxDepth => (word? value).map fun maxDepth => { settings with maxDepth }
  | .maxNodes => (word? value).map fun maxNodes => { settings with maxNodes }

/-- Settings as a JSON object. -/
def toJson (settings : Settings) : Json :=
  .ofMembers (Setting.all.map fun setting => (setting.name, settings.stored setting))

/-- The settings with those taken from stored values that are there. -/
def restoreAll? (settings : Settings) : List (Setting × Option Json) → Option Settings
  | [] => some settings
  | (_, none) :: rest => restoreAll? settings rest
  | (setting, some value) :: rest => do restoreAll? (← settings.restore? setting value) rest

/-- The settings that a value stands for. -/
def ofJson? (value : Json) : Option Settings := do
  restoreAll? {} (Setting.all.zip (← value.fields? (Setting.all.map Setting.name)))

end Settings

/-- Why stored settings cannot be loaded. -/
inductive LoadError where
  /-- The text does not stand for settings. -/
  | malformed
  /-- The settings cannot be used. -/
  | unusable (error : SettingsError)

/-- The settings that a text stands for, if they can be used. -/
def Settings.load (text : String) : Except LoadError Settings :=
  match (Json.ofText? text).bind Settings.ofJson? with
  | none => .error .malformed
  | some settings =>
    match settings.check with
    | .error error => .error (.unusable error)
    | .ok () => .ok settings

end Waveform
