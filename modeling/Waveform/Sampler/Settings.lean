import Waveform.Decimal.Layout

/-!
# Settings of a sampler

The settings say where a signal is searched, how finely it is sampled, what counts as
nothing, how the window around a signal is padded, and how far formulas are read.
Any values can be stored; `Settings.check` tells which is the first that cannot be
used. Words bound the numbers of steps and levels, as they do in stored settings.
-/

set_option autoImplicit false

namespace Waveform

/-- A stretch of the axis. -/
structure Interval where
  lower : Float
  upper : Float

/-- One of the settings. -/
inductive Setting where
  | searchMin
  | searchMax
  | searchSteps
  | closedFormSteps
  | threshold
  | narrowSpan
  | narrowPadding
  | paddingRatio
  | closedFormMinPadding
  | closedFormPaddingRatio
  | defaultDomain
  | closedFormDefaultDomain
  | areaDigits
  | maxDepth
  | maxNodes
  deriving DecidableEq, Repr

/-- The name of a setting in stored settings and in messages. -/
def Setting.name : Setting → String
  | .searchMin => "search_min"
  | .searchMax => "search_max"
  | .searchSteps => "search_steps"
  | .closedFormSteps => "closed_form_steps"
  | .threshold => "threshold"
  | .narrowSpan => "narrow_span"
  | .narrowPadding => "narrow_padding"
  | .paddingRatio => "padding_ratio"
  | .closedFormMinPadding => "closed_form_min_padding"
  | .closedFormPaddingRatio => "closed_form_padding_ratio"
  | .defaultDomain => "default_domain"
  | .closedFormDefaultDomain => "closed_form_default_domain"
  | .areaDigits => "area_digits"
  | .maxDepth => "max_depth"
  | .maxNodes => "max_nodes"

/-- All settings of a sampler, with their defaults. -/
structure Settings where
  /-- Where a general formula is searched for its signal. -/
  search : Interval := ⟨-100, 100⟩
  /-- The number of grid steps over the search range. -/
  searchSteps : UInt64 := 8000
  /-- The number of grid steps over the window of a sum of pulses. -/
  closedFormSteps : UInt64 := 4000
  /-- Magnitudes up to this count as nothing. -/
  threshold : Float := 1e-4
  /-- Signals narrower than this get the fixed padding. -/
  narrowSpan : Float := 1
  /-- The padding of narrow signals. -/
  narrowPadding : Float := 5
  /-- The padding of all others, in relation to their width. -/
  paddingRatio : Float := 0.15
  /-- The least padding of a sum of pulses. -/
  closedFormMinPadding : Float := 10
  /-- The padding of a sum of pulses in relation to its width. -/
  closedFormPaddingRatio : Float := 0.2
  /-- The window where a general formula has no signal. -/
  defaultDomain : Interval := ⟨-10, 10⟩
  /-- The window where there are no pulses. -/
  closedFormDefaultDomain : Interval := ⟨-30, 30⟩
  /-- The decimal places of an area. -/
  areaDigits : UInt32 := 2
  /-- How deeply formulas may be nested. -/
  maxDepth : UInt64 := 100
  /-- How many nodes a formula may have. -/
  maxNodes : UInt64 := 10000

/-- The greatest number of grid steps. -/
def maxSteps : Nat := 10000000

/-- Why settings cannot be used. -/
inductive SettingsError where
  /-- Bounds that are not finite or in the wrong order. -/
  | invalidRange (range : Interval)
  /-- A grid without a step. -/
  | zeroSteps (setting : Setting)
  /-- A grid with more steps than allowed. -/
  | tooManySteps (setting : Setting) (limit : Nat)
  /-- A number that is not finite or below zero. -/
  | invalidValue (setting : Setting) (value : Float)

/-- The error in words. -/
def SettingsError.message : SettingsError → String
  | .invalidRange range =>
    "Invalid range [" ++ Decimal.plainText range.lower ++ ", " ++ Decimal.plainText range.upper ++
      "]: bounds must be finite and min < max"
  | .zeroSteps setting => "'" ++ setting.name ++ "' must be at least 1"
  | .tooManySteps setting limit => "'" ++ setting.name ++ "' must be at most " ++ toString limit
  | .invalidValue setting value =>
    "Invalid value " ++ Decimal.plainText value ++ " for '" ++ setting.name ++ "'"

namespace Settings

/-- A search range has finite bounds, the lower below the upper one. -/
def checkSearch (range : Interval) : Except SettingsError Unit :=
  if range.lower.isFinite && range.upper.isFinite && range.lower < range.upper then .ok ()
  else .error (.invalidRange range)

/-- A window has finite bounds, the lower not above the upper one. -/
def checkWindow (window : Interval) : Except SettingsError Unit :=
  if window.lower.isFinite && window.upper.isFinite && window.lower ≤ window.upper then .ok ()
  else .error (.invalidRange window)

/-- A grid has between one and `maxSteps` steps. -/
def checkSteps (setting : Setting) (steps : UInt64) : Except SettingsError Unit :=
  if steps.toNat = 0 then .error (.zeroSteps setting)
  else if maxSteps < steps.toNat then .error (.tooManySteps setting maxSteps)
  else .ok ()

/-- A threshold, a width and a padding are finite and not below zero. -/
def checkAmount (setting : Setting) (value : Float) : Except SettingsError Unit :=
  if value.isFinite && 0 ≤ value then .ok () else .error (.invalidValue setting value)

/-- Whether the settings can be used, with the first reason why not. -/
def check (settings : Settings) : Except SettingsError Unit := do
  checkSearch settings.search
  checkWindow settings.defaultDomain
  checkWindow settings.closedFormDefaultDomain
  checkSteps .searchSteps settings.searchSteps
  checkSteps .closedFormSteps settings.closedFormSteps
  checkAmount .threshold settings.threshold
  checkAmount .narrowSpan settings.narrowSpan
  checkAmount .narrowPadding settings.narrowPadding
  checkAmount .paddingRatio settings.paddingRatio
  checkAmount .closedFormMinPadding settings.closedFormMinPadding
  checkAmount .closedFormPaddingRatio settings.closedFormPaddingRatio

end Settings

end Waveform
