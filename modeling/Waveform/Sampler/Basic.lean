import Waveform.Event
import Waveform.Formula.Parsed
import Waveform.Pulse.ClosedForm
import Waveform.Rounding
import Waveform.Sampler.Plot
import Waveform.Sampler.Window

/-!
# Samplers

A sampler turns formulas into plots. A general formula is sampled over the search
range, and its window is cut down to where the signal is. A sum of pulses is sampled
over its window, which is known beforehand.

There is always a plot. A blank formula, one whose reading is abandoned, and settings
that cannot be used give the plot without samples on a default window; the log says
which of the last two it was, and is empty for the first.
-/

set_option autoImplicit false

namespace Waveform

/-- What turns formulas into plots. -/
structure Sampler where
  settings : Settings := {}

namespace Sampler

/-- The sampler with the given settings, if they can be used. -/
def ofSettings (settings : Settings) : Except SettingsError Sampler := do
  settings.check
  return { settings }

/-- The sampler with another search range. -/
def withSearch (sampler : Sampler) (search : Interval) : Sampler :=
  { settings := { sampler.settings with search } }

/-- The sampler with another number of steps over the search range. -/
def withSearchSteps (sampler : Sampler) (searchSteps : UInt64) : Sampler :=
  { settings := { sampler.settings with searchSteps } }

/-- The sampler with another number of steps over the window of a sum of pulses. -/
def withClosedFormSteps (sampler : Sampler) (closedFormSteps : UInt64) : Sampler :=
  { settings := { sampler.settings with closedFormSteps } }

/-- The sampler with another threshold. -/
def withThreshold (sampler : Sampler) (threshold : Float) : Sampler :=
  { settings := { sampler.settings with threshold } }

/-- The sampler with another nesting limit. -/
def withMaxDepth (sampler : Sampler) (maxDepth : UInt64) : Sampler :=
  { settings := { sampler.settings with maxDepth } }

/-- The sampler with another limit on nodes. -/
def withMaxNodes (sampler : Sampler) (maxNodes : UInt64) : Sampler :=
  { settings := { sampler.settings with maxNodes } }

/-- The limits for formulas. -/
def limits (sampler : Sampler) : Formula.Limits :=
  { depth := sampler.settings.maxDepth.toNat, nodes := sampler.settings.maxNodes.toNat }

/-- The area under samples, rounded as the settings say. -/
def area (sampler : Sampler) (samples : Samples) : Float :=
  roundTo (trapezoidArea samples.points samples.step) sampler.settings.areaDigits

/-- The plot of a signal. -/
def sample (sampler : Sampler) (signal : Float → Float) : Logged Plot :=
  let settings := sampler.settings
  match settings.check with
  | .error error => do
    .emit (.unusable error)
    return .empty settings.defaultDomain
  | .ok () => do
    let samples := sampleGrid signal settings.search settings.searchSteps.toNat
    let area := sampler.area samples
    let domain := settings.detectDomain samples.points
    .emit (.sampled samples.points.length domain area)
    return { points := samples.points, domain, area }

/-- The plot of a sum of pulses. -/
def samplePulses (sampler : Sampler) (pulses : List Pulse) : Logged Plot :=
  let settings := sampler.settings
  match settings.check with
  | .error error => do
    .emit (.unusable error)
    return .empty settings.closedFormDefaultDomain
  | .ok () =>
    let domain := settings.closedFormDomain pulses
    let samples := sampleGrid (Pulse.sumAt pulses) domain settings.closedFormSteps.toNat
    return { points := samples.points, domain, area := sampler.area samples }

end Sampler

/-- The event of a formula that was read. -/
def Parsed.event (parsed : Parsed) : Event :=
  .parsed parsed.normalized parsed.expr.nodeCount parsed.diagnostics.length

/-- The events of a formula that was read as a sum of pulses. -/
def ClosedForm.events (form : ClosedForm) : List Event :=
  form.diagnostics.map .dropped ++
    [.closedForm form.normalized form.pulses.length form.diagnostics.length]

namespace Sampler

/-- The plot of a formula. -/
def plot (sampler : Sampler) (formula : String) : Logged Plot :=
  if Text.isBlankText formula then pure (.empty sampler.settings.defaultDomain)
  else do
    let parsed := parse formula sampler.limits
    .emit parsed.event
    match parsed.fatal? with
    | some finding =>
      .emit (.unreadable formula finding)
      return .empty sampler.settings.defaultDomain
    | none =>
      .emitAll (parsed.diagnostics.map .noted)
      sampler.sample parsed.expr.eval

/-- The plot of a formula that is read as a sum of pulses. -/
def plotClosedForm (sampler : Sampler) (formula : String) : Logged Plot :=
  if Text.isBlankText formula then pure (.empty sampler.settings.closedFormDefaultDomain)
  else do
    let form := parseClosedForm formula
    .emitAll form.events
    sampler.samplePulses form.pulses

end Sampler

end Waveform
