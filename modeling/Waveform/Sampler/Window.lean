import Waveform.Pulse.Basic
import Waveform.Sampler.Grid

/-!
# Windows around a signal

The window of a plot shows the signal with some padding. The signal of a formula is
found among its samples: it reaches from the first to the last one whose magnitude is
above the threshold. The signal of a sum of pulses is known from their extents, and its
window always shows the origin.
-/

set_option autoImplicit false

namespace Waveform

/-- The lesser of two numbers, the first if they are equal; a NaN gives way to the other
number. -/
def lesser (a b : Float) : Float :=
  if a.isNaN then b else if b < a then b else a

/-- The greater of two numbers, the first if they are equal; a NaN gives way to the
other number. -/
def greater (a b : Float) : Float :=
  if a.isNaN then b else if a < b then b else a

namespace Settings

/-- Whether a value counts as nothing. -/
def isNegligible (settings : Settings) (y : Float) : Bool :=
  y.abs ≤ settings.threshold

/-- The padding of a signal by its width. -/
def padding (settings : Settings) (span : Float) : Float :=
  if span < settings.narrowSpan then settings.narrowPadding else span * settings.paddingRatio

/-- The window around the samples that count, or the default one if none does. -/
def detectDomain (settings : Settings) (points : List Point) : Interval :=
  match points.filter fun point => !settings.isNegligible point.y with
  | [] => settings.defaultDomain
  | first :: rest =>
    let last := rest.getLastD first
    let padding := settings.padding (last.x - first.x)
    ⟨first.x - padding, last.x + padding⟩

/-- The least interval with the origin and the extents of pulses. -/
def hull (pulses : List Pulse) : Interval :=
  pulses.foldl (fun hull pulse =>
    let (left, right) := pulse.extent
    ⟨lesser hull.lower left, greater hull.upper right⟩) ⟨0, 0⟩

/-- The padding of a sum of pulses by its width. -/
def closedFormPadding (settings : Settings) (span : Float) : Float :=
  greater (span * settings.closedFormPaddingRatio) settings.closedFormMinPadding

/-- The window around the pulses that have support, or the default one if none has. -/
def closedFormDomain (settings : Settings) (pulses : List Pulse) : Interval :=
  match pulses.filter Pulse.hasSupport with
  | [] => settings.closedFormDefaultDomain
  | supported =>
    let around := hull supported
    let padding := settings.closedFormPadding (around.upper - around.lower)
    ⟨around.lower - padding, around.upper + padding⟩

end Settings

end Waveform
