import Waveform.Sampler.Settings

/-!
# Sampling on a grid

A signal is sampled at evenly spaced places. Samples that are no ordinary numbers are
left out, and the area under the others is taken as if they were next to each other.
-/

set_option autoImplicit false

namespace Waveform

/-- A sample. -/
structure Point where
  x : Float
  y : Float

/-- The samples of a signal that are finite, and the distance of the places. -/
structure Samples where
  points : List Point
  step : Float

/-- The distance between the places of a grid. -/
def gridStep (range : Interval) (steps : Nat) : Float :=
  (range.upper - range.lower) / Float.ofNat steps

/-- The place with the given index. -/
def gridPlace (range : Interval) (step : Float) (index : Nat) : Float :=
  range.lower + Float.ofNat index * step

/-- The sample at a place, if it is finite. -/
def sampleAt? (signal : Float → Float) (x : Float) : Option Point :=
  let y := signal x
  if y.isFinite then some ⟨x, y⟩ else none

/-- The finite samples at `steps + 1` evenly spaced places from the lower bound of the
range to the upper one. A grid without a step has no places. -/
def sampleGrid (signal : Float → Float) (range : Interval) (steps : Nat) : Samples :=
  if steps = 0 then { points := [], step := 0 }
  else
    let step := gridStep range steps
    { points := (List.range (steps + 1)).filterMap fun index =>
        sampleAt? signal (gridPlace range step index)
      step }

/-- The area between two neighbours, which are taken to be one step apart. -/
def gapArea (step : Float) (left right : Point) : Float :=
  step * (left.y.abs + right.y.abs) / 2

/-- The area under the magnitudes of samples by the trapezoid rule. The sum starts from
the negative zero, and so is that zero where there are no two neighbours. -/
def trapezoidArea (points : List Point) (step : Float) : Float :=
  (points.zipWith (gapArea step) points.tail).foldl (· + ·) (-0.0)

end Waveform
