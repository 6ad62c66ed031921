import Waveform.Decimal.Layout
import Waveform.Sampler.Grid

/-!
# Plots

A plot is what a chart needs of a signal: its samples, the window to show, and the
area between the curve and the axis.
-/

set_option autoImplicit false

namespace Waveform

/-- The samples of a signal with the window to show and the rounded area. -/
structure Plot where
  points : List Point
  domain : Interval
  area : Float

namespace Plot

/-- The plot without samples. -/
def empty (domain : Interval) : Plot :=
  { points := [], domain, area := 0 }

/-- The legend of a plot. -/
def label (plot : Plot) : String :=
  "S(f) [Area: " ++ Decimal.plainText plot.area ++ "]"

end Plot

end Waveform
