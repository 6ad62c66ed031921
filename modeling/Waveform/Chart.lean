import Waveform.Sampler.PlotCodec

/-!
# Charts

A chart says how a plot is to be drawn: one line with a legend, and two axes with their
titles. The window of the plot bounds the horizontal axis; the vertical one is left to
whoever draws it.
-/

set_option autoImplicit false

namespace Waveform

/-- An axis of a chart, with the bounds that are fixed. -/
structure Axis where
  lower : Option Float
  upper : Option Float
  title : String

/-- A line with its legend and its axes. -/
structure Chart where
  label : String
  xAxis : Axis
  yAxis : Axis
  points : List Point

/-- The chart of a plot. -/
def Chart.ofPlot (plot : Plot) : Chart :=
  { label := plot.label
    xAxis := { lower := some plot.domain.lower, upper := some plot.domain.upper, title := "f" }
    yAxis := { lower := none, upper := none, title := "Amplitude" }
    points := plot.points }

/-- An axis as a JSON object, in which bounds that are not fixed are left out. -/
def Axis.toJson (axis : Axis) : Json :=
  let bound (name : String) (value : Option Float) : List (String × Json) :=
    value.toList.map fun value => (name, .ofFloat value)
  .ofMembers (bound "min" axis.lower ++ bound "max" axis.upper ++ [("title", .ofString axis.title)])

/-- A chart as a JSON object. -/
def Chart.toJson (chart : Chart) : Json :=
  .ofMembers
    [("label", .ofString chart.label), ("x_axis", chart.xAxis.toJson),
      ("y_axis", chart.yAxis.toJson), ("points", .array (chart.points.map Point.toJson))]

end Waveform
