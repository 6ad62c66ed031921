import Waveform.Json.Number
import Waveform.Json.Record
import Waveform.Json.Writer
import Waveform.Sampler.Plot

/-!
# Plots in JSON

A plot is a record of its samples, the two ends of its window and its area, and a
sample a record of its coordinates.
-/

set_option autoImplicit false

namespace Waveform

namespace Point

/-- The names of the fields of a sample. -/
def fieldNames : List String := ["x", "y"]

/-- A sample as a JSON object. -/
def toJson (point : Point) : Json :=
  .ofMembers [("x", .ofFloat point.x), ("y", .ofFloat point.y)]

/-- The sample that a value stands for. -/
def ofJson? (value : Json) : Option Point := do
  match ← value.fields? fieldNames with
  | [some x, some y] => return { x := ← x.float?, y := ← y.float? }
  | _ => none

end Point

namespace Plot

/-- The names of the fields of a plot. -/
def fieldNames : List String := ["points", "domain_min", "domain_max", "area"]

/-- A plot as a JSON object. -/
def toJson (plot : Plot) : Json :=
  .ofMembers
    [("points", .array (plot.points.map Point.toJson)),
      ("domain_min", .ofFloat plot.domain.lower), ("domain_max", .ofFloat plot.domain.upper),
      ("area", .ofFloat plot.area)]

/-- The plot that a value stands for. -/
def ofJson? (value : Json) : Option Plot := do
  match ← value.fields? fieldNames with
  | [some points, some lower, some upper, some area] =>
    return {
      points := ← (← points.items?).mapM Point.ofJson?
      domain := ⟨← lower.float?, ← upper.float?⟩
      area := ← area.float? }
  | _ => none

/-- The plot that a text stands for. -/
def ofText? (text : String) : Option Plot := do
  ofJson? (← Json.ofText? text)

end Plot

end Waveform
