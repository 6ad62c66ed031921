import Waveform.Proofs.Json.Number
import Waveform.Proofs.Json.Record
import Waveform.Pulse.Codec
import Waveform.Sampler.PlotCodec

/-!
# Plots and pulses survive JSON

A plot and a list of pulses are decoded from their text if all their numbers are finite, and then as
they are, with every sign of a zero. With one number that is not finite, there is a `null` in the
text instead of it, and the text is not decoded at all: it never stands for other samples or pulses.
The reader of numbers is assumed to get the numbers from their digits.
-/

set_option autoImplicit false

namespace Waveform

open Json

/-! ## Plots -/

namespace Point

/-- The numbers of a sample. -/
def floats (point : Point) : List Float :=
  [point.x, point.y]

theorem isWritable_toJson (point : Point) : point.toJson.IsWritable := by
  refine isWritable_ofMembers fun member inside => ?_
  rcases List.mem_pair.mp inside with rfl | rfl <;> exact isWritable_ofFloat _

/-- A sample is decoded if it is finite. -/
theorem ofJson?_toJson {point : Point} (assumed : ∀ x ∈ point.floats, IsReadBack x) :
    Point.ofJson? point.toJson = if point.floats.all Float.isFinite then some point else none := by
  have x := assumed point.x (by simp [floats])
  have y := assumed point.y (by simp [floats])
  have once : fieldNames.Nodup := by decide
  have fields : point.toJson.fields? fieldNames =
    some [some (ofFloat point.x), some (ofFloat point.y)] := fields?_ofMembers_self once
  rw [ofJson?, fields]
  dsimp only [Option.bind_eq_bind, Option.bind_some]
  rw [x.float?_eq, y.float?_eq]
  simp only [floats, List.all_cons, List.all_nil]
  by_cases first : point.x.isFinite = true <;> by_cases second : point.y.isFinite = true <;>
    simp [first, second]

end Point

namespace Plot

/-- The numbers of a plot. -/
def floats (plot : Plot) : List Float :=
  plot.points.flatMap Point.floats ++ [plot.domain.lower, plot.domain.upper, plot.area]

theorem isWritable_toJson (plot : Plot) : plot.toJson.IsWritable := by
  refine isWritable_ofMembers fun member inside => ?_
  simp only [List.mem_cons, List.not_mem_nil, or_false] at inside
  rcases inside with rfl | rfl | rfl | rfl
  · refine .array fun item member => ?_
    obtain ⟨point, _, rfl⟩ := List.mem_map.mp member
    exact point.isWritable_toJson
  all_goals exact isWritable_ofFloat _

/-- A plot is decoded if all its numbers are finite. -/
theorem ofJson?_toJson {plot : Plot} (assumed : ∀ x ∈ plot.floats, IsReadBack x) :
    Plot.ofJson? plot.toJson = if plot.floats.all Float.isFinite then some plot else none := by
  have lower := assumed plot.domain.lower (by simp [floats])
  have upper := assumed plot.domain.upper (by simp [floats])
  have area := assumed plot.area (by simp [floats])
  have points : (plot.points.map Point.toJson).mapM Point.ofJson? =
      if plot.points.all (·.floats.all Float.isFinite) then some plot.points else none := by
    refine mapM_eq_ite fun point member => Point.ofJson?_toJson fun x inside => assumed x ?_
    exact List.mem_append_left _ (List.mem_flatMap.mpr ⟨point, member, inside⟩)
  have once : fieldNames.Nodup := by decide
  have fields : plot.toJson.fields? fieldNames =
    some [some (.array (plot.points.map Point.toJson)), some (ofFloat plot.domain.lower),
      some (ofFloat plot.domain.upper), some (ofFloat plot.area)] := fields?_ofMembers_self once
  rw [ofJson?, fields]
  dsimp only [Option.bind_eq_bind, Option.bind_some, items?]
  rw [points, lower.float?_eq, upper.float?_eq, area.float?_eq]
  simp only [floats, List.all_append, List.all_flatMap, List.all_cons, List.all_nil]
  cases plot.points.all fun point => point.floats.all Float.isFinite <;>
    cases plot.domain.lower.isFinite <;> cases plot.domain.upper.isFinite <;>
    cases plot.area.isFinite <;> rfl

end Plot

/-! ## Pulses -/

theorem Shape.ofJson?_name (shape : Shape) : Shape.ofJson? (.ofString shape.name) = some shape := by
  cases shape <;> decide

namespace Pulse

/-- The numbers of a pulse. -/
def floats (pulse : Pulse) : List Float :=
  [pulse.amplitude, pulse.center, pulse.width]

theorem isWritable_toJson (pulse : Pulse) : pulse.toJson.IsWritable := by
  refine isWritable_ofMembers fun member inside => ?_
  simp only [List.mem_cons, List.not_mem_nil, or_false] at inside
  rcases inside with rfl | rfl | rfl | rfl
  case inr.inl => exact .string _
  all_goals exact isWritable_ofFloat _

/-- A pulse is decoded if all its numbers are finite. -/
theorem ofJson?_toJson {pulse : Pulse} (assumed : ∀ x ∈ pulse.floats, IsReadBack x) :
    Pulse.ofJson? pulse.toJson = if pulse.floats.all Float.isFinite then some pulse else none := by
  have amplitude := assumed pulse.amplitude (by simp [floats])
  have center := assumed pulse.center (by simp [floats])
  have width := assumed pulse.width (by simp [floats])
  have once : fieldNames.Nodup := by decide
  have fields : pulse.toJson.fields? fieldNames =
    some [some (ofFloat pulse.amplitude), some (.ofString pulse.shape.name),
      some (ofFloat pulse.center), some (ofFloat pulse.width)] := fields?_ofMembers_self once
  rw [ofJson?, fields]
  dsimp only [Option.bind_eq_bind, Option.bind_some]
  rw [amplitude.float?_eq, Shape.ofJson?_name, center.float?_eq, width.float?_eq]
  simp only [floats, List.all_cons, List.all_nil]
  by_cases first : pulse.amplitude.isFinite = true <;>
    by_cases second : pulse.center.isFinite = true <;>
    by_cases third : pulse.width.isFinite = true <;> simp [first, second, third]

theorem isWritable_listToJson (pulses : List Pulse) : (listToJson pulses).IsWritable := by
  refine .array fun item member => ?_
  obtain ⟨pulse, _, rfl⟩ := List.mem_map.mp member
  exact pulse.isWritable_toJson

end Pulse

/-- **Plots and pulses survive JSON.** The text of a plot is decoded as that plot if all its numbers
are finite, and not at all otherwise, and so is the text of a list of pulses. -/
theorem ofText?_compact_toJson (plot : Plot) (pulses : List Pulse)
    (assumed : ∀ x ∈ plot.floats, IsReadBack x)
    (assumed' : ∀ pulse ∈ pulses, ∀ x ∈ pulse.floats, IsReadBack x) :
    (Plot.ofText? plot.toJson.compact =
        if ∀ x ∈ plot.floats, x.isFinite = true then some plot else none) ∧
      Pulse.listOfText? (Pulse.listToJson pulses).compact =
        if ∀ pulse ∈ pulses, ∀ x ∈ pulse.floats, x.isFinite = true then some pulses else none := by
  constructor
  · rw [Plot.ofText?, ofText?_compact plot.isWritable_toJson]
    change Plot.ofJson? plot.toJson = _
    rw [Plot.ofJson?_toJson assumed]
    simp only [List.all_eq_true]
  · rw [Pulse.listOfText?, ofText?_compact (Pulse.isWritable_listToJson pulses)]
    change (pulses.map Pulse.toJson).mapM Pulse.ofJson? = _
    rw [mapM_eq_ite fun pulse member => Pulse.ofJson?_toJson (assumed' pulse member)]
    simp only [List.all_eq_true]

theorem ofText?_compact_toJson_extreme :
    let plot : Plot :=
      { points := [⟨-0.0, 0.1⟩, ⟨5e-324, -1e300⟩], domain := ⟨-0.0, 1⟩, area := 9999999999999998 }
    let pulses : List Pulse := [⟨2, .tri, -0.0, 4⟩, ⟨1 / 0, .rect, 0, 1⟩]
    Plot.ofText? plot.toJson.compact = some plot ∧
      Pulse.listOfText? (Pulse.listToJson pulses).compact = none := by
  intro plot pulses
  obtain ⟨first, second⟩ :=
    ofText?_compact_toJson plot pulses (by decide +kernel) (by decide +kernel)
  exact ⟨first.trans (if_pos (by decide +kernel)), second.trans (if_neg (by decide +kernel))⟩

end Waveform
