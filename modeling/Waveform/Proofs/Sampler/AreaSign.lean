import Waveform.Proofs.Float.Powers
import Waveform.Proofs.Sampler.Reachable

/-!
# When an area is a number from zero up

Two things can make the area of a plot a NaN. One is the scale of the rounding, a power of ten: with
more than 308 decimal places it is the infinity, and with a count that stands for less than -308 it
is zero, and then every rounded number is a NaN. The other is a step that is so small that it has
become zero: a gap between two samples whose heights add up to the infinity has no area then. In all
other cases the area is a number from zero up (`Sampler.plot_area_nonneg_iff`).
-/

set_option autoImplicit false

namespace Waveform

open Binary64 Float.Model Float.Model.UnpackedFloat

/-! ## Scales -/

/-- Whether rounding to decimal places has a scale: the count, read as a signed word, is the
exponent of a power of ten that is a positive number. -/
def HasScale (places : UInt32) : Prop :=
  places.toInt32.toInt.natAbs ≤ 308

instance (places : UInt32) : Decidable (HasScale places) :=
  inferInstanceAs (Decidable (_ ≤ _))

/-- What has no mantissa is not rounded. -/
theorem roundHalfAway_eq {x : Float} (none : ∀ sign mantissa exponent some,
    parts x ≠ .finite sign mantissa exponent some) : roundHalfAway x = x := by
  unfold roundHalfAway
  split
  · next sign mantissa exponent some same => exact absurd same (none sign mantissa exponent some)
  · rfl

/-- What is multiplied by the infinity or by zero has no mantissa any more, and divided by it again
is no number. -/
theorem mul_div_parts (u : UnpackedFloat) {scale : UnpackedFloat}
    (extreme : scale = .infinity .positive ∨ scale = .zero .positive) :
    let product := UnpackedFloat.mul .binary64 u scale
    Canonical product ∧ bounded product = product ∧
      (∀ sign mantissa exponent some, product ≠ .finite sign mantissa exponent some) ∧
      UnpackedFloat.div .binary64 product scale = .notANumber := by
  rcases extreme with rfl | rfl <;> cases u <;> exact ⟨trivial, rfl, fun _ _ _ _ => nofun, rfl⟩

section Rounding

variable {x : Float} {places : UInt32}

/-- Without a scale everything is rounded to a NaN. -/
theorem parts_roundTo_of_not_hasScale (none : ¬ HasScale places) :
    parts (roundTo x places) = .notANumber := by
  have extreme := parts_powerOfTen (not_le.mp none)
  unfold roundTo
  generalize powerOfTen places.toInt32.toInt = scale at extreme ⊢
  obtain ⟨canonical, same, whole, nan⟩ := mul_div_parts (parts x) extreme
  have product : parts (x * scale) = UnpackedFloat.mul .binary64 (parts x) (parts scale) :=
    (parts_ofParts canonical).trans same
  have quotient : x * scale / scale =
    ofParts (UnpackedFloat.div .binary64 (parts (x * scale)) (parts scale)) := rfl
  dsimp only
  rw [roundHalfAway_eq (product ▸ whole), quotient, product, nan]
  exact parts_ofParts trivial

theorem parts_roundTo_of_nan (nan : parts x = .notANumber) :
    parts (roundTo x places) = .notANumber := by
  unfold roundTo
  generalize powerOfTen places.toInt32.toInt = scale
  have product : parts (x * scale) = .notANumber := parts_mul_of_nan nan
  have whole : roundHalfAway (x * scale) = x * scale := by
    refine roundHalfAway_eq fun sign mantissa exponent some => ?_
    rw [product]
    nofun
  have quotient : x * scale / scale =
    ofParts (UnpackedFloat.div .binary64 (parts (x * scale)) (parts scale)) := rfl
  dsimp only
  rw [whole, quotient, product]
  exact parts_ofParts trivial

/-- No order holds of a NaN. -/
theorem not_zero_le_of_nan (nan : parts x = .notANumber) : ¬ 0 ≤ x := by
  intro nonneg
  have number : (parts x).isNaN = false := (isNaN_of_le nonneg).2
  rw [nan] at number
  cases number

/-- **A number from zero up is rounded to one exactly when there is a scale.** -/
theorem zero_le_roundTo_iff (nonneg : 0 ≤ x) : 0 ≤ roundTo x places ↔ HasScale places := by
  constructor
  · intro rounded
    by_contra none
    exact not_zero_le_of_nan (parts_roundTo_of_not_hasScale none) rounded
  · intro scale
    obtain ⟨finite, positive⟩ := powerOfTen_pos scale
    exact zero_le_roundTo nonneg finite ((zero_lt_iff_value finite).mpr positive)

end Rounding

/-! ## Gaps without a step -/

section Gap

variable {step : Float} {left right : Point}

/-- A gap with finite heights has an area from zero up, also without a step. -/
theorem zero_le_gapArea_of_heights (finite : step.isFinite = true) (nonneg : 0 ≤ value step)
    (finiteLeft : left.y.isFinite = true) (finiteRight : right.y.isFinite = true)
    (heights : (left.y.abs + right.y.abs).isFinite = true) : 0 ≤ gapArea step left right := by
  have nonneg' := (zero_le_iff_value heights).mp (zero_le_heights finiteLeft finiteRight)
  exact zero_le_half
    (zero_le_of_rounds (roundsTo_mul finite heights) (mul_nonneg nonneg nonneg'))

/-- A gap without a step has no area if its heights add up to the infinity. -/
theorem parts_gapArea_of_zero {sign : Sign} (zero : parts step = .zero sign)
    (finiteLeft : left.y.isFinite = true) (finiteRight : right.y.isFinite = true)
    (overflow : (left.y.abs + right.y.abs).isFinite = false) :
    parts (gapArea step left right) = .notANumber := by
  have heights : parts (left.y.abs + right.y.abs) = .infinity .positive := by
    rcases zero_le_iff.mp (zero_le_heights finiteLeft finiteRight) with ⟨finite, _⟩ | infinite
    · rw [overflow] at finite
      cases finite
    · exact infinite
  have product := parts_zero_mul_infinity zero heights
  have quotient : gapArea step left right = ofParts (UnpackedFloat.div .binary64
    (parts (step * (left.y.abs + right.y.abs))) (parts 2)) := rfl
  rw [quotient, product]
  exact parts_ofParts trivial

end Gap

/-- A sum with a NaN is a NaN. -/
theorem parts_foldl_add_of_nan {items : List Float} {start : Float}
    (nan : parts start = .notANumber ∨ ∃ item ∈ items, parts item = .notANumber) :
    parts (items.foldl (· + ·) start) = .notANumber := by
  induction items generalizing start with
  | nil =>
    rcases nan with nan | ⟨item, member, _⟩
    · exact nan
    · cases member
  | cons item items ih =>
    refine ih ?_
    rcases nan with nan | ⟨other, member, nan⟩
    · have sum : parts (item + start) = .notANumber := parts_add_of_nan nan
      rw [Binary64.add_comm] at sum
      exact .inl sum
    · rcases List.mem_cons.mp member with rfl | member
      · exact .inl (parts_add_of_nan nan)
      · exact .inr ⟨other, member, nan⟩

/-! ## Areas -/

/-- Whether the heights of any two neighbours add up to a finite number. -/
def FiniteHeights (points : List Point) : Prop :=
  ∀ pair ∈ points.zip points.tail, (pair.1.y.abs + pair.2.y.abs).isFinite = true

instance (points : List Point) : Decidable (FiniteHeights points) :=
  inferInstanceAs (Decidable (∀ pair ∈ points.zip points.tail, _))

section Area

variable {points : List Point} {step : Float} (finite : step.isFinite = true)
  (all : ∀ point ∈ points, point.y.isFinite = true)

include finite all

theorem zero_le_trapezoidArea_of_heights (nonneg : 0 ≤ value step) (low : FiniteHeights points) :
    0 ≤ trapezoidArea points step := by
  refine zero_le_foldl_add (by decide) ?_
  intro item member
  obtain ⟨⟨left, right⟩, neighbours, rfl⟩ := exists_of_mem_gaps member
  obtain ⟨memberLeft, memberRight⟩ := List.of_mem_zip neighbours
  exact zero_le_gapArea_of_heights finite nonneg (all left memberLeft)
    (all right (List.mem_of_mem_tail memberRight)) (low (left, right) neighbours)

theorem parts_trapezoidArea_of_zero (zero : value step = 0) (high : ¬ FiniteHeights points) :
    parts (trapezoidArea points step) = .notANumber := by
  obtain ⟨sign, zero⟩ := exists_parts_of_zero finite zero
  simp only [FiniteHeights, not_forall, Bool.not_eq_true] at high
  obtain ⟨⟨left, right⟩, neighbours, overflow⟩ := high
  obtain ⟨memberLeft, memberRight⟩ := List.of_mem_zip neighbours
  have nan : parts (gapArea step left right) = .notANumber :=
    parts_gapArea_of_zero zero (all left memberLeft) (all right (List.mem_of_mem_tail memberRight))
      overflow
  refine parts_foldl_add_of_nan (.inr ⟨gapArea step left right, ?_, nan⟩)
  rw [← List.map_uncurry_zip_eq_zipWith]
  exact List.mem_map.mpr ⟨(left, right), neighbours, rfl⟩

/-- **The area under finite samples is rounded to a number from zero up** exactly when there is a
scale, and a step or heights that do not overflow. -/
theorem zero_le_roundTo_trapezoidArea_iff (nonneg : 0 ≤ value step) (places : UInt32) :
    0 ≤ roundTo (trapezoidArea points step) places ↔
      HasScale places ∧ (0 < value step ∨ FiniteHeights points) := by
  by_cases number : 0 < value step ∨ FiniteHeights points
  · have area : 0 ≤ trapezoidArea points step := by
      rcases number with positive | low
      · exact zero_le_trapezoidArea finite positive all
      · exact zero_le_trapezoidArea_of_heights finite all nonneg low
    rw [zero_le_roundTo_iff area, and_iff_left number]
  · obtain ⟨zero, high⟩ := not_or.mp number
    have nan := parts_trapezoidArea_of_zero finite all (le_antisymm (not_lt.mp zero) nonneg) high
    exact iff_of_false (not_zero_le_of_nan (parts_roundTo_of_nan nan)) fun both => number both.2

end Area

/-- A grid has a step if the width of its range is not less than one least positive number for each
step. -/
theorem gridStep_pos_of_width {range : Interval} {steps : ℕ} (spanned : range.IsSpanned)
    (some : 0 < steps) (few : steps < 2 ^ 53)
    (wide : steps * leastPositive ≤ value (range.upper - range.lower)) :
    0 < value (gridStep range steps) := by
  have count : (0 : ℚ) < steps := by exact_mod_cast some
  have finite := (isWithin_gridStep spanned some few).finite
  have quotient : leastPositive ≤ value (range.upper - range.lower) / steps := by
    rwa [le_div_iff₀ count, mul_comm]
  have error := (roundsTo_gridStep spanned some few).error_le finite
  rw [abs_of_nonneg (leastPositive_pos.le.trans quotient)] at error
  linarith [(abs_le.mp error).1, leastPositive_pos]

/-! ## Areas of plots -/

/-- **The area of a plot is a number from zero up** over a search range with a finite width, exactly
when there is nothing to sample, or the rounding has a scale and the grid has a step or no two
neighbours have heights that overflow. The grid has a step if the width is not less than one least
positive number for each step. -/
theorem Sampler.plot_area_nonneg_iff (sampler : Sampler) (formula : String)
    (usable : sampler.settings.check = .ok ())
    (width : (sampler.settings.search.upper - sampler.settings.search.lower).isFinite = true) :
    let search := sampler.settings.search
    let steps := sampler.settings.searchSteps.toNat
    let plot := (sampler.plot formula).value
    (steps * leastPositive ≤ value (search.upper - search.lower) →
        0 < value (gridStep search steps)) ∧
      (0 ≤ plot.area ↔ sampler.Rejects formula ∨
        HasScale sampler.settings.areaDigits ∧
          (0 < value (gridStep search steps) ∨ FiniteHeights plot.points)) := by
  intro search steps plot
  have settings := Settings.check_eq_ok.mp usable
  have spanned := settings.isSpanned width
  have some := settings.searchSteps.1
  have few := settings.searchSteps_lt
  refine ⟨gridStep_pos_of_width spanned some few, ?_⟩
  by_cases rejected : sampler.Rejects formula
  · have empty : plot = .empty sampler.settings.defaultDomain := value_plot_of_rejects rejected
    have zero : 0 ≤ plot.area := by
      rw [empty]
      exact le_refl rfl
    exact iff_of_true zero (.inl rejected)
  · rw [or_iff_right rejected]
    simp only [Rejects, not_or, Bool.not_eq_true] at rejected
    obtain ⟨text, readable, _⟩ := rejected
    have same : plot = sampler.signalPlot (parse formula sampler.limits).expr.eval :=
      (value_plot_of_text text readable).trans (value_sample usable _)
    obtain ⟨finite, nonneg, _⟩ := isWithin_gridStep spanned some few
    rw [same]
    rw [← step_sampleGrid some] at finite nonneg ⊢
    exact zero_le_roundTo_trapezoidArea_iff finite
      (fun point => isFinite_of_mem_sampleGrid some) nonneg sampler.settings.areaDigits

theorem Sampler.plot_area_nonneg_iff_rect : 0 ≤ (({} : Sampler).plot "rect(f)").value.area := by
  obtain ⟨step, area⟩ := plot_area_nonneg_iff {} "rect(f)" (by decide +kernel) (by decide +kernel)
  have wide : 0 < value (gridStep ({} : Settings).search ({} : Settings).searchSteps.toNat) :=
    (zero_lt_iff_value (by decide +kernel)).mp (by decide +kernel)
  exact area.mpr (.inr ⟨by decide, .inl wide⟩)

/-- The default sampler with one step, and 309 decimal places for areas. -/
def finelyRounded : Sampler :=
  { settings := { searchSteps := 1, areaDigits := 309 } }

/-- The scale of 309 decimal places is the infinity, so the area of a constant is a NaN. -/
theorem not_plot_area_nonneg :
    ¬ ∀ (sampler : Sampler) (formula : String), sampler.settings.check = .ok () →
      (sampler.settings.search.upper - sampler.settings.search.lower).isFinite = true →
        0 ≤ (sampler.plot formula).value.area := by
  intro claim
  exact absurd (claim finelyRounded "1" (by decide +kernel) (by decide +kernel))
    (by decide +kernel)

end Waveform
