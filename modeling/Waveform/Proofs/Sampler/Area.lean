import Waveform.Proofs.Float.Error
import Waveform.Proofs.Float.Nonneg
import Waveform.Rounding
import Waveform.Sampler.Grid

/-!
# Areas from zero up

The area under finite samples with a positive step is a number from zero up: so is each gap between
two samples, even where their heights add up to the infinity. Rounding to decimal places with a
finite scale leaves it a number from zero up.
-/

set_option autoImplicit false

namespace Waveform

open Binary64 Float.Model Float.Model.UnpackedFloat

/-! ## Gaps -/

/-- The heights of a gap together are a number from zero up, which may be the infinity. -/
theorem zero_le_heights {left right : Point} (finiteLeft : left.y.isFinite = true)
    (finiteRight : right.y.isFinite = true) : 0 ≤ left.y.abs + right.y.abs :=
  Binary64.add_nonneg (zero_le_abs (isNaN_of_isFinite finiteLeft))
    (zero_le_abs (isNaN_of_isFinite finiteRight))

theorem zero_le_half {x : Float} (nonneg : 0 ≤ x) : 0 ≤ x / 2 := by
  have two : value 2 = 2 := value_ofNat (by norm_num : 2 < 2 ^ 53)
  exact zero_le_div nonneg (by decide) (by rw [two]; norm_num)

theorem zero_le_gapArea {step : Float} {left right : Point} (finite : step.isFinite = true)
    (positive : 0 < value step) (finiteLeft : left.y.isFinite = true)
    (finiteRight : right.y.isFinite = true) : 0 ≤ gapArea step left right :=
  zero_le_half (zero_le_mul finite positive (zero_le_heights finiteLeft finiteRight))

/-- An item of the sum that makes an area is the area of a gap between neighbours. -/
theorem exists_of_mem_gaps {points : List Point} {step item : Float}
    (member : item ∈ points.zipWith (gapArea step) points.tail) :
    ∃ pair ∈ points.zip points.tail, gapArea step pair.1 pair.2 = item := by
  rw [← List.map_uncurry_zip_eq_zipWith] at member
  exact List.mem_map.mp member

/-- A sum of numbers from zero up is one. -/
theorem zero_le_foldl_add {items : List Float} {start : Float} (nonneg : 0 ≤ start)
    (all : ∀ item ∈ items, 0 ≤ item) : 0 ≤ items.foldl (· + ·) start := by
  induction items generalizing start with
  | nil => exact nonneg
  | cons item items ih =>
    obtain ⟨first, rest⟩ := List.forall_mem_cons.mp all
    exact ih (Binary64.add_nonneg nonneg first) rest

/-- **The area under finite samples** is a number from zero up. -/
theorem zero_le_trapezoidArea {points : List Point} {step : Float} (finite : step.isFinite = true)
    (positive : 0 < value step) (all : ∀ point ∈ points, point.y.isFinite = true) :
    0 ≤ trapezoidArea points step := by
  refine zero_le_foldl_add (by decide) ?_
  intro item member
  obtain ⟨⟨left, right⟩, neighbours, rfl⟩ := exists_of_mem_gaps member
  obtain ⟨memberLeft, memberRight⟩ := List.of_mem_zip neighbours
  exact zero_le_gapArea finite positive (all left memberLeft)
    (all right (List.mem_of_mem_tail memberRight))

/-! ## Rounding -/

theorem zero_le_ofNat (count : ℕ) : 0 ≤ Float.ofNat count :=
  zero_le_of_rounds (roundsTo_ofNat count) (Nat.cast_nonneg count)

/-- Rounding to a whole number keeps numbers from zero up. -/
theorem zero_le_roundHalfAway {x : Float} (nonneg : 0 ≤ x) : 0 ≤ roundHalfAway x := by
  unfold roundHalfAway
  split
  · next sign mantissa exponent some same =>
    split
    · exact nonneg
    · cases sign with
      | positive => exact zero_le_ofNat _
      | negative =>
        have same : parts x = .finite .negative mantissa exponent some := same
        rw [le_iff, parts_zero, same] at nonneg
        cases nonneg
  · exact nonneg

/-- **Rounding to decimal places keeps numbers from zero up** where the scale is finite. -/
theorem zero_le_roundTo {x : Float} {places : UInt32} (nonneg : 0 ≤ x)
    (finite : (powerOfTen places.toInt32.toInt).isFinite = true)
    (positive : 0 < powerOfTen places.toInt32.toInt) : 0 ≤ roundTo x places := by
  have positive := (zero_lt_iff_value finite).mp positive
  refine zero_le_div (zero_le_roundHalfAway ?_) finite positive
  rw [Binary64.mul_comm]
  exact zero_le_mul finite positive nonneg

end Waveform
