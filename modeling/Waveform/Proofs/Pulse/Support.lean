import Waveform.Proofs.Pulse.Magnitude

/-!
# What pulses without support contribute

A pulse has support when its width is positive and finite, and then its kernel is not zero at the
origin. The converse fails for three kinds of widths (`Shape.exists_kernel_ne_zero_iff`). A zero
leaves a rectangle the one place of its center, edges included, and a triangle the quotient of two
zeros there. The same holds of rectangles of the negative number that is nearest to zero, since its
half is rounded to zero. The infinity leaves both kinds the whole axis. All other pulses without
support contribute nothing anywhere (`Pulse.support_iff_contributes`).
-/

set_option autoImplicit false

namespace Waveform

open Binary64 Float.Model Float.Model.UnpackedFloat

/-! ## Widths without support -/

/-- Whether the kernel of this width is cut off everywhere but at the origin. -/
def Shape.IsPoint : Shape → Float → Prop
  | .rect, width => (width == 0) = true ∨ width = leastNegative
  | .tri, width => (width == 0) = true

/-- Whether the width is the positive infinity. -/
def IsUnbounded (width : Float) : Prop :=
  0 < width ∧ width.isFinite = false

theorem isUnbounded_iff {width : Float} :
    IsUnbounded width ↔ parts width = .infinity .positive := by
  constructor
  · rintro ⟨positive, infinite⟩
    rcases zero_le_iff.mp (le_of_lt positive) with ⟨finite, _⟩ | same
    · rw [finite] at infinite
      cases infinite
    · exact same
  · intro same
    refine ⟨?_, congrArg UnpackedFloat.isFinite same⟩
    rw [lt_iff, same, parts_zero]
    rfl

namespace Shape

variable {shape : Shape} {x width : Float}

/-! ## Kernels at the origin -/

/-- **Widths whose reach is not negative** are those with support, those of points and the
infinity. -/
theorem zero_le_reach_iff : 0 ≤ shape.reach width ↔
    (0 < width ∧ width.isFinite = true) ∨ shape.IsPoint width ∨ IsUnbounded width := by
  have positive : 0 < width ↔ (0 < width ∧ width.isFinite = true) ∨ IsUnbounded width := by
    rw [IsUnbounded, ← and_or_left, and_iff_left (Bool.eq_false_or_eq_true _)]
  have nonneg : 0 ≤ width ↔
      (0 < width ∧ width.isFinite = true) ∨ (width == 0) = true ∨ IsUnbounded width :=
    calc 0 ≤ width
      _ ↔ (width == 0) = true ∨ 0 < width := zero_le_iff_beq_or_pos
      _ ↔ (width == 0) = true ∨ (0 < width ∧ width.isFinite = true) ∨ IsUnbounded width :=
        or_congr_right positive
      _ ↔ _ := or_left_comm
  cases shape with
  | rect =>
    rw [IsPoint, reach, zero_le_half_iff, nonneg]
    tauto
  | tri => exact nonneg

/-- A kernel is one where it is not cut off, unless it is a triangle that has fallen there. -/
theorem kernel_of_inside (inside : x.abs ≤ shape.reach width)
    (flat : shape = .tri → x.abs / width = 0) : shape.kernel x width = 1 := by
  cases shape with
  | rect => exact if_pos inside
  | tri =>
    have kernel : Shape.tri.kernel x width = 1 - x.abs / width := if_pos inside
    rw [kernel, flat rfl, Binary64.sub_zero]

/-- A kernel with support, or one without bounds, is one at the origin. -/
theorem kernel_zero (positive : 0 < width) : shape.kernel 0 width = 1 := by
  have zero : (0 : Float).abs = 0 := abs_of_zero rfl
  refine kernel_of_inside ?_ fun _ => ?_
  · rw [zero, zero_le_reach_iff]
    cases finite : width.isFinite with
    | true => exact .inl ⟨positive, rfl⟩
    | false => exact .inr (.inr ⟨positive, finite⟩)
  · rw [zero, zero_div_of_pos positive]

/-- A kernel without bounds is one at all finite places. -/
theorem kernel_of_isUnbounded (unbounded : IsUnbounded width) (finite : x.isFinite = true) :
    shape.kernel x width = 1 := by
  have infinite := isUnbounded_iff.mp unbounded
  have number : x.abs.isNaN = false := by rw [isNaN_abs, isNaN_of_isFinite finite]
  refine kernel_of_inside (le_infinity number ?_) fun _ => abs_div_of_infinity finite infinite
  cases shape with
  | rect => exact parts_half_of_infinity infinite
  | tri => exact infinite

/-- A rectangle that is a point is one there. -/
theorem kernel_rect_of_isPoint (point : Shape.rect.IsPoint width) (zero : (x == 0) = true) :
    Shape.rect.kernel x width = 1 := by
  refine kernel_of_inside ?_ nofun
  rw [abs_of_zero zero, zero_le_reach_iff]
  exact .inr (.inl point)

/-- A triangle that is a point is no number there. -/
theorem kernel_tri_of_isPoint (point : Shape.tri.IsPoint width) (zero : (x == 0) = true) :
    parts (Shape.tri.kernel x width) = .notANumber := by
  have inside : x.abs ≤ width := by
    rw [abs_of_zero zero]
    exact (le_zero_of_beq point).1
  have kernel : Shape.tri.kernel x width = 1 - x.abs / width := if_pos inside
  rw [kernel, abs_of_zero zero]
  exact parts_sub_of_nan (parts_zero_div_zero point)

theorem reach_of_isPoint (point : shape.IsPoint width) : (shape.reach width == 0) = true := by
  cases shape with
  | rect =>
    rcases point with zero | rfl
    · obtain ⟨sign, same⟩ := beq_zero_iff.mp zero
      have product := roundsTo_mul (congrArg UnpackedFloat.isFinite same) isFinite_half
      rw [value_of_parts_zero same, zero_mul] at product
      exact beq_zero_of_rounds product
    · decide +kernel
  | tri => exact point

/-- The kernel of a point is zero everywhere else. -/
theorem kernel_of_isPoint (point : shape.IsPoint width) (elsewhere : (x == 0) = false) :
    shape.kernel x width = 0 := by
  refine kernel_of_outside fun inside => ?_
  have zero := beq_zero_of_abs_le (le_trans inside (le_zero_of_beq (reach_of_isPoint point)).2)
  rw [zero] at elsewhere
  cases elsewhere

/-- **Kernels that are not zero everywhere** are those with support, those of points and those
without bounds. -/
theorem exists_kernel_ne_zero_iff : (∃ x, (shape.kernel x width == 0) = false) ↔
    (0 < width ∧ width.isFinite = true) ∨ shape.IsPoint width ∨ IsUnbounded width := by
  constructor
  · rintro ⟨x, some⟩
    rw [← zero_le_reach_iff]
    by_contra negative
    have outside : ¬ x.abs ≤ shape.reach width := fun inside =>
      negative (le_trans (zero_le_abs (isNaN_abs x ▸ (isNaN_of_le inside).1)) inside)
    rw [kernel_of_outside outside] at some
    cases some
  · intro cases
    refine ⟨0, ?_⟩
    rcases cases with ⟨positive, _⟩ | point | unbounded
    · rw [kernel_zero positive]
      rfl
    · cases shape with
      | rect =>
        rw [kernel_rect_of_isPoint point rfl]
        rfl
      | tri => exact beq_zero_of_nan (kernel_tri_of_isPoint point rfl)
    · rw [kernel_zero unbounded.1]
      rfl

end Shape

namespace Pulse

variable {pulse : Pulse} {x : Float}

theorem parts_valueAt_of_nan
    (nan : parts (pulse.shape.kernel (x - pulse.center) pulse.width) = .notANumber) :
    parts (pulse.valueAt x) = .notANumber := by
  rw [valueAt, Binary64.mul_comm]
  exact parts_mul_of_nan nan

/-- **What pulses without support contribute.** A kernel is not zero somewhere just if the pulse has
support, is a point or has no bounds. A pulse without support contributes nothing, unless it has no
bounds or is a point. Without bounds it contributes its amplitude at all places that are a finite
number away from its center. A point contributes nothing but at the center, and there a rectangle
contributes its amplitude and a triangle no number. -/
theorem support_iff_contributes (pulse : Pulse) :
    ((∃ x, (pulse.shape.kernel x pulse.width == 0) = false) ↔
      pulse.hasSupport = true ∨ pulse.shape.IsPoint pulse.width ∨ IsUnbounded pulse.width) ∧
    ∀ x,
      (pulse.hasSupport = false → ¬ pulse.shape.IsPoint pulse.width → ¬ IsUnbounded pulse.width →
        pulse.amplitude.isFinite = true → (pulse.valueAt x == 0) = true) ∧
      (pulse.shape.IsPoint pulse.width → (x == pulse.center && x.isFinite) = false →
        pulse.amplitude.isFinite = true → (pulse.valueAt x == 0) = true) ∧
      (pulse.shape.IsPoint pulse.width → (x == pulse.center && x.isFinite) = true →
        match pulse.shape with
        | .rect => pulse.valueAt x = pulse.amplitude
        | .tri => (pulse.valueAt x).isNaN = true) ∧
      (IsUnbounded pulse.width → (x - pulse.center).isFinite = true →
        pulse.valueAt x = pulse.amplitude) := by
  have support : pulse.hasSupport = true ↔ 0 < pulse.width ∧ pulse.width.isFinite = true := by
    rw [hasSupport, Bool.and_eq_true, decide_eq_true_iff]
  have center (x : Float) : (x - pulse.center == 0) = (x == pulse.center && x.isFinite) := by
    rw [Bool.eq_iff_iff, Bool.and_eq_true, sub_beq_zero_iff]
  have somewhere : (∃ x, (pulse.shape.kernel x pulse.width == 0) = false) ↔
      pulse.hasSupport = true ∨ pulse.shape.IsPoint pulse.width ∨ IsUnbounded pulse.width := by
    rw [support]
    exact Shape.exists_kernel_ne_zero_iff
  refine ⟨somewhere, fun x => ⟨?_, ?_, ?_, ?_⟩⟩
  · intro none extended bounded finite
    refine valueAt_of_kernel_zero finite ?_
    by_contra some
    rcases somewhere.mp ⟨_, Bool.eq_false_iff.mpr some⟩ with supported | point | unbounded
    · rw [none] at supported
      cases supported
    · exact extended point
    · exact bounded unbounded
  · intro point elsewhere finite
    rw [← center] at elsewhere
    refine valueAt_of_kernel_zero finite ?_
    rw [Shape.kernel_of_isPoint point elsewhere]
    rfl
  · intro point zero
    rw [← center] at zero
    cases same : pulse.shape with
    | rect =>
      rw [same] at point
      refine valueAt_of_kernel_one ?_
      rw [same, Shape.kernel_rect_of_isPoint point zero]
    | tri =>
      rw [same] at point
      refine congrArg UnpackedFloat.isNaN (parts_valueAt_of_nan ?_)
      rw [same, Shape.kernel_tri_of_isPoint point zero]
  · intro unbounded finite
    exact valueAt_of_kernel_one (Shape.kernel_of_isUnbounded unbounded finite)

theorem support_iff_contributes_narrow :
    ((Pulse.mk 2 .rect 1 (-2)).valueAt 1 == 0) = true ∧
      ((Pulse.mk 2 .rect 1 leastNegative).valueAt 1.5 == 0) = true ∧
      (Pulse.mk 2 .rect 1 leastNegative).valueAt 1 = 2 ∧
      ((Pulse.mk 2 .tri 1 0).valueAt 1).isNaN = true ∧
      (Pulse.mk 2 .tri 1 (1 / 0)).valueAt 1e300 = 2 := by
  have negative : ¬ 0 ≤ Shape.rect.reach (-2) := by decide +kernel
  refine ⟨?_, ?_, ?_, ?_, ?_⟩
  · refine ((support_iff_contributes ⟨2, .rect, 1, -2⟩).2 1).1 rfl ?_ ?_ rfl
    · intro point
      exact negative (Shape.zero_le_reach_iff.mpr (.inr (.inl point)))
    · intro unbounded
      exact absurd unbounded.2 (by decide)
  · exact ((support_iff_contributes ⟨2, .rect, 1, leastNegative⟩).2 1.5).2.1 (.inr rfl)
      (by decide) rfl
  · exact ((support_iff_contributes ⟨2, .rect, 1, leastNegative⟩).2 1).2.2.1 (.inr rfl) (by decide)
  · exact ((support_iff_contributes ⟨2, .tri, 1, 0⟩).2 1).2.2.1 rfl (by decide)
  · refine ((support_iff_contributes ⟨2, .tri, 1, 1 / 0⟩).2 1e300).2.2.2 ⟨?_, ?_⟩ ?_
    · decide +kernel
    · decide +kernel
    · decide +kernel

/-- A rectangle of the width zero has no support, and yet its kernel is one at the origin, where the
pulse contributes its amplitude. -/
theorem not_zero_without_support :
    (¬ ∀ pulse : Pulse, pulse.hasSupport = true ↔
      ∃ x, (pulse.shape.kernel x pulse.width == 0) = false) ∧
    ¬ ∀ pulse : Pulse, pulse.hasSupport = false → pulse.amplitude.isFinite = true →
      ∀ x, x.isFinite = true → (pulse.valueAt x == 0) = true := by
  have support : (Pulse.mk 1 .rect 0 0).hasSupport = false := by decide
  constructor
  · intro claim
    have supported := (claim ⟨1, .rect, 0, 0⟩).mpr ⟨0, by decide⟩
    rw [support] at supported
    cases supported
  · intro claim
    have zero := claim ⟨1, .rect, 0, 0⟩ support (by decide) 0 (by decide)
    have value : ((Pulse.mk 1 .rect 0 0).valueAt 0 == 0) = false := by decide +kernel
    rw [value] at zero
    cases zero

end Pulse

end Waveform
