import Waveform.Builtin
import Waveform.Proofs.Float.Value
import Waveform.Pulse.Basic

/-!
# Pulses of two kinds

A pulse of any width is the pulse of width one at the quotient (`eval_div`). The edges are
compared in two ways: a quotient with a half or with one, and the distance with half of the
width or with the width. Half of a width is exact from `leastWidth` on.
-/

set_option autoImplicit false

namespace Waveform

open Binary64 Float.Model Float.Model.UnpackedFloat

namespace Pulse

theorem leastWidth_positive : 0 < 2 ^ 52 := by
  decide

/-- The number `2 ^ -1021`, from which on the half of a number has all digits. -/
def leastWidth : Float :=
  ofParts (.finite .positive (2 ^ 52) (-1073) leastWidth_positive)

example : (leastWidth == 4.450147717014403e-308) = true := by decide +kernel

end Pulse

namespace Shape

/-- The function that is called by the name of a shape. -/
def function : Shape → Builtin
  | .rect => .rect
  | .tri => .tri

theorem name_function (shape : Shape) : shape.function.name = shape.name := by
  cases shape <;> rfl

/-- The distance from the origin up to which a kernel is not cut off. -/
def reach : Shape → Float → Float
  | .rect, width => width * 0.5
  | .tri, width => width

/-- A kernel is zero where it is cut off. -/
theorem kernel_of_outside {shape : Shape} {x width : Float}
    (outside : ¬ x.abs ≤ shape.reach width) : shape.kernel x width = 0 := by
  cases shape with
  | rect => exact if_neg outside
  | tri => exact if_neg outside

end Shape

/-! ## Widths -/

namespace Pulse

variable {pulse : Pulse}

theorem isFinite_width (support : pulse.hasSupport = true) : pulse.width.isFinite = true :=
  (Bool.and_eq_true_iff.mp support).2

theorem width_pos (support : pulse.hasSupport = true) : 0 < value pulse.width :=
  (zero_lt_iff_value (isFinite_width support)).mp
    (of_decide_eq_true (Bool.and_eq_true_iff.mp support).1)

end Pulse

section Half

variable {width : Float} {mantissa : ℕ} {exponent : ℤ} (canonical : IsCanonical mantissa exponent)

/-- The half of a number that is not too small has the same digits. -/
theorem isCanonical_sub_one
    (same : parts width = .finite .positive mantissa exponent canonical.positive)
    (wide : Pulse.leastWidth ≤ width) : IsCanonical mantissa (exponent - 1) := by
  have least : IsCanonical (2 ^ 52) (-1073) :=
    ⟨by decide, by decide, by decide, .inl (Nat.le_refl _)⟩
  have stored : parts Pulse.leastWidth = _ := parts_ofParts_finite least (by decide)
  rw [le_iff, stored, same, le_parts_iff] at wide
  exact ⟨canonical.positive, canonical.fits, by omega,
    .inl (canonical.full.resolve_right (by omega))⟩

theorem parts_mul_half (small : exponent ≤ 971)
    (same : parts width = .finite .positive mantissa exponent canonical.positive)
    (half : IsCanonical mantissa (exponent - 1)) :
    parts (width * 0.5) = .finite .positive mantissa (exponent - 1) half.positive := by
  have many : 2 ^ 52 ≤ mantissa * 2 ^ 52 := Nat.le_mul_of_pos_left _ half.positive
  have rounds : Rounds (.positive * .positive) _ (UnpackedFloat.mul .binary64
      (.finite .positive mantissa exponent canonical.positive)
      (.finite .positive (2 ^ 52) (-53) (by decide))) :=
    rounds_mul (.inl ((Nat.le_log2 (by omega)).mpr many))
  have value : (mantissa : ℚ) * 2 ^ exponent * ((2 ^ 52 : ℕ) * 2 ^ (-53 : ℤ)) =
      mantissa * 2 ^ (exponent - 1) := by
    rw [zpow_sub_one₀ (by norm_num)]
    norm_num
    ring
  rw [value] at rounds
  have stored : parts (width * 0.5) =
      bounded (UnpackedFloat.mul .binary64 (parts width) (parts 0.5)) :=
    parts_ofParts (canonical_mul (canonical_parts _).1 (canonical_parts _).1)
  rw [stored, same, parts_half, rounds.eq_of_canonical half, bounded, if_neg (by omega)]
  rfl

end Half

/-! ## Edges -/

/-- **A pulse is the pulse of width one at the quotient by its width**, and only the distance
from the center matters. -/
theorem Pulse.eval_div {pulse : Pulse} (support : pulse.hasSupport = true)
    (wide : pulse.shape = .rect → Pulse.leastWidth ≤ pulse.width) {x distance : Float}
    (same : distance.abs = x.abs) :
    pulse.shape.function.eval (distance / pulse.width) = pulse.shape.kernel x pulse.width := by
  obtain ⟨mantissa, exponent, canonical, small, parts⟩ := exists_parts_of_pos (width_pos support)
  have magnitude : (distance / pulse.width).abs = x.abs / pulse.width := by
    rw [abs_div parts, same]
  cases shape : pulse.shape with
  | rect =>
    have half := isCanonical_sub_one canonical parts (wide shape)
    have edge : x.abs / pulse.width ≤ 0.5 ↔ x.abs ≤ pulse.width * 0.5 :=
      abs_div_le_iff canonical half isCanonical_half (by decide) parts
        (parts_mul_half canonical small parts half) parts_half
    change Kernel.rect (distance / pulse.width) 1 = Kernel.rect x pulse.width
    simp only [Kernel.rect, Binary64.one_mul, magnitude, edge]
  | tri =>
    have edge : x.abs / pulse.width ≤ 1 ↔ x.abs ≤ pulse.width := by
      refine abs_div_le_iff canonical ?_ isCanonical_one (by decide) parts ?_ parts_one
      · simpa using canonical
      · simpa using parts
    change Kernel.tri (distance / pulse.width) 1 = Kernel.tri x pulse.width
    simp only [Kernel.tri, Binary64.div_one, magnitude, edge]

end Waveform
