import Waveform.Proofs.Float.Laws
import Waveform.Proofs.Float.Order

/-!
# Quotients at a threshold

A rounded quotient is at most a power of two exactly when the numerator is at most that
multiple of the denominator (`abs_div_le_iff`). A numerator that is greater is so by at least
a unit in the last place of the multiple, and what that adds to the quotient is more than
half of a unit in the last place of the power of two: rounding does not take it back.
-/

set_option autoImplicit false

namespace Waveform.Binary64

open Float.Model Float.Model.UnpackedFloat

/-! ## The order of canonical numbers -/

section Canonical

variable {m₁ m₂ : ℕ} {e₁ e₂ : ℤ}

theorem le_parts_iff {p₁ : 0 < m₁} {p₂ : 0 < m₂} :
    UnpackedFloat.le (.finite .positive m₁ e₁ p₁) (.finite .positive m₂ e₂ p₂) = true ↔
      e₁ < e₂ ∨ e₁ = e₂ ∧ m₁ ≤ m₂ := by
  have unfolded : UnpackedFloat.le (.finite .positive m₁ e₁ p₁) (.finite .positive m₂ e₂ p₂) =
      ((compare e₁ e₂).then (compare m₁ m₂)).isLE := rfl
  rw [unfolded]
  rcases Int.lt_trichotomy e₁ e₂ with less | same | greater
  · rw [Int.compare_eq_lt.mpr less]
    exact iff_of_true rfl (.inl less)
  · rw [Int.compare_eq_eq.mpr same, Ordering.eq_then, Nat.isLE_compare]
    exact ⟨fun le => .inr ⟨same, le⟩, fun le => by omega⟩
  · rw [Int.compare_eq_gt.mpr greater]
    refine iff_of_false Bool.false_ne_true ?_
    intro le
    omega

/-- Numbers are ordered as their exponents are, and those with one exponent as their
mantissas. -/
theorem value_le (canonical : IsCanonical m₁ e₁) (canonical' : IsCanonical m₂ e₂)
    (le : e₁ < e₂ ∨ e₁ = e₂ ∧ m₁ ≤ m₂) : (m₁ : ℚ) * 2 ^ e₁ ≤ m₂ * 2 ^ e₂ := by
  rcases le with less | ⟨rfl, le⟩
  · have lowest := canonical.lowest
    have full : (2 : ℚ) ^ 52 ≤ m₂ := by exact_mod_cast canonical'.full.resolve_right (by omega)
    have fits : (m₁ : ℚ) ≤ 2 ^ 53 := by exact_mod_cast canonical.fits.le
    calc (m₁ : ℚ) * 2 ^ e₁ ≤ 2 ^ 53 * 2 ^ e₁ := by gcongr
      _ ≤ 2 ^ 52 * 2 ^ e₂ := power_le (by omega)
      _ ≤ m₂ * 2 ^ e₂ := by gcongr
  · gcongr

/-- A greater number is greater by at least a unit in the last place. -/
theorem next_le (canonical : IsCanonical m₁ e₁) (canonical' : IsCanonical m₂ e₂)
    (greater : ¬ (e₁ < e₂ ∨ e₁ = e₂ ∧ m₁ ≤ m₂)) : ((m₂ : ℚ) + 1) * 2 ^ e₂ ≤ m₁ * 2 ^ e₁ := by
  obtain ⟨notLess, more⟩ := not_or.mp greater
  rcases lt_or_eq_of_le (not_lt.mp notLess) with less | rfl
  · have lowest := canonical'.lowest
    have full : (2 : ℚ) ^ 52 ≤ m₁ := by exact_mod_cast canonical.full.resolve_right (by omega)
    have fits : (m₂ : ℚ) + 1 ≤ 2 ^ 53 := by exact_mod_cast canonical'.fits
    calc ((m₂ : ℚ) + 1) * 2 ^ e₂ ≤ 2 ^ 53 * 2 ^ e₂ := by gcongr
      _ ≤ 2 ^ 52 * 2 ^ e₁ := power_le (by omega)
      _ ≤ m₁ * 2 ^ e₁ := by gcongr
  · have next : (m₂ : ℚ) + 1 ≤ m₁ := by
      exact_mod_cast Nat.lt_of_not_le fun le => more ⟨rfl, le⟩
    gcongr

end Canonical

/-! ## Rounded numbers and a bound -/

section Bound

variable {u : UnpackedFloat} {q : ℚ} {mantissa : ℕ} {exponent : ℤ}

theorem Rounds.le_of_atMost (rounds : Rounds .positive q u)
    (canonical : IsCanonical mantissa exponent) (small : exponent ≤ 971)
    (le : q ≤ mantissa * 2 ^ exponent) :
    (bounded u).le (.finite .positive mantissa exponent canonical.positive) = true := by
  have atMost := rounds.atMost canonical le
  rcases rounds.zero_or_finite with rfl | ⟨m, e, _, rfl⟩
  · rfl
  · have atMost : e < exponent ∨ e = exponent ∧ m ≤ mantissa := atMost
    rw [bounded, if_neg (by omega)]
    exact le_parts_iff.mpr atMost

theorem Rounds.not_le_of_exceeds (rounds : Rounds .positive q u)
    (canonical : IsCanonical mantissa exponent)
    (greater : ((mantissa : ℚ) + 1 / 2) * 2 ^ exponent < q) :
    (bounded u).le (.finite .positive mantissa exponent canonical.positive) = false := by
  have exceeds := rounds.exceeds canonical greater
  rcases rounds.zero_or_finite with rfl | ⟨m, e, _, rfl⟩
  · exact exceeds.elim
  · have exceeds : exponent < e ∨ e = exponent ∧ mantissa < m := exceeds
    rw [bounded]
    split
    · rfl
    · refine Bool.eq_false_iff.mpr ?_
      intro le
      have le := le_parts_iff.mp le
      omega

end Bound

/-! ## Quotients -/

/-- **A quotient is at most a power of two exactly when the numerator is at most that multiple
of the denominator**, provided that the multiple is exact. -/
theorem abs_div_le_iff {x width bound ratio : Float} {mantissa : ℕ} {exponent power : ℤ}
    (canonical : IsCanonical mantissa exponent)
    (canonicalBound : IsCanonical mantissa (exponent + (52 + power)))
    (canonicalRatio : IsCanonical (2 ^ 52) power) (small : power ≤ 971)
    (widthParts : parts width = .finite .positive mantissa exponent canonical.positive)
    (boundParts : parts bound =
      .finite .positive mantissa (exponent + (52 + power)) canonical.positive)
    (ratioParts : parts ratio = .finite .positive (2 ^ 52) power (by decide)) :
    x.abs / width ≤ ratio ↔ x.abs ≤ bound := by
  have quotient : parts (x.abs / width) =
      bounded (UnpackedFloat.div .binary64 (parts x.abs) (parts width)) :=
    parts_ofParts (canonical_div _ _)
  rw [le_iff, le_iff, quotient, parts_abs, widthParts, boundParts, ratioParts]
  have canonicalX := (canonical_parts x).1
  generalize parts x = u at canonicalX
  cases u with
  | notANumber | infinity | zero => exact Iff.rfl
  | finite sign m e positive =>
    have canonicalX : IsCanonical m e := canonicalX
    have rounds : Rounds (.positive / .positive) _ (UnpackedFloat.div .binary64
        (.finite .positive m e positive)
        (.finite .positive mantissa exponent canonical.positive)) :=
      rounds_div
    have some : (0 : ℚ) < mantissa := by exact_mod_cast canonical.positive
    have width : (0 : ℚ) < mantissa * 2 ^ exponent := mul_pos some (power_pos exponent)
    have scaled (factor : ℚ) : factor * 2 ^ power * (mantissa * 2 ^ exponent) =
        factor * mantissa / 2 ^ 52 * 2 ^ (exponent + (52 + power)) := by
      rw [zpow_add₀ (by norm_num), zpow_add₀ (by norm_num), zpow_ofNat]
      field_simp
    change _ ↔ UnpackedFloat.le (.finite .positive m e positive) _ = true
    rw [le_parts_iff]
    constructor
    · intro le
      by_contra greater
      have next := next_le canonicalX canonicalBound greater
      refine absurd le (ne_true_of_eq_false (rounds.not_le_of_exceeds canonicalRatio ?_))
      rw [lt_div_iff₀ width, scaled]
      refine lt_of_lt_of_le ?_ next
      have fits : (mantissa : ℚ) < 2 ^ 53 := by exact_mod_cast canonical.fits
      refine mul_lt_mul_of_pos_right ?_ (power_pos _)
      push_cast
      linarith
    · intro le
      have order := value_le canonicalX canonicalBound le
      refine rounds.le_of_atMost canonicalRatio small ?_
      rw [div_le_iff₀ width, scaled]
      refine order.trans (le_of_eq ?_)
      push_cast
      ring

end Waveform.Binary64
