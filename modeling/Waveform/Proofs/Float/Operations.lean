import Waveform.Proofs.Float.Rounding

/-!
# Products and quotients

The product and the quotient of two numbers are those of their values, rounded. For a
product of mantissas with too few digits this does not hold in general, so there is a
condition on these; a quotient is computed to as many digits as are needed.
-/

set_option autoImplicit false

namespace Waveform.Binary64

open Float.Model Float.Model.UnpackedFloat

/-! ## Products -/

section Product

variable {s₁ s₂ : Sign} {m₁ m₂ : ℕ} {e₁ e₂ : ℤ} {p₁ : 0 < m₁} {p₂ : 0 < m₂}

theorem rounds_mul (fine : 52 ≤ (m₁ * m₂).log2 ∨ e₁ + e₂ ≤ -1074) :
    Rounds (s₁ * s₂) ((m₁ * 2 ^ e₁) * (m₂ * 2 ^ e₂))
      (UnpackedFloat.mul .binary64 (.finite s₁ m₁ e₁ p₁) (.finite s₂ m₂ e₂ p₂)) := by
  refine rounds_of_describes _ ?_ fine
  have power := (power_pos (e₁ + e₂)).ne'
  change _ = ((m₁ * m₂ : ℕ) : ℚ)
  rw [div_eq_iff power, zpow_add₀ (by norm_num)]
  push_cast
  ring

end Product

/-! ## Quotients -/

/-- What is left of a division tells where the quotient lies. -/
theorem describes_fraction (num : ℕ) {den : ℕ} (positive : 0 < den) :
    Describes (num / den) ((num : ℚ) / den) (accuracyOfFraction (num % den) den) := by
  have parts : (num : ℚ) = den * (num / den : ℕ) + (num % den : ℕ) := by
    exact_mod_cast (Nat.div_add_mod num den).symm
  have small : ((num % den : ℕ) : ℚ) < den := by exact_mod_cast Nat.mod_lt num positive
  have positive : (0 : ℚ) < den := by exact_mod_cast positive
  have value : (num : ℚ) / den = (num / den : ℕ) + (num % den : ℕ) / den := by
    rw [div_eq_iff positive.ne', add_mul, div_mul_cancel₀ _ positive.ne']
    linarith
  unfold accuracyOfFraction
  split
  · next zero =>
    rw [zero] at value
    change (num : ℚ) / den = (num / den : ℕ)
    simpa using value
  · next some =>
    have some : (0 : ℚ) < (num % den : ℕ) := by exact_mod_cast Nat.pos_of_ne_zero some
    have above : 0 < ((num % den : ℕ) : ℚ) / den := div_pos some positive
    have below : ((num % den : ℕ) : ℚ) / den < 1 := (div_lt_one₀ positive).mpr small
    rw [value]
    cases order : compare (2 * (num % den)) den with
    | lt =>
      have less : (2 * (num % den : ℕ) : ℚ) < den := by exact_mod_cast Nat.compare_eq_lt.mp order
      have half : ((num % den : ℕ) : ℚ) / den < 1 / 2 := by
        rw [div_lt_iff₀ positive]
        linarith
      constructor <;> linarith
    | eq =>
      have same : (2 * (num % den : ℕ) : ℚ) = den := by exact_mod_cast Nat.compare_eq_eq.mp order
      have half : ((num % den : ℕ) : ℚ) / den = 1 / 2 := by
        rw [div_eq_iff positive.ne']
        linarith
      change ((num / den : ℕ) : ℚ) + (num % den : ℕ) / den = _
      linarith
    | gt =>
      have greater : (den : ℚ) < 2 * (num % den : ℕ) := by
        exact_mod_cast Nat.compare_eq_gt.mp order
      have half : 1 / 2 < ((num % den : ℕ) : ℚ) / den := by
        rw [lt_div_iff₀ positive]
        linarith
      constructor <;> linarith

/-- The digits of a quotient, where a numerator is shifted by enough of them. -/
theorem log2_quotient {num den shift : ℕ} (some : 0 < num) (positive : 0 < den)
    (enough : den.log2 + 53 ≤ num.log2 + shift) : 52 ≤ ((num <<< shift) / den).log2 := by
  have digits : 2 ^ num.log2 ≤ num := Nat.log2_self_le (by omega)
  have digits' : den < 2 ^ (den.log2 + 1) := Nat.lt_log2_self
  have many : 2 ^ 52 ≤ (num <<< shift) / den := by
    rw [Nat.le_div_iff_mul_le positive, Nat.shiftLeft_eq]
    calc 2 ^ 52 * den ≤ 2 ^ 52 * 2 ^ (den.log2 + 1) := Nat.mul_le_mul_left _ digits'.le
      _ = 2 ^ (den.log2 + 53) := by rw [← Nat.pow_add]; congr 1; omega
      _ ≤ 2 ^ (num.log2 + shift) := Nat.pow_le_pow_right (by decide) enough
      _ = 2 ^ num.log2 * 2 ^ shift := Nat.pow_add _ _ _
      _ ≤ num * 2 ^ shift := Nat.mul_le_mul_right _ digits
  exact (Nat.le_log2 (by omega)).mpr many

section Quotient

variable {s₁ s₂ : Sign} {m₁ m₂ : ℕ} {e₁ e₂ : ℤ} {p₁ : 0 < m₁} {p₂ : 0 < m₂}

/-- **A quotient is rounded correctly**, whatever the mantissas and exponents are. -/
theorem rounds_div :
    Rounds (s₁ / s₂) ((m₁ * 2 ^ e₁) / (m₂ * 2 ^ e₂))
      (UnpackedFloat.div .binary64 (.finite s₁ m₁ e₁ p₁) (.finite s₂ m₂ e₂ p₂)) := by
  have bits : (Format.binary64.mantissaBits : ℤ) = 53 := rfl
  have least : Format.binary64.minExponent = -1074 := rfl
  obtain ⟨target, targetEq⟩ : ∃ target, min (e₁ - e₂)
      (Format.binary64.targetExponent (totalExponent m₁ e₁ - totalExponent m₂ e₂)) = target :=
    ⟨_, rfl⟩
  obtain ⟨shift, shiftEq⟩ : ∃ shift, (e₁ - e₂ - target).toNat = shift := ⟨_, rfl⟩
  have reaches : e₁ - e₂ = target + shift := by omega
  simp only [UnpackedFloat.div, divCore, targetEq, shiftEq]
  refine rounds_of_describes _ ?_ ?_
  · have describes := describes_fraction (m₁ <<< shift) p₂
    have value : ((m₁ <<< shift : ℕ) : ℚ) / m₂ = m₁ * 2 ^ e₁ / (m₂ * 2 ^ e₂) / 2 ^ target := by
      have p₂ : (m₂ : ℚ) ≠ 0 := by exact_mod_cast p₂.ne'
      have power₂ := (power_pos e₂).ne'
      have power := (power_pos target).ne'
      have moved : (2 : ℚ) ^ e₁ = 2 ^ shift * (2 ^ target * 2 ^ e₂) := by
        rw [← zpow_natCast, ← zpow_add₀ (by norm_num), ← zpow_add₀ (by norm_num)]
        congr 1
        omega
      rw [moved, Nat.shiftLeft_eq]
      push_cast
      field_simp
    rwa [value] at describes
  · by_cases small : target ≤ -1074
    · exact .inr small
    · refine .inl (log2_quotient p₁ p₂ ?_)
      rw [Format.targetExponent, totalExponent, totalExponent, bits, least] at targetEq
      omega

end Quotient

end Waveform.Binary64
