import Waveform.Proofs.Float.Finite

/-!
# Numbers from zero up

A number is at least zero when it is finite with such a value or the positive infinity. Sums of
such numbers are at least zero, and so are their products and quotients where these are numbers.
What is added to a finite number keeps the order, also when the sum is an infinity.
-/

set_option autoImplicit false

namespace Waveform.Binary64

open Float.Model Float.Model.UnpackedFloat

section Order

variable {x y z : Float}

/-- No number is above the positive infinity. -/
theorem le_infinity (number : x.isNaN = false) (infinite : parts y = .infinity .positive) :
    x ≤ y := by
  rw [le_iff_rank number (isNaN_of_infinity infinite), rank, rank, infinite]
  exact le_top

/-- No number is below the negative infinity. -/
theorem infinity_le (infinite : parts x = .infinity .negative) (number : y.isNaN = false) :
    x ≤ y := by
  have turned : -y ≤ -x := by
    refine le_infinity (by rwa [isNaN_neg]) ?_
    rw [parts_neg, infinite]
    rfl
  exact neg_le_neg_iff.mp turned

theorem isFinite_or_infinity (number : x.isNaN = false) :
    x.isFinite = true ∨ parts x = .infinity .negative ∨ parts x = .infinity .positive :=
  finite_or_infinity number

/-- From a finite number up there are only finite numbers and the positive infinity. -/
theorem isFinite_or_infinity_of_le (finite : x.isFinite = true) (le : x ≤ y) :
    y.isFinite = true ∨ parts y = .infinity .positive := by
  obtain ⟨number, number'⟩ := isNaN_of_le le
  rcases isFinite_or_infinity number' with finite' | negative | positive
  · exact .inl finite'
  · have rank_le := (le_iff_rank number number').mp le
    rw [rank_of_isFinite finite, rank, negative] at rank_le
    exact absurd rank_le (bot_lt_inner _).not_ge
  · exact .inr positive

theorem zero_le_iff :
    0 ≤ x ↔ (x.isFinite = true ∧ 0 ≤ value x) ∨ parts x = .infinity .positive := by
  constructor
  · intro nonneg
    rcases isFinite_or_infinity (isNaN_of_le nonneg).2 with finite | negative | positive
    · exact .inl ⟨finite, (zero_le_iff_value finite).mp nonneg⟩
    · rw [le_iff, parts_zero, negative] at nonneg
      cases nonneg
    · exact .inr positive
  · rintro (⟨finite, nonneg⟩ | infinite)
    · exact (zero_le_iff_value finite).mpr nonneg
    · exact le_infinity rfl infinite

theorem zero_le_of_rounds {q : ℚ} (rounds : RoundsTo q x) (nonneg : 0 ≤ q) : 0 ≤ x := by
  refine rounds.ge_of_value_le isFinite_zero ?_
  rwa [value_zero]

end Order

/-! ## Sums -/

section Sum

variable {x y z : Float}

protected theorem add_comm (x y : Float) : x + y = y + x := by
  have stored : x + y = ofParts (UnpackedFloat.add .binary64 (parts x) (parts y)) := rfl
  have stored' : y + x = ofParts (UnpackedFloat.add .binary64 (parts y) (parts x)) := rfl
  rw [stored, stored']
  congr 1
  cases parts x with
  | notANumber => cases parts y <;> rfl
  | infinity s₁ =>
    cases parts y with
    | infinity s₂ => cases s₁ <;> cases s₂ <;> rfl
    | notANumber | zero | finite => rfl
  | zero s₁ =>
    cases parts y with
    | zero s₂ => cases s₁ <;> cases s₂ <;> rfl
    | notANumber | infinity | finite => rfl
  | finite =>
    cases parts y with
    | finite => simp only [UnpackedFloat.add, Int.min_comm, Int.add_comm]
    | notANumber | infinity | zero => rfl

theorem isNaN_add (finite : x.isFinite = true) (number : y.isNaN = false) :
    (x + y).isNaN = false := by
  rcases isFinite_or_infinity number with finite' | negative | positive
  · exact (roundsTo_add finite finite').isNaN
  · exact isNaN_of_infinity (parts_add_infinity finite negative)
  · exact isNaN_of_infinity (parts_add_infinity finite positive)

/-- **Adding to a finite number keeps the order.** -/
protected theorem add_le_add_left (finite : x.isFinite = true) (le : y ≤ z) : x + y ≤ x + z := by
  obtain ⟨number, number'⟩ := isNaN_of_le le
  have rank_le := (le_iff_rank number number').mp le
  rcases isFinite_or_infinity number with finiteY | negative | positive
  · rcases isFinite_or_infinity number' with finiteZ | negative | positive
    · have le := (le_iff_value finiteY finiteZ).mp le
      exact (roundsTo_add finite finiteY).mono (roundsTo_add finite finiteZ) (by linarith)
    · rw [rank_of_isFinite finiteY, rank, negative] at rank_le
      exact absurd rank_le (bot_lt_inner _).not_ge
    · exact le_infinity (isNaN_add finite number) (parts_add_infinity finite positive)
  · exact infinity_le (parts_add_infinity finite negative) (isNaN_add finite number')
  · have top : parts z = .infinity .positive := by
      rcases isFinite_or_infinity number' with finiteZ | negative | infinite
      · rw [rank_of_isFinite finiteZ, rank, positive] at rank_le
        exact absurd rank_le (inner_lt_top _).not_ge
      · rw [rank, rank, positive, negative] at rank_le
        exact absurd rank_le (bot_lt_top : (⊥ : WithBot (WithTop ℚ)) < ⊤).not_ge
      · exact infinite
    exact le_infinity (isNaN_add finite number) (parts_add_infinity finite top)

/-- A finite number is not above what it is with a number from zero up added. -/
protected theorem le_add_of_nonneg (finite : x.isFinite = true) (nonneg : 0 ≤ y) : x ≤ x + y := by
  have zero : x ≤ x + 0 := by
    refine (roundsTo_value finite).mono (roundsTo_add finite isFinite_zero) ?_
    rw [value_zero, add_zero]
  exact le_trans zero (Binary64.add_le_add_left finite nonneg)

/-- A finite number is not below what it is with a number from zero up taken off. -/
theorem sub_le_of_nonneg (finite : x.isFinite = true) (nonneg : 0 ≤ y) : x - y ≤ x := by
  have negative : -y ≤ -0 := neg_le_neg_iff.mpr nonneg
  have zero : x + -0 ≤ x := by
    refine (roundsTo_add finite (by decide)).mono (roundsTo_value finite) ?_
    rw [value_neg, value_zero, neg_zero, add_zero]
  rw [Binary64.sub_eq_add_neg]
  exact le_trans (Binary64.add_le_add_left finite negative) zero

protected theorem add_nonneg (nonneg : 0 ≤ x) (nonneg' : 0 ≤ y) : 0 ≤ x + y := by
  rcases zero_le_iff.mp nonneg with ⟨finite, _⟩ | infinite
  · exact le_trans nonneg (Binary64.le_add_of_nonneg finite nonneg')
  · rcases zero_le_iff.mp nonneg' with ⟨finite', _⟩ | infinite'
    · rw [Binary64.add_comm]
      exact le_trans nonneg' (Binary64.le_add_of_nonneg finite' nonneg)
    · exact zero_le_iff.mpr (.inr (parts_infinity_add_infinity infinite infinite'))

end Sum

/-! ## Products and quotients -/

section Product

variable {x y : Float}

protected theorem mul_comm (x y : Float) : x * y = y * x := by
  have stored : x * y = ofParts (UnpackedFloat.mul .binary64 (parts x) (parts y)) := rfl
  have stored' : y * x = ofParts (UnpackedFloat.mul .binary64 (parts y) (parts x)) := rfl
  have signs (s₁ s₂ : Sign) : s₁ * s₂ = s₂ * s₁ := by cases s₁ <;> cases s₂ <;> rfl
  rw [stored, stored']
  congr 1
  cases parts x <;> cases parts y <;>
    simp only [UnpackedFloat.mul, signs, Nat.mul_comm, Int.add_comm]

/-- A positive number times a number from zero up is one from zero up. -/
theorem zero_le_mul (finite : x.isFinite = true) (positive : 0 < value x) (nonneg : 0 ≤ y) :
    0 ≤ x * y := by
  rcases zero_le_iff.mp nonneg with ⟨finite', nonneg'⟩ | infinite
  · exact zero_le_of_rounds (roundsTo_mul finite finite') (mul_nonneg positive.le nonneg')
  · obtain ⟨_, _, _, _, same⟩ := exists_parts_of_pos positive
    exact zero_le_iff.mpr (.inr (parts_mul_infinity same infinite))

/-- A number from zero up divided by a positive number is one from zero up. -/
theorem zero_le_div (nonneg : 0 ≤ x) (finite : y.isFinite = true) (positive : 0 < value y) :
    0 ≤ x / y := by
  rcases zero_le_iff.mp nonneg with ⟨finite', nonneg'⟩ | infinite
  · exact zero_le_of_rounds (roundsTo_div finite' finite positive.ne')
      (div_nonneg nonneg' positive.le)
  · obtain ⟨_, _, _, _, same⟩ := exists_parts_of_pos positive
    exact zero_le_iff.mpr (.inr (parts_infinity_div infinite same))

end Product

end Waveform.Binary64
