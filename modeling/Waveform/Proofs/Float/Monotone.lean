import Waveform.Proofs.Float.Nonneg

/-!
# Operations that keep the order

Sums of numbers from zero up grow with their operands, and so do products with a positive number.
A number up to zero falls when a number from zero up is taken off, the more the greater that is. All
this also holds where a result is an infinity, which is why the infinite operands are cases of their
own: they are rounded from no rational number.
-/

set_option autoImplicit false

namespace Waveform.Binary64

open Float.Model Float.Model.UnpackedFloat

section Order

variable {x y : Float}

/-- Numbers that are not above each other are equal, zeros of both signs included. -/
theorem beq_of_le_of_le (le : x ≤ y) (ge : y ≤ x) : (x == y) = true := by
  have le : ((parts x).compare (parts y)).any (·.isLE) = true := le_iff.mp le
  have ge : ((parts y).compare (parts x)).any (·.isLE) = true := le_iff.mp ge
  change ((parts x).compare (parts y) == some .eq) = true
  rw [compare_swap (parts x)] at ge
  cases same : (parts x).compare (parts y) with
  | none =>
    rw [same] at le
    cases le
  | some order =>
    rw [same] at le ge
    cases order with
    | lt => cases ge
    | eq => rfl
    | gt => cases le

/-- Only zeros have the same value as another number. -/
theorem eq_of_value_eq (finite : x.isFinite = true) (finite' : y.isFinite = true)
    (same : value x = value y) (some : value y ≠ 0) : x = y := by
  have le := (le_iff_value finite finite').mpr same.le
  have ge := (le_iff_value finite' finite).mpr same.ge
  exact eq_of_beq (beq_of_le_of_le le ge) fun _ zero => some (value_of_parts_zero zero)

theorem zero_le_neg_iff : 0 ≤ -x ↔ x ≤ 0 := by
  have zeros : (-0 : Float) ≤ 0 ∧ (0 : Float) ≤ -0 := by decide
  rw [← neg_le_neg_iff (x := x)]
  exact ⟨fun le => le_trans zeros.1 le, fun le => le_trans zeros.2 le⟩

theorem le_zero_iff :
    x ≤ 0 ↔ (x.isFinite = true ∧ value x ≤ 0) ∨ parts x = .infinity .negative := by
  have infinite : parts (-x) = .infinity .positive ↔ parts x = .infinity .negative := by
    rw [parts_neg]
    generalize parts x = u
    cases u with
    | notANumber | zero | finite => exact iff_of_false (by rintro ⟨⟩) (by rintro ⟨⟩)
    | infinity sign =>
      cases sign with
      | negative => exact iff_of_true rfl rfl
      | positive => exact iff_of_false (by rintro ⟨⟩) (by rintro ⟨⟩)
  rw [← zero_le_neg_iff, zero_le_iff, isFinite_neg, value_neg, neg_nonneg, infinite]

end Order

/-! ## Sums and differences -/

section Sum

variable {x x' y y' : Float}

theorem parts_add_of_infinity (infinite : parts x = .infinity .positive) (nonneg : 0 ≤ y) :
    parts (x + y) = .infinity .positive := by
  rcases zero_le_iff.mp nonneg with ⟨finite, _⟩ | infinite'
  · rw [Binary64.add_comm]
    exact parts_add_infinity finite infinite
  · exact parts_infinity_add_infinity infinite infinite'

theorem parts_sub_of_infinity (infinite : parts x = .infinity .negative) (nonneg : 0 ≤ y) :
    parts (x - y) = .infinity .negative := by
  rw [Binary64.sub_eq_add_neg]
  rcases zero_le_iff.mp nonneg with ⟨finite, _⟩ | infinite'
  · rw [Binary64.add_comm]
    exact parts_add_infinity (by rwa [isFinite_neg]) infinite
  · refine parts_infinity_add_infinity infinite ?_
    rw [parts_neg, infinite']
    rfl

theorem parts_sub_infinity (finite : x.isFinite = true) (infinite : parts y = .infinity .positive) :
    parts (x - y) = .infinity .negative := by
  rw [Binary64.sub_eq_add_neg]
  refine parts_add_infinity finite ?_
  rw [parts_neg, infinite]
  rfl

/-- What is not less than a finite number is an infinite distance above it if the distance is not
finite. -/
theorem parts_sub_of_le (finite : x.isFinite = true) (le : x ≤ y) (far : (y - x).isFinite = false) :
    parts (y - x) = .infinity .positive := by
  rcases isFinite_or_infinity_of_le finite le with finite' | infinite
  · have rounds := roundsTo_sub finite' finite
    refine rounds.parts_eq_infinity (lt_of_le_of_ne ?_ ?_) far
    · exact sub_nonneg.mpr ((le_iff_value finite finite').mp le)
    · intro none
      rw [← none] at rounds
      rw [rounds.isWithin_zero.finite] at far
      cases far
  · rw [Binary64.sub_eq_add_neg, Binary64.add_comm]
    exact parts_add_infinity (by rwa [isFinite_neg]) infinite

/-- A number from zero up is not above what it is with another one added. -/
protected theorem le_add_self (nonneg : 0 ≤ x) (nonneg' : 0 ≤ y) : x ≤ x + y := by
  rcases zero_le_iff.mp nonneg with ⟨finite, _⟩ | infinite
  · exact Binary64.le_add_of_nonneg finite nonneg'
  · exact le_infinity (isNaN_of_le nonneg).2 (parts_add_of_infinity infinite nonneg')

/-- A number up to zero is not below what it is with a number from zero up taken off. -/
protected theorem sub_le_self (nonpos : x ≤ 0) (nonneg : 0 ≤ y) : x - y ≤ x := by
  rcases le_zero_iff.mp nonpos with ⟨finite, _⟩ | infinite
  · exact sub_le_of_nonneg finite nonneg
  · exact infinity_le (parts_sub_of_infinity infinite nonneg) (isNaN_of_le nonpos).1

/-- **Sums of numbers from zero up grow with their operands.** -/
protected theorem add_le_add (nonneg : 0 ≤ x) (le : x ≤ x') (nonneg' : 0 ≤ y) (le' : y ≤ y') :
    x + y ≤ x' + y' := by
  have number := (isNaN_of_le (Binary64.add_nonneg nonneg nonneg')).2
  rcases zero_le_iff.mp (le_trans nonneg le) with ⟨finite, _⟩ | infinite
  · rcases zero_le_iff.mp (le_trans nonneg' le') with ⟨finite', _⟩ | infinite'
    · have finiteX := isFinite_of_between nonneg le isFinite_zero finite
      have finiteY := isFinite_of_between nonneg' le' isFinite_zero finite'
      have le := (le_iff_value finiteX finite).mp le
      have le' := (le_iff_value finiteY finite').mp le'
      exact (roundsTo_add finiteX finiteY).mono (roundsTo_add finite finite') (add_le_add le le')
    · exact le_infinity number (parts_add_infinity finite infinite')
  · exact le_infinity number (parts_add_of_infinity infinite (le_trans nonneg' le'))

/-- **A number up to zero falls with what is taken off.** -/
protected theorem sub_le_sub (nonpos : x' ≤ 0) (le : x ≤ x') (nonneg : 0 ≤ y') (le' : y' ≤ y) :
    x - y ≤ x' - y' := by
  have number := (isNaN_of_le (Binary64.sub_le_self nonpos nonneg)).1
  rcases le_zero_iff.mp (le_trans le nonpos) with ⟨finite, _⟩ | infinite
  · rcases zero_le_iff.mp (le_trans nonneg le') with ⟨finite', _⟩ | infinite'
    · have finiteX := isFinite_of_between le nonpos finite isFinite_zero
      have finiteY := isFinite_of_between nonneg le' isFinite_zero finite'
      have le := (le_iff_value finite finiteX).mp le
      have le' := (le_iff_value finiteY finite').mp le'
      exact (roundsTo_sub finite finite').mono (roundsTo_sub finiteX finiteY) (sub_le_sub le le')
    · exact infinity_le (parts_sub_infinity finite infinite') number
  · exact infinity_le (parts_sub_of_infinity infinite (le_trans nonneg le')) number

/-- What lies between two numbers a finite distance apart is a finite distance apart. -/
theorem isFinite_sub_of_between {low high : Float} (finite : (high - low).isFinite = true)
    (above : low ≤ x) (below : x ≤ high) (above' : low ≤ y) (below' : y ≤ high) :
    (y - x).isFinite = true := by
  obtain ⟨highFinite, lowFinite⟩ := isFinite_of_sub finite
  have within {place : Float} (above : low ≤ place) (below : place ≤ high) :
      IsWithin (value low) (value high) place := by
    have finite := isFinite_of_between above below lowFinite highFinite
    exact ⟨finite, (le_iff_value lowFinite finite).mp above,
      (le_iff_value finite highFinite).mp below⟩
  obtain ⟨finiteX, lowX, highX⟩ := within above below
  obtain ⟨finiteY, lowY, highY⟩ := within above' below'
  have whole := roundsTo_sub highFinite lowFinite
  refine ((roundsTo_sub finiteY finiteX).isWithin_of_abs_le whole finite ?_).finite
  exact abs_le.mpr ⟨by linarith, by linarith⟩

end Sum

/-! ## Products -/

/-- Products with a positive number grow with the other operand. -/
theorem mul_le_mul_right {x y factor : Float} (finite : factor.isFinite = true)
    (positive : 0 < value factor) (nonneg : 0 ≤ x) (le : x ≤ y) : x * factor ≤ y * factor := by
  have number : (x * factor).isNaN = false := by
    rw [Binary64.mul_comm]
    exact (isNaN_of_le (zero_le_mul finite positive nonneg)).2
  rcases zero_le_iff.mp (le_trans nonneg le) with ⟨finiteY, _⟩ | infinite
  · have finiteX := isFinite_of_between nonneg le isFinite_zero finiteY
    have le := (le_iff_value finiteX finiteY).mp le
    exact (roundsTo_mul finiteX finite).mono (roundsTo_mul finiteY finite)
      (mul_le_mul_of_nonneg_right le positive.le)
  · obtain ⟨_, _, _, _, same⟩ := exists_parts_of_pos positive
    rw [Binary64.mul_comm y]
    exact le_infinity number (parts_mul_infinity same infinite)

end Waveform.Binary64
