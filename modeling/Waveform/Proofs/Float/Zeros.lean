import Waveform.Proofs.Float.Error
import Waveform.Proofs.Float.Monotone

/-!
# Zeros and the numbers next to them

Differences of numbers are exact zeros only between equal numbers (`Binary64.sub_beq_zero_iff`),
since no difference is rounded to zero. Halves are: half of the negative number that is nearest to
zero is a zero. So half of a number is not negative from that number up
(`Binary64.zero_le_half_iff`).

Where zeros are left out of a sum, it is the same but for the sign of a zero
(`Binary64.SameButForZeros.foldl_filter`).
-/

set_option autoImplicit false

namespace Waveform.Binary64

open Float.Model Float.Model.UnpackedFloat

/-! ## The least negative number -/

/-- The negative number that is nearest to zero. -/
def leastNegative : Float :=
  ofParts (.finite .negative 1 (-1074) Nat.one_pos)

example : (leastNegative == -5e-324) = true := by decide +kernel

theorem isCanonical_least : IsCanonical 1 (-1074) :=
  ⟨by decide, by decide, by decide, .inr rfl⟩

theorem parts_leastNegative : parts leastNegative = .finite .negative 1 (-1074) Nat.one_pos :=
  parts_ofParts_finite isCanonical_least (by decide)

theorem value_leastNegative : value leastNegative = -leastPositive := by
  rw [value, parts_leastNegative, partsValue, signValue, leastPositive]
  ring

theorem isFinite_leastNegative : leastNegative.isFinite = true :=
  congrArg UnpackedFloat.isFinite parts_leastNegative

/-- A number with the value of the least negative one is that number. -/
theorem eq_leastNegative {x : Float} (finite : x.isFinite = true)
    (same : value x = -leastPositive) :
    x = leastNegative := by
  rw [← value_leastNegative] at same
  refine eq_of_beq (beq_of_le_of_le ?_ ?_) fun sign zero => ?_
  · exact (le_iff_value finite isFinite_leastNegative).mpr same.le
  · exact (le_iff_value isFinite_leastNegative finite).mpr same.ge
  · rw [parts_leastNegative] at zero
    cases zero

/-! ## Halves -/

theorem value_half : value 0.5 = 1 / 2 := by
  rw [value, parts_half, partsValue, signValue]
  norm_num

theorem isFinite_half : (0.5 : Float).isFinite = true :=
  congrArg UnpackedFloat.isFinite parts_half

/-- Halves of negative numbers are not zeros, but for the half of the least one. -/
theorem not_zero_le_half {x : Float} (finite : x.isFinite = true) (negative : value x < 0)
    (other : x ≠ leastNegative) : ¬ 0 ≤ x * 0.5 := by
  have least := leastPositive_pos
  have product := roundsTo_mul finite isFinite_half
  rw [value_half] at product
  have below : value x * (1 / 2) ≤ value leastNegative := by
    obtain ⟨whole, same⟩ := onFinestGrid_value x
    have sign : whole < 0 := by
      rw [same] at negative
      exact_mod_cast neg_of_mul_neg_left negative least.le
    have second : whole ≠ -1 := by
      rintro rfl
      exact other (eq_leastNegative finite (by rw [same]; push_cast; ring))
    have few : (whole : ℚ) ≤ -2 := by exact_mod_cast (by omega : whole ≤ -2)
    rw [same, value_leastNegative]
    nlinarith
  intro nonneg
  have nonneg := le_trans nonneg (product.le_of_le_value isFinite_leastNegative below)
  rw [zero_le_iff_value isFinite_leastNegative, value_leastNegative] at nonneg
  linarith

theorem parts_half_of_infinity {x : Float} {sign : Sign} (infinite : parts x = .infinity sign) :
    parts (x * 0.5) = .infinity sign := by
  have stored : x * 0.5 = ofParts (UnpackedFloat.mul .binary64 (parts x) (parts 0.5)) := rfl
  rw [stored, infinite, parts_half]
  cases sign with
  | negative | positive => exact parts_ofParts_of_not_isFinite rfl

/-- **Halves are not negative** just for the numbers that are not, and for the negative number that
is nearest to zero. -/
theorem zero_le_half_iff {x : Float} : 0 ≤ x * 0.5 ↔ 0 ≤ x ∨ x = leastNegative := by
  constructor
  · intro nonneg
    by_contra neither
    obtain ⟨negative, other⟩ := not_or.mp neither
    have absurd_of_finite (finite : x.isFinite = true) : False := by
      rw [zero_le_iff_value finite, not_le] at negative
      exact not_zero_le_half finite negative other nonneg
    cases same : parts x with
    | notANumber =>
      rw [le_iff, parts_zero, parts_mul_of_nan same] at nonneg
      cases nonneg
    | infinity sign =>
      rw [le_iff, parts_zero, parts_half_of_infinity same] at nonneg
      cases sign with
      | negative => cases nonneg
      | positive => exact negative (le_infinity rfl same)
    | zero | finite => exact absurd_of_finite (congrArg UnpackedFloat.isFinite same)
  · rintro (nonneg | rfl)
    · rw [Binary64.mul_comm]
      exact zero_le_mul isFinite_half (by rw [value_half]; norm_num) nonneg
    · decide +kernel

/-! ## Zeros -/

section Zero

variable {x : Float}

theorem beq_zero_of_rounds (rounds : RoundsTo 0 x) : (x == 0) = true :=
  beq_zero_iff.mpr (exists_parts_of_zero rounds.isWithin_zero.finite rounds.value_eq_zero)

theorem le_zero_of_beq (zero : (x == 0) = true) : 0 ≤ x ∧ x ≤ 0 := by
  obtain ⟨sign, same⟩ := beq_zero_iff.mp zero
  rw [le_iff, le_iff, parts_zero, same]
  exact ⟨rfl, rfl⟩

theorem abs_of_zero (zero : (x == 0) = true) : x.abs = 0 := by
  obtain ⟨sign, same⟩ := beq_zero_iff.mp zero
  apply ext_parts
  rw [parts_abs, same, parts_zero]
  rfl

/-- A number from zero up is a zero or positive. -/
theorem zero_le_iff_beq_or_pos : 0 ≤ x ↔ (x == 0) = true ∨ 0 < x := by
  constructor
  · intro nonneg
    by_cases above : x ≤ 0
    · exact .inl (beq_of_le_of_le above nonneg)
    · exact .inr ((lt_iff_not_le rfl (isNaN_of_le nonneg).2).mpr above)
  · rintro (zero | positive)
    · exact (le_zero_of_beq zero).1
    · exact le_of_lt positive

/-- Only zeros have a magnitude that is not above zero. -/
theorem beq_zero_of_abs_le (le : x.abs ≤ 0) : (x == 0) = true := by
  have number := (isNaN_of_le le).1
  rw [isNaN_abs] at number
  have zero := beq_of_le_of_le le (zero_le_abs number)
  rw [beq_zero_iff] at zero ⊢
  obtain ⟨_, same⟩ := zero
  rw [parts_abs] at same
  generalize parts x = u at same
  cases u with
  | zero sign => exact ⟨sign, rfl⟩
  | notANumber | infinity | finite => cases same

theorem zero_div_of_pos (positive : 0 < x) : 0 / x = 0 := by
  have stored : 0 / x = ofParts (UnpackedFloat.div .binary64 (parts 0) (parts x)) := rfl
  rw [lt_iff, parts_zero] at positive
  rw [stored, parts_zero]
  apply ofParts_eq
  rw [parts_zero]
  generalize parts x = u at positive
  cases u with
  | notANumber | zero => cases positive
  | infinity sign | finite sign =>
    cases sign with
    | negative => cases positive
    | positive => rfl

theorem parts_zero_div_zero (zero : (x == 0) = true) : parts (0 / x) = .notANumber := by
  obtain ⟨sign, same⟩ := beq_zero_iff.mp zero
  have stored : 0 / x = ofParts (UnpackedFloat.div .binary64 (parts 0) (parts x)) := rfl
  rw [stored, parts_zero, same]
  exact parts_ofParts_of_not_isFinite rfl

theorem beq_zero_of_nan (nan : parts x = .notANumber) : (x == 0) = false := by
  by_contra zero
  obtain ⟨sign, same⟩ := beq_zero_iff.mp (Bool.eq_true_of_not_eq_false zero)
  rw [nan] at same
  cases same

end Zero

/-- What is a multiple of the least positive number is not rounded to zero unless it is zero. -/
theorem eq_zero_of_rounds {q : ℚ} {x : Float} (rounds : RoundsTo q x) (zero : (x == 0) = true)
    (multiple : OnFinestGrid q) : q = 0 := by
  have least := leastPositive_pos
  obtain ⟨whole, rfl⟩ := multiple
  obtain ⟨nonneg, nonpos⟩ := le_zero_of_beq zero
  have finite := isFinite_leastNegative
  rcases lt_trichotomy whole 0 with below | rfl | above
  · have far : whole * leastPositive ≤ value leastNegative := by
      have few : (whole : ℚ) ≤ -1 := by exact_mod_cast (by omega : whole ≤ -1)
      rw [value_leastNegative]
      nlinarith
    have le := (zero_le_iff_value finite).mp (le_trans nonneg (rounds.le_of_le_value finite far))
    rw [value_leastNegative] at le
    linarith
  · rw [Int.cast_zero, zero_mul]
  · have far : value (-leastNegative) ≤ whole * leastPositive := by
      have many : (1 : ℚ) ≤ whole := by exact_mod_cast above
      rw [value_neg, value_leastNegative]
      nlinarith
    rw [← isFinite_neg] at finite
    have le := (le_zero_iff_value finite).mp (le_trans (rounds.ge_of_value_le finite far) nonpos)
    rw [value_neg, value_leastNegative] at le
    linarith

/-! ## Zeros in sums -/

theorem add_of_zero {x zero : Float} (some : (x == 0) = false) (none : (zero == 0) = true) :
    x + zero = x := by
  obtain ⟨_, same⟩ := beq_zero_iff.mp none
  have stored : x + zero = ofParts (UnpackedFloat.add .binary64 (parts x) (parts zero)) := rfl
  rw [stored, same]
  apply ofParts_eq
  cases parts : Binary64.parts x with
  | zero sign => rw [beq_zero_iff.mpr ⟨sign, parts⟩] at some; cases some
  | notANumber | infinity | finite => rfl

/-- Whether two numbers are the same, or are zeros of any signs. -/
def SameButForZeros (x y : Float) : Prop :=
  x = y ∨ (x == 0) = true ∧ (y == 0) = true

namespace SameButForZeros

variable {x y : Float}

theorem isFinite_eq (same : SameButForZeros x y) : x.isFinite = y.isFinite := by
  rcases same with rfl | ⟨zero, zero'⟩
  · rfl
  · obtain ⟨_, parts⟩ := beq_zero_iff.mp zero
    obtain ⟨_, parts'⟩ := beq_zero_iff.mp zero'
    exact (congrArg UnpackedFloat.isFinite parts).trans
      (congrArg UnpackedFloat.isFinite parts').symm

theorem value_eq (same : SameButForZeros x y) : value x = value y := by
  rcases same with rfl | ⟨zero, zero'⟩
  · rfl
  · obtain ⟨_, parts⟩ := beq_zero_iff.mp zero
    obtain ⟨_, parts'⟩ := beq_zero_iff.mp zero'
    rw [value_of_parts_zero parts, value_of_parts_zero parts']

/-- A zero may be added to one of them. -/
theorem add_zero (same : SameButForZeros x y) {zero : Float} (none : (zero == 0) = true) :
    SameButForZeros (x + zero) y := by
  cases some : x == 0 with
  | false => rwa [add_of_zero some none]
  | true =>
    obtain ⟨_, parts⟩ := beq_zero_iff.mp some
    obtain ⟨_, parts'⟩ := beq_zero_iff.mp none
    have sum :=
      roundsTo_add (congrArg UnpackedFloat.isFinite parts) (congrArg UnpackedFloat.isFinite parts')
    rw [value_of_parts_zero parts, value_of_parts_zero parts', Rat.add_zero] at sum
    rcases same with rfl | ⟨_, zero'⟩
    · exact .inr ⟨beq_zero_of_rounds sum, some⟩
    · exact .inr ⟨beq_zero_of_rounds sum, zero'⟩

/-- The same number may be added to both. -/
theorem add (same : SameButForZeros x y) {z : Float} (some : (z == 0) = false) :
    SameButForZeros (x + z) (y + z) := by
  rcases same with rfl | ⟨zero, zero'⟩
  · exact .inl rfl
  · rw [Binary64.add_comm x, Binary64.add_comm y, add_of_zero some zero, add_of_zero some zero']
    exact .inl rfl

/-- Zeros may be left out of a sum. -/
theorem foldl_filter (items : List Float) (same : SameButForZeros x y) :
    SameButForZeros (items.foldl (· + ·) x)
      ((items.filter fun item => !(item == 0)).foldl (· + ·) y) := by
  induction items generalizing x y with
  | nil => exact same
  | cons item items ih =>
    cases zero : item == 0 with
    | true =>
      rw [List.filter_cons_of_neg (by simp [zero])]
      exact ih (same.add_zero zero)
    | false =>
      rw [List.filter_cons_of_pos (by simp [zero])]
      exact ih (same.add zero)

end SameButForZeros

/-- **Only equal numbers have no difference.** -/
theorem sub_beq_zero_iff {x y : Float} :
    (x - y == 0) = true ↔ (x == y) = true ∧ x.isFinite = true := by
  constructor
  · intro zero
    obtain ⟨sign, same⟩ := beq_zero_iff.mp zero
    obtain ⟨finite, finite'⟩ := isFinite_of_sub (congrArg UnpackedFloat.isFinite same)
    have multiple := (onFinestGrid_value x).add (onFinestGrid_value y).neg
    have same := sub_eq_zero.mp
      (eq_zero_of_rounds (roundsTo_sub finite finite') zero (by rwa [Rat.sub_eq_add_neg]))
    exact ⟨beq_of_le_of_le ((le_iff_value finite finite').mpr same.le)
      ((le_iff_value finite' finite).mpr same.ge), finite⟩
  · rintro ⟨same, finite⟩
    have same : (parts x).beq (parts y) = true := same
    have values : y.isFinite = true ∧ value x = value y := by
      rcases eq_or_zeros_of_beq same with parts | ⟨_, _, zero, zero'⟩
      · rw [← ext_parts parts]
        exact ⟨finite, rfl⟩
      · rw [value_of_parts_zero zero, value_of_parts_zero zero']
        exact ⟨congrArg UnpackedFloat.isFinite zero', rfl⟩
    have rounds := roundsTo_sub finite values.1
    rw [values.2, sub_self] at rounds
    exact beq_zero_of_rounds rounds

/-- A magnitude that is divided by the infinity is zero. -/
theorem abs_div_of_infinity {x y : Float} (finite : x.isFinite = true)
    (infinite : parts y = .infinity .positive) : x.abs / y = 0 := by
  have stored : x.abs / y = ofParts (UnpackedFloat.div .binary64 (parts x.abs) (parts y)) := rfl
  have finite : (parts x).isFinite = true := finite
  rw [stored, parts_abs, infinite]
  apply ofParts_eq
  rw [parts_zero]
  generalize parts x = u at finite
  cases u with
  | notANumber | infinity => cases finite
  | zero | finite => rfl

end Waveform.Binary64
