import Waveform.Proofs.Float.Rounded

/-!
# Finite results

The result of an operation is finite when its value is not beyond a finite number
(`RoundsTo.isWithin`), and only if its operands are. Otherwise it is an infinity or a
NaN, and so is all that is computed from it.
-/

set_option autoImplicit false

namespace Waveform.Binary64

open Float.Model Float.Model.UnpackedFloat

/-- Whether a number is finite and its value lies within two values. -/
structure IsWithin (low high : ℚ) (x : Float) : Prop where
  finite : x.isFinite = true
  low_le : low ≤ value x
  le_high : value x ≤ high

/-- A number that is at most as large as a finite one is finite. -/
theorem isWithin_of_abs_le {x limit : Float} (finite : limit.isFinite = true) (le : x.abs ≤ limit) :
    IsWithin (-value limit) (value limit) x := by
  have number := (isNaN_of_le le).1
  rw [isNaN_abs] at number
  have finite' := isFinite_of_between (zero_le_abs number) le isFinite_zero finite
  rw [le_iff_value finite' finite, value_abs] at le
  rw [isFinite_abs] at finite'
  exact ⟨finite', (abs_le.mp le).1, (abs_le.mp le).2⟩

namespace RoundsTo

variable {q : ℚ} {x y : Float}

theorem le_of_le_value (rounds : RoundsTo q x) (finite : y.isFinite = true) (le : q ≤ value y) :
    x ≤ y :=
  rounds.mono (roundsTo_value finite) le

theorem ge_of_value_le (rounds : RoundsTo q x) (finite : y.isFinite = true) (le : value y ≤ q) :
    y ≤ x :=
  (roundsTo_value finite).mono rounds le

/-- **What lies within two finite numbers is rounded to a number within these.** -/
theorem isWithin {low high : Float} (rounds : RoundsTo q x) (finite : low.isFinite = true)
    (finite' : high.isFinite = true) (above : value low ≤ q) (below : q ≤ value high) :
    IsWithin (value low) (value high) x := by
  have above := rounds.ge_of_value_le finite above
  have below := rounds.le_of_le_value finite' below
  have within := isFinite_of_between above below finite finite'
  exact ⟨within, (le_iff_value finite within).mp above, (le_iff_value within finite').mp below⟩

/-- What is at most as large as a number is rounded to at most what that is rounded to. -/
theorem isWithin_of_abs_le {bound : ℚ} (rounds : RoundsTo q x) (rounds' : RoundsTo bound y)
    (finite : y.isFinite = true) (le : |q| ≤ bound) : IsWithin (-value y) (value y) x := by
  obtain ⟨low, high⟩ := abs_le.mp le
  have above : -y ≤ x := rounds'.neg.mono rounds low
  have below : x ≤ y := rounds.mono rounds' high
  have finite' : (-y).isFinite = true := by rwa [isFinite_neg]
  have within := isFinite_of_between above below finite' finite
  rw [le_iff_value finite' within, value_neg] at above
  exact ⟨within, above, (le_iff_value within finite).mp below⟩

/-- What lies between zero and a number is rounded to a number between these. -/
theorem isWithin_of_nonneg (rounds : RoundsTo q x) (finite : y.isFinite = true) (nonneg : 0 ≤ q)
    (le : q ≤ value y) : IsWithin 0 (value y) x := by
  have within := rounds.isWithin isFinite_zero finite (by rwa [value_zero]) le
  rwa [value_zero] at within

theorem isWithin_one (rounds : RoundsTo q x) (nonneg : 0 ≤ q) (le : q ≤ 1) : IsWithin 0 1 x := by
  rw [← value_one] at le ⊢
  exact rounds.isWithin_of_nonneg isFinite_one nonneg le

/-- A zero is rounded to a zero. -/
theorem isWithin_zero (rounds : RoundsTo 0 x) : IsWithin 0 0 x := by
  have within := rounds.isWithin_of_nonneg isFinite_zero le_rfl value_zero.ge
  rwa [value_zero] at within

/-- What is positive and not rounded to a finite number is rounded to the infinity. -/
theorem parts_eq_infinity (rounds : RoundsTo q x) (positive : 0 < q)
    (infinite : x.isFinite = false) :
    parts x = .infinity .positive := by
  have infinite : (parts x).isFinite = false := infinite
  rcases rounds with rounded | rounded
  · rcases rounded with ⟨rfl, _⟩ | ⟨_, u, rounds, same⟩
    · exact absurd positive (lt_irrefl 0)
    · rcases rounds.bounded_cases with ⟨large, _⟩ | ⟨stored, finite, _⟩
      · rw [same, large]
      · rw [same, stored, finite] at infinite
        cases infinite
  · exact absurd rounded.nonneg (by linarith)

end RoundsTo

/-! ## Operands of finite results -/

/-- What is stored for an infinity or a NaN is that. -/
theorem parts_ofParts_of_not_isFinite {u : UnpackedFloat} (infinite : u.isFinite = false) :
    parts (ofParts u) = u := by
  cases u with
  | zero | finite => cases infinite
  | infinity | notANumber => exact parts_ofParts trivial

theorem isFinite_of_ofParts {u : UnpackedFloat} (finite : (ofParts u).isFinite = true) :
    u.isFinite = true := by
  by_contra infinite
  have infinite := Bool.eq_false_iff.mpr infinite
  have finite : (parts (ofParts u)).isFinite = true := finite
  rw [parts_ofParts_of_not_isFinite infinite, infinite] at finite
  cases finite

section Operands

variable {x y : Float}

theorem isFinite_of_add (finite : (x + y).isFinite = true) :
    x.isFinite = true ∧ y.isFinite = true := by
  have finite : (UnpackedFloat.add .binary64 (parts x) (parts y)).isFinite = true :=
    isFinite_of_ofParts finite
  change (parts x).isFinite = true ∧ (parts y).isFinite = true
  generalize parts x = u, parts y = v at finite ⊢
  cases u with
  | notANumber => cases finite
  | infinity s₁ =>
    cases v with
    | infinity s₂ => cases s₁ <;> cases s₂ <;> cases finite
    | notANumber | zero | finite => cases finite
  | zero | finite =>
    cases v with
    | notANumber | infinity => cases finite
    | zero | finite => exact ⟨rfl, rfl⟩

theorem isFinite_of_sub (finite : (x - y).isFinite = true) :
    x.isFinite = true ∧ y.isFinite = true := by
  rw [Binary64.sub_eq_add_neg] at finite
  obtain ⟨first, second⟩ := isFinite_of_add finite
  exact ⟨first, by rwa [isFinite_neg] at second⟩

theorem isFinite_of_mul (finite : (x * y).isFinite = true) :
    x.isFinite = true ∧ y.isFinite = true := by
  have finite : (UnpackedFloat.mul .binary64 (parts x) (parts y)).isFinite = true :=
    isFinite_of_ofParts finite
  change (parts x).isFinite = true ∧ (parts y).isFinite = true
  generalize parts x = u, parts y = v at finite ⊢
  cases u with
  | notANumber => cases finite
  | infinity => cases v <;> cases finite
  | zero | finite =>
    cases v with
    | notANumber | infinity => cases finite
    | zero | finite => exact ⟨rfl, rfl⟩

end Operands

/-! ## Infinities and NaN -/

section Infinity

variable {x y : Float}

theorem isNaN_of_infinity {sign : Sign} (infinite : parts x = .infinity sign) :
    x.isNaN = false := by
  change (parts x).isNaN = false
  rw [infinite]
  rfl

theorem parts_add_of_nan (nan : parts y = .notANumber) : parts (x + y) = .notANumber := by
  have stored : x + y = ofParts (UnpackedFloat.add .binary64 (parts x) (parts y)) := rfl
  have same : UnpackedFloat.add .binary64 (parts x) .notANumber = .notANumber := by
    cases parts x <;> rfl
  rw [stored, nan, same]
  exact parts_ofParts_of_not_isFinite rfl

theorem parts_sub_of_nan (nan : parts y = .notANumber) : parts (x - y) = .notANumber := by
  rw [Binary64.sub_eq_add_neg]
  apply parts_add_of_nan
  rw [parts_neg, nan]
  rfl

theorem parts_sub_of_nan_left (nan : parts x = .notANumber) : parts (x - y) = .notANumber := by
  have stored : x - y = ofParts (UnpackedFloat.sub .binary64 (parts x) (parts y)) := rfl
  rw [stored, nan]
  exact parts_ofParts_of_not_isFinite rfl

theorem parts_mul_of_nan (nan : parts x = .notANumber) : parts (x * y) = .notANumber := by
  have stored : x * y = ofParts (UnpackedFloat.mul .binary64 (parts x) (parts y)) := rfl
  rw [stored, nan]
  exact parts_ofParts_of_not_isFinite rfl

theorem parts_add_infinity {sign : Sign} (finite : x.isFinite = true)
    (infinite : parts y = .infinity sign) : parts (x + y) = .infinity sign := by
  have stored : x + y = ofParts (UnpackedFloat.add .binary64 (parts x) (parts y)) := rfl
  have finite : (parts x).isFinite = true := finite
  have same : UnpackedFloat.add .binary64 (parts x) (.infinity sign) = .infinity sign := by
    generalize parts x = u at finite
    cases u with
    | notANumber | infinity => cases finite
    | zero | finite => rfl
  rw [stored, infinite, same]
  exact parts_ofParts_of_not_isFinite rfl

theorem parts_infinity_add_infinity {sign : Sign} (infinite : parts x = .infinity sign)
    (infinite' : parts y = .infinity sign) : parts (x + y) = .infinity sign := by
  have stored : x + y = ofParts (UnpackedFloat.add .binary64 (parts x) (parts y)) := rfl
  have same : UnpackedFloat.add .binary64 (.infinity sign) (.infinity sign) = .infinity sign := by
    cases sign <;> rfl
  rw [stored, infinite, infinite', same]
  exact parts_ofParts_of_not_isFinite rfl

theorem parts_infinity_sub_infinity (infinite : parts x = .infinity .positive)
    (infinite' : parts y = .infinity .positive) : parts (x - y) = .notANumber := by
  have stored : x - y = ofParts (UnpackedFloat.sub .binary64 (parts x) (parts y)) := rfl
  rw [stored, infinite, infinite']
  exact parts_ofParts_of_not_isFinite rfl

theorem parts_zero_mul_infinity {sign : Sign} (zero : parts x = .zero sign)
    (infinite : parts y = .infinity .positive) : parts (x * y) = .notANumber := by
  have stored : x * y = ofParts (UnpackedFloat.mul .binary64 (parts x) (parts y)) := rfl
  rw [stored, zero, infinite]
  exact parts_ofParts_of_not_isFinite rfl

/-- The infinity keeps its sign when it is multiplied or divided by a positive number. -/
theorem parts_mul_infinity {mantissa : ℕ} {exponent : ℤ} {some : 0 < mantissa}
    (positive : parts x = .finite .positive mantissa exponent some)
    (infinite : parts y = .infinity .positive) : parts (x * y) = .infinity .positive := by
  have stored : x * y = ofParts (UnpackedFloat.mul .binary64 (parts x) (parts y)) := rfl
  rw [stored, positive, infinite]
  exact parts_ofParts_of_not_isFinite rfl

theorem parts_infinity_div {mantissa : ℕ} {exponent : ℤ} {some : 0 < mantissa}
    (infinite : parts x = .infinity .positive)
    (positive : parts y = .finite .positive mantissa exponent some) :
    parts (x / y) = .infinity .positive := by
  have stored : x / y = ofParts (UnpackedFloat.div .binary64 (parts x) (parts y)) := rfl
  rw [stored, positive, infinite]
  exact parts_ofParts_of_not_isFinite rfl

end Infinity

end Waveform.Binary64
