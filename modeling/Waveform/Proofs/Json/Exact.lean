import Waveform.Proofs.Float.Error
import Waveform.Proofs.Json.Number

/-!
# Numbers that are read exactly

The reader of numbers rounds the significand, and then a product or a quotient with a power of
ten. With a significand below `2 ^ 53` and a power of ten up to the 22nd, both operands are
floating-point numbers, so it rounds only once and gives the nearest number
(`exists_numeralFloat?`). A number that is written in this way is read back
(`isReadBack_of_isShort`). From the 23rd power on the power itself is rounded, and a number can be
missed.
-/

set_option autoImplicit false

namespace Waveform

open Binary64 Float.Model Float.Model.UnpackedFloat

/-- Whether a numeral has few digits and a small power of ten. -/
structure Decimal.Numeral.IsShort (numeral : Decimal.Numeral) : Prop where
  significand : numeral.significand < 2 ^ 53
  scale : numeral.scale.natAbs ≤ 22

namespace Json

open Decimal

/-! ## Significands -/

/-- Appending digits makes a number no less. -/
theorem le_foldl_digits (digits : List Char) (start : ℕ) :
    start ≤ digits.foldl (fun value c => 10 * value + digitValue c) start := by
  induction digits generalizing start with
  | nil => exact le_rfl
  | cons c digits ih => exact le_trans (by omega) (ih (10 * start + digitValue c))

/-- Digits are gathered completely if their number fits a word. -/
theorem gatherDigits_eq {digits : List Char} {start : ℕ}
    (fits : digits.foldl (fun value c => 10 * value + digitValue c) start < UInt64.size) :
    gatherDigits start digits =
      (digits.foldl (fun value c => 10 * value + digitValue c) start, 0) := by
  induction digits generalizing start with
  | nil => rfl
  | cons c digits ih =>
    have next := (le_foldl_digits digits (10 * start + digitValue c)).trans_lt fits
    rw [gatherDigits, if_pos next]
    exact ih fits

/-! ## Powers of ten -/

/-- Products of short numbers are far below the greatest number. -/
theorem short_le_greatest {n count : ℕ} (small : n ≤ 2 ^ 53) (few : count ≤ 22) :
    |(n : ℚ) * 10 ^ count| ≤ value greatest := by
  have digits : (n : ℚ) ≤ 2 ^ 53 := by exact_mod_cast small
  have ten : (10 : ℚ) ^ count ≤ 2 ^ 74 := (pow_le_pow_right₀ (by norm_num) few).trans (by norm_num)
  rw [abs_of_nonneg (by positivity)]
  calc (n : ℚ) * 10 ^ count ≤ 2 ^ 53 * 2 ^ 74 :=
        mul_le_mul digits ten (by positivity) (by positivity)
    _ = 2 ^ (127 : ℤ) := by norm_num
    _ ≤ value greatest := power_le_greatest (by norm_num)

/-- The powers of ten up to the 22nd are floating-point numbers. -/
theorem value_tens {count : ℕ} (few : count ≤ 22) :
    (Float.ofScientific 1 false count).isFinite = true ∧
      value (Float.ofScientific 1 false count) = 10 ^ count := by
  have rounds : RoundsTo (10 ^ count) (Float.ofScientific 1 false count) := by
    have rounded := ofScientific_isRounded 1 count
    rw [Nat.cast_one, Rat.one_mul, zpow_natCast] at rounded
    exact .inl rounded
  have small := short_le_greatest (by norm_num : 1 ≤ 2 ^ 53) few
  rw [Nat.cast_one, Rat.one_mul] at small
  have finite := rounds.isFinite small
  have digits : |(10 : ℚ) ^ count| = (5 ^ count : ℕ) * 2 ^ (count : ℤ) := by
    rw [abs_of_nonneg (by positivity), zpow_natCast, Nat.cast_pow, ← mul_pow]
    norm_num
  have fits : 5 ^ count < 2 ^ 53 :=
    (Nat.pow_le_pow_right (by norm_num) few).trans_lt (by norm_num)
  exact ⟨finite, rounds.value_eq finite digits fits (by omega)⟩

/-- What is positive has one nearest number, which has no sign. -/
theorem isRounded_of_roundsTo {q : ℚ} {x : Float} (positive : 0 < q) (rounds : RoundsTo q x) :
    IsRounded q x := by
  rcases rounds with rounded | rounded
  · exact rounded
  · exact absurd rounded.nonneg (by linarith)

section Operations

variable {n count : ℕ} (small : n < 2 ^ 53) (few : count ≤ 22)

include few

/-- A zero stays a zero. -/
theorem parts_zero_tens :
    parts (Float.ofNat 0 / Float.ofScientific 1 false count) = .zero .positive ∧
      parts (Float.ofNat 0 * Float.ofScientific 1 false count) = .zero .positive := by
  obtain ⟨_, ten⟩ := value_tens few
  have zero : parts (Float.ofNat 0) = .zero .positive := parts_ofScientific_zero false 0
  obtain ⟨mantissa, exponent, canonical, _, same⟩ :=
    exists_parts_of_pos (ten ▸ pow_pos (by norm_num) count)
  have quotient : Float.ofNat 0 / Float.ofScientific 1 false count = ofParts (UnpackedFloat.div
    .binary64 (parts (Float.ofNat 0)) (parts (Float.ofScientific 1 false count))) := rfl
  have product : Float.ofNat 0 * Float.ofScientific 1 false count = ofParts (UnpackedFloat.mul
    .binary64 (parts (Float.ofNat 0)) (parts (Float.ofScientific 1 false count))) := rfl
  rw [quotient, product, zero, same]
  exact ⟨parts_ofParts trivial, parts_ofParts trivial⟩

include small

/-- A whole number is divided by a power of ten and rounded once. -/
theorem isRounded_divideByPower :
    IsRounded (n / 10 ^ count) (divideByPower (Float.ofNat n) count) := by
  have power : count ≤ maxPower := few.trans (by decide)
  obtain ⟨finite, ten⟩ := value_tens few
  rw [divideByPower, if_pos power]
  rcases Nat.eq_zero_or_pos n with rfl | some
  · exact .inl ⟨by simp, (parts_zero_tens few).1⟩
  · have rounds := roundsTo_div (isFinite_ofNat small) finite (by rw [ten]; positivity)
    rw [value_ofNat small, ten] at rounds
    exact isRounded_of_roundsTo (div_pos (by exact_mod_cast some) (by positivity)) rounds

/-- A whole number is multiplied by a power of ten and rounded once. -/
theorem exists_multiplyByPower? : ∃ product,
    multiplyByPower? (Float.ofNat n) count = some product ∧ IsRounded (n * 10 ^ count) product := by
  have power : count ≤ maxPower := few.trans (by decide)
  obtain ⟨finite, ten⟩ := value_tens few
  have rounds := roundsTo_mul (isFinite_ofNat small) finite
  rw [value_ofNat small, ten] at rounds
  have infinite : (Float.ofNat n * Float.ofScientific 1 false count).isInf = false :=
    isInf_of_isFinite (rounds.isFinite (short_le_greatest small.le few))
  have product : multiplyByPower? (Float.ofNat n) count =
      some (Float.ofNat n * Float.ofScientific 1 false count) := by
    rw [multiplyByPower?, if_pos power]
    exact if_neg (Bool.eq_false_iff.mp infinite)
  refine ⟨_, product, ?_⟩
  rcases Nat.eq_zero_or_pos n with rfl | some
  · exact .inl ⟨by simp, (parts_zero_tens few).2⟩
  · exact isRounded_of_roundsTo (mul_pos (by exact_mod_cast some) (by positivity)) rounds

end Operations

/-! ## Short numerals -/

/-- **A short numeral is read as the nearest number.** -/
theorem exists_numeralFloat? {numeral : Numeral} (short : numeral.IsShort) : ∃ magnitude,
    numeralFloat? numeral = some (if numeral.negative then -magnitude else magnitude) ∧
      IsRounded numeral.value magnitude := by
  obtain ⟨small, near⟩ := short
  have split : numeral.significand = numeral.fraction.foldl
      (fun value c => 10 * value + digitValue c) (digitsValue numeral.whole) :=
    List.foldl_append
  have fits : numeral.significand < UInt64.size := small.trans (by decide)
  have whole : gatherDigits 0 numeral.whole = (digitsValue numeral.whole, 0) :=
    gatherDigits_eq ((le_foldl_digits numeral.fraction _).trans_lt (split ▸ fits))
  have fraction : gatherDigits (digitsValue numeral.whole) numeral.fraction =
      (numeral.significand, 0) := by
    rw [split] at fits ⊢
    exact gatherDigits_eq fits
  have magnitude : magnitude? numeral =
      if numeral.scale < 0 then
        some (divideByPower (Float.ofNat numeral.significand) numeral.scale.natAbs)
      else multiplyByPower? (Float.ofNat numeral.significand) numeral.scale.natAbs := by
    simp only [magnitude?, whole, fraction, Nat.sub_zero, Nat.cast_zero, add_zero]
    rfl
  rw [numeralFloat?, magnitude, Numeral.value]
  by_cases negative : numeral.scale < 0
  · have tens : (10 : ℚ) ^ numeral.scale = (10 ^ numeral.scale.natAbs)⁻¹ := by
      rw [← zpow_natCast, ← zpow_neg]
      congr 1
      omega
    rw [if_pos negative, tens, ← div_eq_mul_inv]
    exact ⟨_, rfl, isRounded_divideByPower small near⟩
  · have tens : (10 : ℚ) ^ numeral.scale = 10 ^ numeral.scale.natAbs := by
      rw [← zpow_natCast]
      congr 1
      omega
    obtain ⟨product, same, rounded⟩ := exists_multiplyByPower? small near
    rw [if_neg negative, tens, same]
    exact ⟨product, rfl, rounded⟩

/-! ## Short numbers -/

/-- Digits with an exponent are written with their value. -/
theorem value_scientific (negative : Bool) {digits : Digits} (nonempty : digits.digits ≠ []) :
    (Layout.scientific negative digits).value = digits.value := by
  obtain ⟨digits, point⟩ := digits
  have some : 0 < digits.length := List.length_pos_iff.mpr nonempty
  have power (n : ℤ) : Exponent.value ⟨n < 0, Nat.toDigits 10 n.natAbs⟩ = n := by
    rw [Exponent.value, digitsValue_toDigits]
    by_cases below : n < 0
    · rw [if_pos (by simpa using below)]
      omega
    · rw [if_neg (by simpa using below)]
      omega
  have scale : (Layout.scientific negative ⟨digits, point⟩).scale = point - digits.length := by
    change Exponent.value ⟨point - 1 < 0, Nat.toDigits 10 (point - 1).natAbs⟩ -
      ((digits.drop 1).length : ℤ) = _
    rw [power, List.length_drop]
    omega
  have significand : (Layout.scientific negative ⟨digits, point⟩).significand =
      digitsValue digits :=
    congrArg digitsValue (List.take_append_drop 1 digits)
  rw [Numeral.value, scale, significand, Digits.value]

theorem negative_place (layout : Layout) (negative : Bool) (digits : Digits) :
    (layout.place negative digits).negative = negative := by
  unfold Layout.place
  dsimp only
  split
  · rfl
  · split <;> rfl

/-- The numeral of a number with a mantissa has the digits of its shortest decimal, and its sign. -/
theorem numeral?_json {x : Float} {sign : Sign} {mantissa : ℕ} {exponent : ℤ}
    {positive : 0 < mantissa} (same : parts x = .finite sign mantissa exponent positive) :
    ∃ negative : Bool,
      Layout.json.numeral? x =
        (let value := shortest .toEven mantissa exponent
        if Layout.json.isPositional (value.point - 1) then some (Layout.json.place negative value)
        else some (Layout.scientific negative value)) ∧
      ∀ magnitude, parts magnitude = .finite .positive mantissa exponent positive →
        (if negative then -magnitude else magnitude) = x := by
  have unpacked : x.toModel.unpack = .finite sign mantissa exponent positive := same
  cases sign with
  | positive =>
    refine ⟨false, ?_, fun magnitude unsigned => ?_⟩
    · simp only [Layout.numeral?, unpacked]
      rfl
    · rw [if_neg Bool.false_ne_true]
      exact ext_parts (unsigned.trans same.symm)
  | negative =>
    refine ⟨true, ?_, fun magnitude unsigned => ?_⟩
    · simp only [Layout.numeral?, unpacked]
      rfl
    · rw [if_pos rfl]
      refine ext_parts ?_
      rw [parts_neg, unsigned, same]
      rfl

/-- Such a numeral has the value of the decimal. -/
theorem exists_numeral? {x : Float} {sign : Sign} {mantissa : ℕ} {exponent : ℤ}
    {positive : 0 < mantissa} (same : parts x = .finite sign mantissa exponent positive) :
    ∃ numeral, Layout.json.numeral? x = some numeral ∧
      numeral.value = (shortest .toEven mantissa exponent).value ∧
      ∀ magnitude, parts magnitude = .finite .positive mantissa exponent positive →
        (if numeral.negative then -magnitude else magnitude) = x := by
  have written := (isAround_shortest .toEven positive exponent).2
  obtain ⟨negative, found, signed⟩ := numeral?_json same
  rw [found]
  dsimp only
  split
  · refine ⟨_, rfl, (value_place negative .json written).1, ?_⟩
    rwa [negative_place]
  · exact ⟨_, rfl, value_scientific negative written.nonempty, signed⟩

/-- **A number that is written as a short numeral is read back.** -/
theorem isReadBack_of_isShort {x : Float}
    (short : ∀ numeral, Layout.json.numeral? x = some numeral → numeral.IsShort) :
    IsReadBack x := by
  intro finite
  have finite : (parts x).isFinite = true := finite
  cases same : parts x with
  | notANumber | infinity => rw [same] at finite; cases finite
  | zero sign =>
    cases sign with
    | positive =>
      obtain rfl : x = 0 := ext_parts (same.trans parts_zero.symm)
      decide +kernel
    | negative =>
      have minus : parts (-0) = .zero .negative := by rw [parts_neg, parts_zero]; rfl
      obtain rfl : x = -0 := ext_parts (same.trans minus.symm)
      decide +kernel
  | finite sign mantissa exponent positive =>
    obtain ⟨numeral, found, value, signed⟩ := exists_numeral? same
    obtain ⟨magnitude, read, rounded⟩ := exists_numeralFloat? (short numeral found)
    obtain ⟨canonical, bound⟩ := canonical_parts x
    rw [same] at canonical bound
    have small : exponent ≤ 971 := by
      by_contra large
      rw [bounded, if_pos (not_le.mp large)] at bound
      cases bound
    rw [value] at rounded
    have around := (isAround_shortest .toEven positive exponent).1
    have number : ofFloat x = .number numeral := by rw [ofFloat, found]
    rw [number]
    exact read.trans (congrArg some (signed magnitude (rounded.parts_eq canonical small around)))

-- one power further than a short numeral, and the last digit is lost
example : ¬ IsReadBack 1e-23 := by decide +kernel

end Json

end Waveform
