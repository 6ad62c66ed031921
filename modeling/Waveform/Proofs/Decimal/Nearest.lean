import Waveform.Decimal.Numeral
import Waveform.Proofs.Float.Operations

/-!
# Decimals as floating-point numbers

A whole number times a power of ten is read as the floating-point number nearest to it
(`ofScientific_isRounded`). There are two ways in which that is computed. Small numbers and
small powers are floating-point numbers themselves, so their product or quotient is rounded
once. For all others the parts are computed from the whole numbers; powers that lead beyond
the range of all floating-point numbers are not computed, and the infinity or the zero that
is taken instead is what they would be rounded to.
-/

set_option autoImplicit false

namespace Waveform.Binary64

open Float.Model Float.Model.UnpackedFloat

/-! ## Whole numbers -/

/-- Every positive number is rounded to some parts. -/
theorem exists_rounds (sign : Sign) {q : ℚ} (positive : 0 < q) : ∃ u, Rounds sign q u := by
  have num : 0 < q.num.natAbs := Int.natAbs_pos.mpr (Rat.num_pos.mpr positive).ne'
  have rounds : Rounds (sign / .positive) _ (UnpackedFloat.div .binary64
      (.finite sign q.num.natAbs 0 num) (.finite .positive q.den 0 q.den_pos)) := rounds_div
  have value : ((q.num.natAbs : ℕ) : ℚ) * 2 ^ (0 : ℤ) / ((q.den : ℕ) * 2 ^ (0 : ℤ)) = q := by
    rw [zpow_zero, mul_one, mul_one, Nat.cast_natAbs, abs_of_pos (Rat.num_pos.mpr positive)]
    exact Rat.num_div_den q
  have same : sign / Sign.positive = sign := by cases sign <;> rfl
  rw [value, same] at rounds
  exact ⟨_, rounds⟩

/-- Whole numbers of at most 53 digits have canonical parts. -/
theorem exists_canonical {whole : ℕ} (positive : 0 < whole) (fits : whole < 2 ^ 53) :
    ∃ (mantissa : ℕ) (exponent : ℤ), IsCanonical mantissa exponent ∧ 2 ^ 52 ≤ mantissa ∧
      exponent ≤ 971 ∧ (mantissa : ℚ) * 2 ^ exponent = whole := by
  have digits : whole.log2 < 53 := (Nat.log2_lt (by omega)).mpr fits
  have low : 2 ^ whole.log2 ≤ whole := Nat.log2_self_le (by omega)
  have high : whole < 2 ^ (whole.log2 + 1) := Nat.lt_log2_self
  have full : 2 ^ 52 ≤ whole * 2 ^ (52 - whole.log2) := by
    calc 2 ^ 52 = 2 ^ whole.log2 * 2 ^ (52 - whole.log2) := by rw [← Nat.pow_add]; congr 1; omega
      _ ≤ whole * 2 ^ (52 - whole.log2) := Nat.mul_le_mul_right _ low
  have below : whole * 2 ^ (52 - whole.log2) < 2 ^ 53 := by
    calc whole * 2 ^ (52 - whole.log2)
        < 2 ^ (whole.log2 + 1) * 2 ^ (52 - whole.log2) :=
          Nat.mul_lt_mul_of_pos_right high (Nat.two_pow_pos _)
      _ = 2 ^ 53 := by rw [← Nat.pow_add]; congr 1; omega
  refine ⟨_, -((52 - whole.log2 : ℕ) : ℤ), ⟨by omega, below, by omega, .inl full⟩, full, by omega,
    ?_⟩
  rw [zpow_neg, zpow_natCast]
  push_cast
  rw [mul_assoc, mul_inv_cancel₀ (by positivity), mul_one]

/-- A mantissa is moved to the grid before it is rounded. -/
theorem rounds_round (sign : Sign) {mantissa : ℕ} (positive : 0 < mantissa) (exponent : ℤ) :
    Rounds sign (mantissa * 2 ^ exponent)
      (UnpackedFloat.round .binary64 sign mantissa exponent) := by
  obtain ⟨shift, shiftEq⟩ : ∃ shift : ℕ,
      (exponent - max ((mantissa.log2 : ℤ) + exponent - 52) (-1074)).toNat = shift := ⟨_, rfl⟩
  simp only [UnpackedFloat.round, decreaseExponent, targetExponent_eq, shiftEq]
  refine rounds_of_describes _ ?_ ?_
  · change _ = ((mantissa <<< shift : ℕ) : ℚ)
    rw [div_eq_iff (power_pos _).ne', Nat.shiftLeft_eq]
    push_cast
    rw [mul_assoc, ← zpow_natCast, ← zpow_add₀ (by norm_num), add_sub_cancel]
  · have digits : (mantissa <<< shift).log2 = mantissa.log2 + shift := by
      rw [Nat.shiftLeft_eq, Nat.log2_eq_iff (by positivity)]
      have low : 2 ^ mantissa.log2 ≤ mantissa := Nat.log2_self_le (by omega)
      have high : mantissa < 2 ^ (mantissa.log2 + 1) := Nat.lt_log2_self
      constructor
      · rw [Nat.pow_add]
        exact Nat.mul_le_mul_right _ low
      · rw [show mantissa.log2 + shift + 1 = mantissa.log2 + 1 + shift by omega, Nat.pow_add]
        exact Nat.mul_lt_mul_of_pos_right high (Nat.two_pow_pos _)
    rw [digits]
    omega

/-- A small whole number is converted without rounding. -/
theorem parts_toFloat {whole : ℕ} (positive : 0 < whole) (fits : whole < 2 ^ 53) :
    ∃ (mantissa : ℕ) (exponent : ℤ) (canonical : IsCanonical mantissa exponent),
      2 ^ 52 ≤ mantissa ∧ (mantissa : ℚ) * 2 ^ exponent = whole ∧
        parts whole.toUInt64.toFloat = .finite .positive mantissa exponent canonical.positive := by
  obtain ⟨mantissa, exponent, canonical, full, small, value⟩ := exists_canonical positive fits
  refine ⟨mantissa, exponent, canonical, full, value, ?_⟩
  have word : whole.toUInt64.toNat = whole := Nat.mod_eq_of_lt (by omega)
  have rounds := rounds_round .positive positive 0
  rw [zpow_zero, mul_one, ← value] at rounds
  have exact : UnpackedFloat.round .binary64 .positive whole 0 =
      .finite .positive mantissa exponent canonical.positive := rounds.eq_of_canonical canonical
  have converted : UnpackedFloat.ofUInt64 .binary64 whole.toUInt64 =
      .finite .positive mantissa exponent canonical.positive := by
    rw [UnpackedFloat.ofUInt64, word, UnpackedFloat.ofNat, UnpackedFloat.ofInt,
      UnpackedFloat.normalize, Int.compare_eq_gt.mpr (by omega)]
    exact exact
  change parts (ofParts (UnpackedFloat.ofUInt64 .binary64 whole.toUInt64)) = _
  rw [converted, parts_ofParts_finite canonical small]

/-! ## Powers of ten -/

/-- Whether parts are a positive full mantissa whose value is a whole number. -/
def isFull (whole : ℕ) : UnpackedFloat → Bool
  | .finite .positive mantissa exponent _ =>
    2 ^ 52 ≤ mantissa && mantissa * 2 ^ exponent.toNat == whole * 2 ^ (-exponent).toNat
  | _ => false

/-- The powers of ten that are floating-point numbers. -/
theorem parts_powersOfTen (power : Fin Float.exactlyRepresentablePowersOfTen.size) :
    isFull (10 ^ power.val) (parts Float.exactlyRepresentablePowersOfTen[power]) = true := by
  revert power
  decide +kernel

theorem exists_of_isFull {whole : ℕ} {u : UnpackedFloat} (full : isFull whole u = true) :
    ∃ (mantissa : ℕ) (exponent : ℤ) (positive : 0 < mantissa), 2 ^ 52 ≤ mantissa ∧
      (mantissa : ℚ) * 2 ^ exponent = whole ∧ u = .finite .positive mantissa exponent positive := by
  cases u with
  | finite sign mantissa exponent positive =>
    cases sign with
    | negative => cases full
    | positive =>
      simp only [isFull, Bool.and_eq_true, decide_eq_true_eq, beq_iff_eq] at full
      obtain ⟨digits, same⟩ := full
      refine ⟨mantissa, exponent, positive, digits, ?_, rfl⟩
      have same : (mantissa : ℚ) * 2 ^ exponent.toNat = whole * 2 ^ (-exponent).toNat := by
        exact_mod_cast same
      have moved : (2 : ℚ) ^ exponent * 2 ^ (-exponent).toNat = 2 ^ exponent.toNat := by
        rw [← zpow_natCast, ← zpow_natCast, ← zpow_add₀ (by norm_num)]
        congr 1
        omega
      have power : (0 : ℚ) < 2 ^ (-exponent).toNat := by positivity
      refine mul_right_cancel₀ power.ne' ?_
      rw [mul_assoc, moved, same]
  | infinity | notANumber | zero => cases full

/-! ## Decimals -/

/-- Whether a floating-point number is the nearest one to a number that is not negative. -/
def IsRounded (q : ℚ) (x : Float) : Prop :=
  (q = 0 ∧ parts x = .zero .positive) ∨
    (0 < q ∧ ∃ u, Rounds .positive q u ∧ parts x = bounded u)

theorem isRounded_of_rounds {q : ℚ} {u : UnpackedFloat} (positive : 0 < q)
    (rounds : Rounds .positive q u) : IsRounded q (ofParts u) :=
  .inr ⟨positive, u, rounds, parts_ofParts rounds.canonical⟩

/-- What is beyond all floating-point numbers is rounded to an infinity. -/
theorem isRounded_infinity {q : ℚ} (large : 2 ^ 1024 ≤ q) :
    IsRounded q (ofParts (.infinity .positive)) := by
  have positive : 0 < q := lt_of_lt_of_le (by positivity) large
  obtain ⟨u, rounds⟩ := exists_rounds .positive positive
  refine .inr ⟨positive, u, rounds, ?_⟩
  obtain ⟨whole, exponent, grid, nearest, rfl⟩ := rounds
  have far : 971 < exponent := by
    by_contra near
    have power : (2 : ℚ) ^ 53 * 2 ^ exponent ≤ 2 ^ 1024 * 2 ^ (0 : ℤ) := power_le (by omega)
    rw [zpow_zero, mul_one] at power
    linarith [grid.below]
  have full := grid.full.resolve_right (by omega)
  have some : 2 ^ 52 ≤ whole := by
    refine nearest.ge_of_le ?_
    rw [le_div_iff₀ (power_pos exponent)]
    exact_mod_cast full
  rw [carried, dif_neg (by omega)]
  split
  · exact (if_pos far).symm
  · exact (if_pos (by omega)).symm

/-- What is below half of the least positive floating-point number is rounded to zero. -/
theorem isRounded_zero {q : ℚ} (positive : 0 < q) (small : q < 2 ^ (-1075 : ℤ)) :
    IsRounded q (ofParts (.zero .positive)) := by
  obtain ⟨u, rounds⟩ := exists_rounds .positive positive
  refine .inr ⟨positive, u, rounds, ?_⟩
  obtain ⟨whole, exponent, grid, nearest, rfl⟩ := rounds
  have least : exponent = -1074 := by
    refine grid.full.resolve_left ?_
    intro full
    have lowest := grid.lowest
    have power : (2 : ℚ) ^ 0 * 2 ^ (-1075 : ℤ) ≤ 2 ^ 52 * 2 ^ exponent := power_le (by omega)
    linarith
  subst least
  have half : q / 2 ^ (-1074 : ℤ) < 1 / 2 := by
    rw [div_lt_iff₀ (power_pos _)]
    refine lt_of_lt_of_eq small ?_
    rw [show (-1075 : ℤ) = -1 + -1074 by norm_num, zpow_add₀ (by norm_num)]
    norm_num
  have none : whole = 0 := by
    by_contra some
    have some : (1 : ℚ) ≤ whole := by exact_mod_cast Nat.one_le_iff_ne_zero.mpr some
    linarith [nearest.low]
  rw [carried, dif_pos none]
  rfl

section Scientific

variable {digits : ℕ} (some : 0 < digits)
include some

theorem isRounded_of_large {power : ℤ} (large : 2048 < power) :
    IsRounded (digits * 10 ^ power) (ofParts (.infinity .positive)) := by
  have atLeast : (1 : ℚ) ≤ digits := by exact_mod_cast some
  refine isRounded_infinity ?_
  calc (2 : ℚ) ^ 1024 ≤ 10 ^ 1024 := pow_le_pow_left₀ (by norm_num) (by norm_num) _
    _ = 10 ^ (1024 : ℤ) := (zpow_natCast _ _).symm
    _ ≤ 10 ^ power := zpow_le_zpow_right₀ (by norm_num) (by omega)
    _ ≤ digits * 10 ^ power := le_mul_of_one_le_left (by positivity) atLeast

theorem isRounded_of_small {power : ℤ} (small : power < -(2048 + digits.log2)) :
    IsRounded (digits * 10 ^ power) (ofParts (.zero .positive)) := by
  have positive : (0 : ℚ) < digits := by exact_mod_cast some
  obtain ⟨drop, rfl⟩ : ∃ drop : ℕ, power = -(drop : ℤ) := ⟨power.natAbs, by omega⟩
  have below : (digits : ℚ) < 2 ^ (digits.log2 + 1) := by
    exact_mod_cast Nat.lt_log2_self (n := digits)
  have tens : (10 : ℚ) ^ (-(drop : ℤ)) ≤ 2 ^ (-(drop : ℤ)) := by
    rw [zpow_neg, zpow_neg, zpow_natCast, zpow_natCast]
    exact inv_anti₀ (by positivity) (pow_le_pow_left₀ (by norm_num) (by norm_num) _)
  have powers : (2 : ℚ) ^ (digits.log2 + 1) * 2 ^ (-(drop : ℤ)) ≤ 2 ^ 0 * 2 ^ (-1075 : ℤ) :=
    power_le (by omega)
  rw [pow_zero, one_mul] at powers
  refine isRounded_zero (by positivity) ?_
  calc (digits : ℚ) * 10 ^ (-(drop : ℤ)) ≤ digits * 2 ^ (-(drop : ℤ)) := by gcongr
    _ < 2 ^ (digits.log2 + 1) * 2 ^ (-(drop : ℤ)) := by gcongr
    _ ≤ 2 ^ (-1075 : ℤ) := powers

/-- The product with a power of ten, which is given more digits than it needs. -/
theorem rounds_mul_ten (power : ℕ) (shifted : 0 < digits <<< 53) (ten : 0 < 10 ^ power) :
    Rounds .positive (digits * 10 ^ (power : ℤ)) (UnpackedFloat.mul .binary64
      (.finite .positive (digits <<< 53) (-53) shifted)
      (.finite .positive (10 ^ power) 0 ten)) := by
  have many : 2 ^ 52 ≤ digits <<< 53 * 10 ^ power := by
    rw [Nat.shiftLeft_eq]
    calc 2 ^ 52 ≤ 1 * 2 ^ 53 * 1 := by decide
      _ ≤ digits * 2 ^ 53 * 10 ^ power := Nat.mul_le_mul (Nat.mul_le_mul_right _ some) ten
  have rounds : Rounds (.positive * .positive) _ (UnpackedFloat.mul .binary64
      (.finite .positive (digits <<< 53) (-53) shifted) (.finite .positive (10 ^ power) 0 ten)) :=
    rounds_mul (.inl ((Nat.le_log2 (by omega)).mpr many))
  have value : ((digits <<< 53 : ℕ) : ℚ) * 2 ^ (-53 : ℤ) * ((10 ^ power : ℕ) * 2 ^ (0 : ℤ)) =
      digits * 10 ^ (power : ℤ) := by
    rw [Nat.shiftLeft_eq, zpow_natCast, zpow_zero, mul_one]
    push_cast
    rw [mul_assoc (digits : ℚ),
      show (9007199254740992 : ℚ) * 2 ^ (-53 : ℤ) = 1 by norm_num, mul_one]
  rwa [value] at rounds

theorem rounds_div_ten (power : ℕ) (ten : 0 < 10 ^ power) :
    Rounds .positive (digits * 10 ^ (-(power : ℤ))) (UnpackedFloat.div .binary64
      (.finite .positive digits 0 some) (.finite .positive (10 ^ power) 0 ten)) := by
  have rounds : Rounds (.positive / .positive) _ (UnpackedFloat.div .binary64
      (.finite .positive digits 0 some) (.finite .positive (10 ^ power) 0 ten)) := rounds_div
  have value : (digits : ℚ) * 2 ^ (0 : ℤ) / ((10 ^ power : ℕ) * 2 ^ (0 : ℤ)) =
      digits * 10 ^ (-(power : ℤ)) := by
    rw [zpow_neg, zpow_natCast, zpow_zero, mul_one, mul_one, div_eq_mul_inv]
    push_cast
    rfl
  rwa [value] at rounds

/-- The parts that are computed from the whole numbers are those of the nearest number. -/
theorem isRounded_slow (power : ℤ) :
    IsRounded (digits * 10 ^ power)
      (ofParts (UnpackedFloat.ofScientific .binary64 digits power)) := by
  have bits : (2 ^ Format.binary64.exponentBits : ℤ) = 2048 := rfl
  have positive : (0 : ℚ) < digits * 10 ^ power := by
    have some : (0 : ℚ) < digits := by exact_mod_cast some
    positivity
  unfold UnpackedFloat.ofScientific
  rw [dif_neg some.ne']
  by_cases large : power > 2 ^ Format.binary64.exponentBits
  · rw [if_pos large]
    exact isRounded_of_large some (by omega)
  rw [if_neg large]
  by_cases small : power < -((2 ^ Format.binary64.exponentBits : ℤ) + digits.log2)
  · rw [if_pos small]
    exact isRounded_of_small some (by omega)
  rw [if_neg small]
  by_cases whole : 0 ≤ power
  · obtain ⟨count, rfl⟩ := Int.eq_ofNat_of_zero_le whole
    rw [if_pos whole]
    exact isRounded_of_rounds positive (rounds_mul_ten some count _ _)
  · obtain ⟨count, rfl⟩ : ∃ count : ℕ, power = -(count : ℤ) := ⟨power.natAbs, by omega⟩
    have count' : (- -(count : ℤ)).toNat = count := by omega
    simp only [if_neg whole, count']
    exact isRounded_of_rounds positive (rounds_div_ten some count _)

/-- Small numbers and powers are divided or multiplied as floating-point numbers. -/
theorem isRounded_fast (fits : digits < 2 ^ 53) (negative : Bool)
    (power : Fin Float.exactlyRepresentablePowersOfTen.size) :
    IsRounded (if negative then digits / (10 ^ power.val : ℕ) else digits * (10 ^ power.val : ℕ))
      (if negative then digits.toUInt64.toFloat / Float.exactlyRepresentablePowersOfTen[power]
        else digits.toUInt64.toFloat * Float.exactlyRepresentablePowersOfTen[power]) := by
  obtain ⟨mantissa, exponent, canonical, full, value, parts₁⟩ := parts_toFloat some fits
  obtain ⟨mantissa', exponent', positive', full', value', parts₂⟩ :=
    exists_of_isFull (parts_powersOfTen power)
  have positive : (0 : ℚ) < digits := by exact_mod_cast some
  have ten : (0 : ℚ) < (10 ^ power.val : ℕ) := by positivity
  cases negative with
  | true =>
    have rounds : Rounds (.positive / .positive) _ (UnpackedFloat.div .binary64
        (.finite .positive mantissa exponent canonical.positive)
        (.finite .positive mantissa' exponent' positive')) := rounds_div
    rw [value, value', ← parts₁, ← parts₂] at rounds
    exact isRounded_of_rounds (div_pos positive ten) rounds
  | false =>
    have many : 2 ^ 52 ≤ mantissa * mantissa' := by nlinarith
    have rounds : Rounds (.positive * .positive) _ (UnpackedFloat.mul .binary64
        (.finite .positive mantissa exponent canonical.positive)
        (.finite .positive mantissa' exponent' positive')) :=
      rounds_mul (.inl ((Nat.le_log2 (by omega)).mpr many))
    rw [value, value', ← parts₁, ← parts₂] at rounds
    exact isRounded_of_rounds (mul_pos positive ten) rounds

end Scientific

/-- Zero is zero, whichever way it is read. -/
theorem parts_ofScientific_zero (negative : Bool) (power : ℕ) :
    parts (Float.ofScientific 0 negative power) = .zero .positive := by
  have stored : parts (ofParts (.zero .positive)) = .zero .positive :=
    parts_ofParts (trivial : Canonical (.zero .positive))
  unfold Float.ofScientific
  split
  · next fast =>
    have zero : parts (0 : ℕ).toUInt64.toFloat = .zero .positive := stored
    have range : power < Float.exactlyRepresentablePowersOfTen.size := by
      have size : Float.exactlyRepresentablePowersOfTen.size = 23 := rfl
      omega
    obtain ⟨mantissa, exponent, positive, _, _, ten⟩ :=
      exists_of_isFull (parts_powersOfTen ⟨power, range⟩)
    cases negative with
    | true =>
      change parts (ofParts (UnpackedFloat.div .binary64 (parts (0 : ℕ).toUInt64.toFloat)
        (parts Float.exactlyRepresentablePowersOfTen[(⟨power, range⟩ : Fin _)]))) = _
      rw [zero, ten]
      exact stored
    | false =>
      change parts (ofParts (UnpackedFloat.mul .binary64 (parts (0 : ℕ).toUInt64.toFloat)
        (parts Float.exactlyRepresentablePowersOfTen[(⟨power, range⟩ : Fin _)]))) = _
      rw [zero, ten]
      exact stored
  · exact stored

/-- **A whole number times a power of ten is read as the nearest floating-point number.** -/
theorem ofScientific_isRounded (digits : ℕ) (power : ℤ) :
    IsRounded (digits * 10 ^ power) (Float.ofScientific digits (power < 0) power.natAbs) := by
  by_cases none : digits = 0
  · subst none
    exact .inl ⟨by simp, parts_ofScientific_zero _ _⟩
  have some : 0 < digits := Nat.pos_of_ne_zero none
  unfold Float.ofScientific
  split
  · next fast =>
    obtain ⟨fits, few⟩ := fast
    have range : power.natAbs < Float.exactlyRepresentablePowersOfTen.size := by
      have size : Float.exactlyRepresentablePowersOfTen.size = 23 := rfl
      omega
    have rounded := isRounded_fast some fits (power < 0) ⟨power.natAbs, range⟩
    have value : (if (decide (power < 0)) = true then (digits : ℚ) / (10 ^ power.natAbs : ℕ)
        else digits * (10 ^ power.natAbs : ℕ)) = digits * 10 ^ power := by
      by_cases negative : power < 0
      · have tens : (10 : ℚ) ^ power = (10 ^ power.natAbs)⁻¹ := by
          rw [← zpow_natCast, ← zpow_neg]
          congr 1
          omega
        rw [if_pos (by simpa using negative), tens]
        push_cast
        rw [div_eq_mul_inv]
      · have tens : (10 : ℚ) ^ power = 10 ^ power.natAbs := by
          rw [← zpow_natCast]
          congr 1
          omega
        rw [if_neg (by simpa using negative), tens]
        push_cast
        rfl
    rw [value] at rounded
    exact rounded
  · have exponent : (if (decide (power < 0)) = true then Int.negOfNat power.natAbs
        else Int.ofNat power.natAbs) = power := by
      by_cases negative : power < 0
      · rw [if_pos (by simpa using negative), Int.negOfNat_eq]
        change -((power.natAbs : ℕ) : ℤ) = power
        omega
      · rw [if_neg (by simpa using negative)]
        change ((power.natAbs : ℕ) : ℤ) = power
        omega
    rw [exponent]
    exact isRounded_slow some power

/-- What is rounded to a number has the parts of that number. -/
theorem IsRounded.parts_eq {q : ℚ} {x : Float} {mantissa : ℕ} {exponent : ℤ}
    (rounded : IsRounded q x) (canonical : IsCanonical mantissa exponent) (small : exponent ≤ 971)
    (around : IsAround mantissa exponent q) :
    parts x = .finite .positive mantissa exponent canonical.positive := by
  rcases rounded with ⟨zero, _⟩ | ⟨_, u, rounds, same⟩
  · have low := around.low
    have power := power_pos exponent
    have some : (1 : ℚ) ≤ mantissa := by exact_mod_cast canonical.positive
    rw [zero] at low
    nlinarith
  · rw [same, rounds.eq_of_isAround canonical around, bounded, if_neg (by omega)]

/-- A decimal that is a canonical number is read as that. -/
theorem parts_ofScientific {digits : ℕ} {power : ℤ} {mantissa : ℕ} {exponent : ℤ}
    (canonical : IsCanonical mantissa exponent) (small : exponent ≤ 971)
    (value : (digits : ℚ) * 10 ^ power = mantissa * 2 ^ exponent) :
    parts (Float.ofScientific digits (power < 0) power.natAbs) =
      .finite .positive mantissa exponent canonical.positive := by
  have rounded := ofScientific_isRounded digits power
  rw [value] at rounded
  exact rounded.parts_eq canonical small canonical.isAround

/-- Whether a number is finite and has no sign. -/
def IsMagnitude (x : Float) : Prop :=
  parts x = .zero .positive ∨
    ∃ (mantissa : ℕ) (exponent : ℤ) (canonical : IsCanonical mantissa exponent),
      exponent ≤ 971 ∧ parts x = .finite .positive mantissa exponent canonical.positive

theorem IsRounded.isMagnitude {q : ℚ} {x : Float} (rounded : IsRounded q x)
    (finite : x.isFinite = true) : IsMagnitude x := by
  rcases rounded with ⟨_, zero⟩ | ⟨_, u, rounds, same⟩
  · exact .inl zero
  · rcases rounds.zero_or_finite with rfl | ⟨mantissa, exponent, canonical, rfl⟩
    · exact .inl same
    · have finite : (parts x).isFinite = true := finite
      rw [bounded] at same
      by_cases large : 971 < exponent
      · rw [same, if_pos large] at finite
        cases finite
      · rw [if_neg large] at same
        exact .inr ⟨mantissa, exponent, canonical, not_lt.mp large, same⟩

end Waveform.Binary64

namespace Waveform.Decimal.Numeral

/-- The value of a numeral, leaving its sign aside. -/
def value (numeral : Numeral) : ℚ :=
  numeral.significand * 10 ^ numeral.scale

/-- **A numeral without a sign is read as the nearest floating-point number.** -/
theorem nearest_isRounded {numeral : Numeral} (unsigned : numeral.negative = false) :
    Binary64.IsRounded numeral.value numeral.nearest := by
  unfold nearest
  rw [unsigned]
  exact Binary64.ofScientific_isRounded numeral.significand numeral.scale

end Waveform.Decimal.Numeral
