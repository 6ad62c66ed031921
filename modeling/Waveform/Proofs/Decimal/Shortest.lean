import Mathlib.Data.List.TakeWhile
import Waveform.Decimal.Layout
import Waveform.Proofs.Decimal.Nearest

/-!
# The shortest decimal reads back

The search for a shortest decimal only ever stops at a decimal in the interval of the
number, and the number itself is the last one that it comes to. So the decimal is rounded
to the number (`isAround_shortest`). Writing it out keeps its value, wherever the point
stands (`value_place`).
-/

set_option autoImplicit false

namespace Waveform.Decimal

open Binary64

/-! ## The search stays in the interval -/

namespace Neighbourhood

variable {near : Neighbourhood} {tie : Tie}

theorem contains_of_onGrid? {unit point : ℕ} (found : near.onGrid? tie unit = some point) :
    near.contains (point * unit) = true := by
  unfold onGrid? at found
  dsimp only at found
  split at found
  · next below above =>
    have both (p : Prop) [Decidable p] : near.contains
        ((if p then near.value / unit else near.value / unit + 1) * unit) = true := by
      split
      · exact below
      · exact above
    split at found
    · cases found
      exact below
    · split at found
      · cases found
        exact above
      · cases tie with
        | toEven =>
          cases found
          exact both _
        | up =>
          cases found
          exact above
  · next below above =>
    cases found
    exact below
  · next below above =>
    cases found
    exact above
  · cases found

/-- The search stops in the interval, if the number lies in it. -/
theorem contains_search (tie : Tie) (inside : near.contains near.value = true) (drop : ℕ) :
    near.contains ((near.search tie drop).1 * 10 ^ (near.search tie drop).2) = true := by
  induction drop with
  | zero => simpa [search] using inside
  | succ drop ih =>
    unfold search
    split
    · next point found => exact contains_of_onGrid? found
    · exact ih

/-! ## The interval of a floating-point number -/

variable {mantissa : ℕ} {exponent : ℤ}

/-- How far the interval reaches below a number, in quarters. -/
def reach (mantissa : ℕ) (exponent : ℤ) : ℕ :=
  if mantissa = leastMantissa ∧ leastExponent < exponent then 1 else 2

/-- What the ends of the interval are counted in: a quarter of the power of two, over a power
of ten. -/
def unit (exponent : ℤ) : ℕ :=
  Nat.pow 5 (-(exponent - 2)).toNat <<< (exponent - 2).toNat

theorem unit_pos (exponent : ℤ) : 0 < unit exponent :=
  Nat.shiftLeft_pos_iff.mpr (Nat.pow_pos (by decide))

theorem unit_value (exponent : ℤ) :
    (unit exponent : ℚ) * 10 ^ min (exponent - 2) 0 = 2 ^ (exponent - 2) := by
  obtain ⟨quarter, rfl⟩ : ∃ quarter, exponent = quarter + 2 := ⟨exponent - 2, by omega⟩
  rw [unit, Int.add_sub_cancel, Nat.shiftLeft_eq]
  by_cases negative : quarter < 0
  · obtain ⟨count, rfl⟩ : ∃ count : ℕ, quarter = -(count : ℤ) := ⟨quarter.natAbs, by omega⟩
    have none : (-(count : ℤ)).toNat = 0 := by omega
    have all : (- -(count : ℤ)).toNat = count := by omega
    have split : (10 : ℚ) ^ count = 5 ^ count * 2 ^ count := by
      rw [← mul_pow]
      norm_num
    have five : ((Nat.pow 5 count : ℕ) : ℚ) = 5 ^ count := by
      exact_mod_cast rfl
    rw [none, all, min_eq_left (by omega), zpow_neg, zpow_neg, zpow_natCast, zpow_natCast, split,
      pow_zero, mul_one, five, mul_inv, ← mul_assoc, mul_inv_cancel₀ (by positivity), one_mul]
  · obtain ⟨count, rfl⟩ := Int.eq_ofNat_of_zero_le (not_lt.mp negative)
    have none : (-(count : ℤ)).toNat = 0 := by omega
    have one : Nat.pow 5 0 = 1 := rfl
    rw [none, Int.toNat_natCast, min_eq_right (by omega), zpow_zero, mul_one, zpow_natCast, one,
      one_mul]
    push_cast
    rfl

theorem reach_le_two (mantissa : ℕ) (exponent : ℤ) : reach mantissa exponent ≤ 2 := by
  unfold reach
  split <;> omega

theorem reach_pos (mantissa : ℕ) (exponent : ℤ) : 0 < reach mantissa exponent := by
  unfold reach
  split <;> omega

/-- The lower end, with its power of ten. -/
theorem lower_value (positive : 0 < mantissa) :
    (((4 * mantissa - reach mantissa exponent) * unit exponent : ℕ) : ℚ) *
      10 ^ min (exponent - 2) 0 =
        (4 * mantissa - reach mantissa exponent) * 2 ^ (exponent - 2) := by
  have few := reach_le_two mantissa exponent
  rw [Nat.cast_mul, Nat.cast_sub (by omega), mul_assoc, unit_value]
  push_cast
  rfl

/-- The upper end, with its power of ten. -/
theorem upper_value : (((4 * mantissa + 2) * unit exponent : ℕ) : ℚ) *
    10 ^ min (exponent - 2) 0 = (4 * mantissa + 2) * 2 ^ (exponent - 2) := by
  rw [Nat.cast_mul, mul_assoc, unit_value]
  push_cast
  rfl

theorem contains_value (positive : 0 < mantissa) (exponent : ℤ) :
    (ofBinary mantissa exponent).contains (ofBinary mantissa exponent).value = true := by
  have some := unit_pos exponent
  have reaches := reach_pos mantissa exponent
  have low : (4 * mantissa - reach mantissa exponent) * unit exponent <
      4 * mantissa * unit exponent := Nat.mul_lt_mul_of_pos_right (by omega) some
  have high : 4 * mantissa * unit exponent < (4 * mantissa + 2) * unit exponent :=
    Nat.mul_lt_mul_of_pos_right (by omega) some
  unfold contains
  split <;> simp only [Bool.and_eq_true, decide_eq_true_eq]
  · exact ⟨low.le, high.le⟩
  · exact ⟨low, high⟩

theorem between_of_contains {point : ℕ} (inside : near.contains point = true) :
    near.lower ≤ point ∧ point ≤ near.upper ∧
      (near.closed = false → near.lower < point ∧ point < near.upper) := by
  unfold contains at inside
  split at inside <;> simp only [Bool.and_eq_true, decide_eq_true_eq] at inside
  · next closed =>
    refine ⟨inside.1, inside.2, ?_⟩
    intro opened
    cases closed.symm.trans opened
  · exact ⟨inside.1.le, inside.2.le, fun _ => inside⟩

/-- What the interval contains is rounded to the number. -/
theorem isAround_of_contains (positive : 0 < mantissa) {point : ℕ}
    (inside : (ofBinary mantissa exponent).contains point = true) :
    IsAround mantissa exponent (point * 10 ^ min (exponent - 2) 0) := by
  obtain ⟨below, above, opened⟩ := between_of_contains inside
  change (4 * mantissa - reach mantissa exponent) * unit exponent ≤ point at below
  change point ≤ (4 * mantissa + 2) * unit exponent at above
  change (mantissa % 2 == 0) = false →
    (4 * mantissa - reach mantissa exponent) * unit exponent < point ∧
      point < (4 * mantissa + 2) * unit exponent at opened
  have quarter : (2 : ℚ) ^ exponent = 4 * 2 ^ (exponent - 2) := by
    rw [zpow_sub₀ (by norm_num)]
    ring
  have ten : (0 : ℚ) < 10 ^ min (exponent - 2) 0 := by positivity
  have few : (reach mantissa exponent : ℚ) ≤ 2 := by
    exact_mod_cast reach_le_two mantissa exponent
  have scaled_le {a b : ℕ} (le : a ≤ b) : (a : ℚ) * 10 ^ min (exponent - 2) 0 ≤
      b * 10 ^ min (exponent - 2) 0 :=
    mul_le_mul_of_nonneg_right (by exact_mod_cast le) ten.le
  have scaled_lt {a b : ℕ} (lt : a < b) : (a : ℚ) * 10 ^ min (exponent - 2) 0 <
      b * 10 ^ min (exponent - 2) 0 :=
    mul_lt_mul_of_pos_right (by exact_mod_cast lt) ten
  have low := scaled_le below
  have high := scaled_le above
  have power := power_pos (exponent - 2)
  rw [lower_value positive] at low
  rw [upper_value] at high
  refine ⟨?_, ?_, ?_, ?_⟩
  · rw [quarter]
    nlinarith
  · rw [quarter]
    linarith
  · intro tie
    by_contra odd
    obtain ⟨below, above⟩ := opened (by simpa using odd)
    have low := scaled_lt below
    have high := scaled_lt above
    rw [lower_value positive] at low
    rw [upper_value] at high
    rw [quarter] at tie
    rcases tie with tie | tie <;> nlinarith
  · intro full lowest
    have one : reach mantissa exponent = 1 := if_pos ⟨full, lowest⟩
    rw [one] at low
    push_cast at low
    rw [quarter]
    linarith

end Neighbourhood

/-! ## Digits -/

theorem digitsValue_append (first second : List Char) :
    digitsValue (first ++ second) =
      digitsValue first * 10 ^ second.length + digitsValue second := by
  calc Nat.ofDigitChars 10 (first ++ second) 0
      = Nat.ofDigitChars 10 second (Nat.ofDigitChars 10 first 0) := Nat.ofDigitChars_append 0
    _ = 10 ^ second.length * Nat.ofDigitChars 10 first 0 + Nat.ofDigitChars 10 second 0 :=
      Nat.ofDigitChars_eq_ofDigitChars_zero
    _ = Nat.ofDigitChars 10 first 0 * 10 ^ second.length + Nat.ofDigitChars 10 second 0 := by
      rw [Nat.mul_comm]

theorem digitsValue_zeros (count : ℕ) : digitsValue (List.replicate count '0') = 0 :=
  Nat.ofDigitChars_replicate_zero.trans (Nat.mul_zero _)

theorem digitsValue_toDigits (n : ℕ) : digitsValue (Nat.toDigits 10 n) = n :=
  Nat.ofDigitChars_ten_toDigits

/-- Zeros at the end of digits only multiply their value. -/
theorem exists_stripped (digits : List Char) : ∃ count : ℕ,
    digits = (digits.reverse.dropWhile (· == '0')).reverse ++ List.replicate count '0' := by
  have split := List.takeWhile_append_dropWhile (p := (· == '0')) (l := digits.reverse)
  have zeros : digits.reverse.takeWhile (· == '0') =
      List.replicate (digits.reverse.takeWhile (· == '0')).length '0' :=
    List.eq_replicate_of_mem fun c member => by simpa using List.mem_takeWhile_imp member
  refine ⟨(digits.reverse.takeWhile (· == '0')).length, ?_⟩
  rw [zeros] at split
  have whole := congrArg List.reverse split
  rw [List.reverse_append, List.reverse_replicate, List.reverse_reverse] at whole
  exact whole.symm

/-- The value of digits behind a point that is moved to the right. -/
def Digits.value (digits : Digits) : ℚ :=
  digitsValue digits.digits * 10 ^ (digits.point - digits.digits.length)

/-- Whether digits can be written as a number. -/
structure Digits.IsWritten (digits : Digits) : Prop where
  nonempty : digits.digits ≠ []
  all : ∀ c ∈ digits.digits, c.isDigit = true

/-- The digits of a number with the zeros at the end left out. -/
theorem value_stripped (point drop : ℕ) (scale : ℤ) :
    (⟨((Nat.toDigits 10 point).reverse.dropWhile (· == '0')).reverse,
      (Nat.toDigits 10 point).length + drop + scale⟩ : Digits).value =
        (point * 10 ^ drop : ℕ) * 10 ^ scale := by
  obtain ⟨zeros, split⟩ := exists_stripped (Nat.toDigits 10 point)
  obtain ⟨stripped, same⟩ : ∃ stripped,
      ((Nat.toDigits 10 point).reverse.dropWhile (· == '0')).reverse = stripped := ⟨_, rfl⟩
  rw [same] at split ⊢
  have length : (Nat.toDigits 10 point).length = stripped.length + zeros := by
    rw [split, List.length_append, List.length_replicate]
  have value : point = digitsValue stripped * 10 ^ zeros := by
    calc point = digitsValue (Nat.toDigits 10 point) := (digitsValue_toDigits point).symm
      _ = digitsValue (stripped ++ List.replicate zeros '0') := by rw [← split]
      _ = digitsValue stripped * 10 ^ zeros := by
        rw [digitsValue_append, digitsValue_zeros, List.length_replicate, Nat.add_zero]
  have power : ((Nat.toDigits 10 point).length : ℤ) + drop + scale - stripped.length =
      zeros + (drop + scale) := by omega
  rw [Digits.value, power, zpow_add₀ (by norm_num), zpow_add₀ (by norm_num), zpow_natCast,
    zpow_natCast]
  conv_rhs => rw [value]
  push_cast
  ring

/-- **The shortest decimal of a number is rounded to it.** -/
theorem isAround_shortest (tie : Tie) {mantissa : ℕ} (positive : 0 < mantissa) (exponent : ℤ) :
    IsAround mantissa exponent (shortest tie mantissa exponent).value ∧
      (shortest tie mantissa exponent).IsWritten := by
  obtain ⟨⟨point, drop⟩, found⟩ : ∃ found, (Neighbourhood.ofBinary mantissa exponent).search tie
      ((Nat.toDigits 10 (Neighbourhood.ofBinary mantissa exponent).value).length - 1) = found :=
    ⟨_, rfl⟩
  have inside : (Neighbourhood.ofBinary mantissa exponent).contains (point * 10 ^ drop) = true := by
    have inside := Neighbourhood.contains_search tie
      (Neighbourhood.contains_value positive exponent)
      ((Nat.toDigits 10 (Neighbourhood.ofBinary mantissa exponent).value).length - 1)
    rwa [found] at inside
  have around := Neighbourhood.isAround_of_contains positive inside
  have same : shortest tie mantissa exponent =
      ⟨((Nat.toDigits 10 point).reverse.dropWhile (· == '0')).reverse,
        (Nat.toDigits 10 point).length + drop + min (exponent - 2) 0⟩ := by
    simp only [shortest, found]
    rfl
  rw [same]
  have value := value_stripped point drop (min (exponent - 2) 0)
  refine ⟨value ▸ around, ?_, ?_⟩
  · intro none
    have zero : (point * 10 ^ drop : ℕ) * (10 : ℚ) ^ min (exponent - 2) 0 = 0 := by
      rw [← value, Digits.value]
      dsimp only at none ⊢
      rw [none]
      exact (mul_eq_zero_of_left rfl _)
    have low := around.low
    have power := power_pos exponent
    have some : (1 : ℚ) ≤ mantissa := by exact_mod_cast positive
    rw [zero] at low
    nlinarith
  · intro c member
    have member : c ∈ Nat.toDigits 10 point :=
      List.mem_reverse.mp (List.dropWhile_subset _ (List.mem_reverse.mp member))
    exact Nat.isDigit_of_mem_toDigits (by decide) (by decide) member

/-! ## Written numbers -/

/-- Whether a numeral is made of digits, with at least one in front of the point. -/
structure Numeral.IsPlain (numeral : Numeral) : Prop where
  unscaled : numeral.exponent = none
  nonempty : numeral.whole ≠ []
  whole : ∀ c ∈ numeral.whole, c.isDigit = true
  fraction : ∀ c ∈ numeral.fraction, c.isDigit = true

theorem isDigit_of_mem_zeros (count : ℕ) {c : Char} (member : c ∈ List.replicate count '0') :
    c.isDigit = true := by
  rw [List.eq_of_mem_replicate member]
  decide

variable {digits : List Char} (negative : Bool)

/-- Digits behind the point, with zeros between the point and the first of them. -/
theorem value_behind (zeros : ℕ) (all : ∀ c ∈ digits, c.isDigit = true) :
    let numeral : Numeral :=
      { negative, whole := ['0'], fraction := List.replicate zeros '0' ++ digits }
    numeral.value = (⟨digits, -(zeros : ℤ)⟩ : Digits).value ∧ numeral.IsPlain := by
  intro numeral
  refine ⟨?_, rfl, List.cons_ne_nil _ _, fun c member => isDigit_of_mem_zeros 1 member, ?_⟩
  · have value : digitsValue (['0'] ++ (List.replicate zeros '0' ++ digits)) =
        digitsValue digits := by
      rw [digitsValue_append, digitsValue_append, digitsValue_zeros]
      simp [digitsValue, digitValue]
    rw [Numeral.value, Numeral.significand, Numeral.scale, Digits.value, value]
    congr 2
    simp [numeral]
    omega
  · intro c member
    rcases List.mem_append.mp member with zero | digit
    · exact isDigit_of_mem_zeros _ zero
    · exact all c digit

/-- Digits with the point between two of them. -/
theorem value_between {point : ℕ} (before : 0 < point) (after : point < digits.length)
    (all : ∀ c ∈ digits, c.isDigit = true) :
    let numeral : Numeral := { negative, whole := digits.take point, fraction := digits.drop point }
    numeral.value = (⟨digits, point⟩ : Digits).value ∧ numeral.IsPlain := by
  intro numeral
  refine ⟨?_, rfl, ?_, fun c member => all c (List.mem_of_mem_take member),
    fun c member => all c (List.mem_of_mem_drop member)⟩
  · rw [Numeral.value, Numeral.significand, Numeral.scale, Digits.value]
    dsimp only [numeral]
    rw [List.take_append_drop, List.length_drop]
    congr 2
    simp only [Option.elim_none]
    omega
  · intro none
    have length := congrArg List.length none
    rw [List.length_take, List.length_nil] at length
    omega

/-- Digits in front of the point, with zeros between the last of them and the point. -/
theorem value_before (zeros : ℕ) (pointAlways : Bool) (nonempty : digits ≠ [])
    (all : ∀ c ∈ digits, c.isDigit = true) :
    let numeral : Numeral :=
      { negative
        whole := digits ++ List.replicate zeros '0'
        fraction := if pointAlways then ['0'] else [] }
    numeral.value = (⟨digits, (digits.length + zeros : ℕ)⟩ : Digits).value ∧
      numeral.IsPlain := by
  intro numeral
  refine ⟨?_, rfl, List.append_ne_nil_of_left_ne_nil nonempty _, ?_, ?_⟩
  · have padded : digitsValue (digits ++ List.replicate zeros '0') =
        digitsValue digits * 10 ^ zeros := by
      rw [digitsValue_append, digitsValue_zeros, List.length_replicate, Nat.add_zero]
    have power : ((digits.length + zeros : ℕ) : ℤ) - digits.length = zeros := by omega
    rw [Numeral.value, Numeral.significand, Numeral.scale, Digits.value]
    dsimp only [numeral]
    rw [power, zpow_natCast, digitsValue_append, padded]
    cases pointAlways with
    | true =>
      have last : digitsValue ['0'] = 0 := digitsValue_zeros 1
      have shift : (10 : ℚ) * 10 ^ (-1 : ℤ) = 1 := by norm_num
      simp only [if_true, last, List.length_singleton, Option.elim_none]
      push_cast
      rw [add_zero, mul_assoc, shift, mul_one]
    | false =>
      have last : digitsValue [] = 0 := rfl
      simp [last]
  · intro c member
    rcases List.mem_append.mp member with digit | zero
    · exact all c digit
    · exact isDigit_of_mem_zeros _ zero
  · intro c member
    cases pointAlways with
    | true => exact isDigit_of_mem_zeros 1 member
    | false => cases member

/-- **Digits are written with their value**, wherever the point stands. -/
theorem value_place (layout : Layout) {digits : Digits} (written : digits.IsWritten) :
    (layout.place negative digits).value = digits.value ∧
      (layout.place negative digits).IsPlain := by
  obtain ⟨digits, point⟩ := digits
  obtain ⟨nonempty, all⟩ := written
  dsimp only at nonempty all
  unfold Layout.place
  dsimp only
  split
  · next behind =>
    obtain ⟨zeros, rfl⟩ : ∃ zeros : ℕ, point = -(zeros : ℤ) := ⟨point.natAbs, by omega⟩
    rw [neg_neg, Int.toNat_natCast]
    exact value_behind negative zeros all
  · next front =>
    obtain ⟨point, rfl⟩ : ∃ before : ℕ, point = before := ⟨point.toNat, by omega⟩
    rw [Int.toNat_natCast]
    split
    · next after => exact value_between negative (by omega) after all
    · next past =>
      obtain ⟨zeros, rfl⟩ : ∃ zeros, point = digits.length + zeros :=
        ⟨point - digits.length, by omega⟩
      rw [Nat.add_sub_cancel_left]
      exact value_before negative zeros layout.pointAlways nonempty all

end Waveform.Decimal
