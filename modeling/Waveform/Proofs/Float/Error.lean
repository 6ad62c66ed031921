import Waveform.Proofs.Float.Finite

/-!
# The error of rounding

A rounded number is off by at most a unit of `2 ^ -53` relative to the number, or by half of
the least positive number (`RoundsTo.error_le`). The latter does not happen for multiples of
that least number, such as sums of floating-point numbers. A number with few enough digits, such
as a whole number that is not too large, is not changed at all.
-/

set_option autoImplicit false

namespace Waveform.Binary64

open Float.Model Float.Model.UnpackedFloat

/-- A whole number is the nearest one to itself. -/
theorem IsNearest.natCast (whole : ℕ) : IsNearest (whole : ℚ) whole :=
  ⟨by linarith, by linarith, fun tie => by rcases tie with tie | tie <;> linarith⟩

/-- The value of the least positive floating-point number. -/
def leastPositive : ℚ :=
  2 ^ (-1074 : ℤ)

theorem leastPositive_pos : 0 < leastPositive :=
  power_pos _

namespace RoundsTo

variable {q : ℚ} {x : Float}

theorem value_eq_zero (rounds : RoundsTo 0 x) : value x = 0 := by
  have zero : ∀ {x : Float}, IsRounded 0 x → value x = 0 := by
    intro x rounded
    rcases rounded with ⟨_, zero⟩ | ⟨positive, _⟩
    · exact value_of_parts_zero zero
    · exact absurd positive (lt_irrefl 0)
  rcases rounds with rounded | rounded
  · exact zero rounded
  · rw [neg_zero] at rounded
    exact neg_eq_zero.mp ((value_neg x).symm.trans (zero rounded))

theorem exists_nearest (rounds : RoundsTo q x) (finite : x.isFinite = true) (some : q ≠ 0) :
    ∃ (whole : ℕ) (exponent : ℤ), IsGrid |q| exponent ∧ IsNearest (|q| / 2 ^ exponent) whole ∧
      |value x - q| = |whole * 2 ^ exponent - abs q| := by
  have magnitude {q : ℚ} {x : Float} (rounded : IsRounded q x) (finite : x.isFinite = true)
      (some : q ≠ 0) : ∃ (whole : ℕ) (exponent : ℤ), IsGrid q exponent ∧
        IsNearest (q / 2 ^ exponent) whole ∧ value x = whole * 2 ^ exponent := by
    rcases rounded with ⟨rfl, _⟩ | ⟨_, u, rounds, same⟩
    · exact absurd rfl some
    · obtain ⟨whole, exponent, grid, nearest, _, value'⟩ := rounds.exists_nearest
      refine ⟨whole, exponent, grid, nearest, ?_⟩
      have finite : (parts x).isFinite = true := finite
      rcases rounds.bounded_cases with ⟨large, _⟩ | ⟨stored, _, _⟩
      · rw [same, large] at finite
        cases finite
      · rw [value, same, stored, value', signValue, Rat.one_mul]
  rcases rounds with rounded | rounded
  · obtain ⟨whole, exponent, grid, nearest, value⟩ := magnitude rounded finite some
    rw [← abs_of_nonneg rounded.nonneg] at grid nearest
    refine ⟨whole, exponent, grid, nearest, ?_⟩
    rw [value, abs_of_nonneg rounded.nonneg]
  · obtain ⟨whole, exponent, grid, nearest, value⟩ :=
      magnitude rounded (by rwa [isFinite_neg]) (neg_ne_zero.mpr some)
    have nonneg := rounded.nonneg
    have turned : |q| = -q := abs_of_nonpos (by linarith)
    rw [← turned] at grid nearest
    refine ⟨whole, exponent, grid, nearest, ?_⟩
    rw [value_neg] at value
    rw [turned, ← value, ← abs_neg]
    congr 1
    ring

theorem abs_sub_le_half {q : ℚ} {whole : ℕ} {exponent : ℤ}
    (nearest : IsNearest (q / 2 ^ exponent) whole) :
    |whole * 2 ^ exponent - q| ≤ 2 ^ exponent / 2 := by
  have power := power_pos exponent
  have low := nearest.low
  have high := nearest.high
  rw [le_div_iff₀ power] at low
  rw [div_le_iff₀ power] at high
  rw [abs_le]
  constructor <;> linarith

/-- The error of rounding is small relative to the number where the grid is not the finest. -/
theorem half_le_of_full {q : ℚ} {exponent : ℤ} (full : 2 ^ 52 * 2 ^ exponent ≤ q) :
    (2 : ℚ) ^ exponent / 2 ≤ q / 2 ^ 53 := by
  rw [le_div_iff₀ (by norm_num)]
  linarith

/-- **The error of rounding.** -/
theorem error_le (rounds : RoundsTo q x) (finite : x.isFinite = true) :
    |value x - q| ≤ |q| / 2 ^ 53 + leastPositive / 2 := by
  by_cases zero : q = 0
  · subst zero
    have same : value x = 0 := rounds.value_eq_zero
    have some := leastPositive_pos
    rw [same, sub_self, abs_zero, zero_div]
    linarith
  obtain ⟨whole, exponent, grid, nearest, same⟩ := rounds.exists_nearest finite zero
  rw [same]
  refine (abs_sub_le_half nearest).trans ?_
  rcases grid.full with full | least
  · have half := half_le_of_full full
    have some := leastPositive_pos
    linarith
  · have some : 0 ≤ |q| / 2 ^ 53 := by positivity
    rw [least, ← leastPositive]
    linarith

end RoundsTo

/-! ## Multiples of the least positive number -/

/-- Whether a number is a multiple of the least positive floating-point number. -/
def OnFinestGrid (q : ℚ) : Prop :=
  ∃ whole : ℤ, q = whole * leastPositive

namespace OnFinestGrid

variable {p q : ℚ}

theorem add (first : OnFinestGrid p) (second : OnFinestGrid q) : OnFinestGrid (p + q) := by
  obtain ⟨a, rfl⟩ := first
  obtain ⟨b, rfl⟩ := second
  refine ⟨a + b, ?_⟩
  push_cast
  ring

theorem neg (multiple : OnFinestGrid q) : OnFinestGrid (-q) := by
  obtain ⟨a, rfl⟩ := multiple
  refine ⟨-a, ?_⟩
  push_cast
  ring

theorem nat_mul (count : ℕ) (multiple : OnFinestGrid q) : OnFinestGrid (count * q) := by
  obtain ⟨a, rfl⟩ := multiple
  refine ⟨count * a, ?_⟩
  push_cast
  ring

theorem of_zpow {exponent : ℤ} (lowest : -1074 ≤ exponent) (whole : ℕ) :
    OnFinestGrid (whole * 2 ^ exponent) := by
  obtain ⟨shift, rfl⟩ : ∃ shift : ℕ, exponent = shift + -1074 :=
    ⟨(exponent + 1074).toNat, by omega⟩
  refine ⟨whole * 2 ^ shift, ?_⟩
  rw [zpow_add₀ (by norm_num), zpow_natCast, leastPositive, Int.cast_mul, Int.cast_natCast,
    Int.cast_pow, Int.cast_ofNat, mul_assoc]

end OnFinestGrid

theorem onFinestGrid_value (x : Float) : OnFinestGrid (value x) := by
  have canonical := (canonical_parts x).1
  unfold value
  cases same : parts x with
  | notANumber | infinity | zero => exact ⟨0, by simp [partsValue]⟩
  | finite sign mantissa exponent some =>
    rw [same] at canonical
    have multiple : OnFinestGrid (mantissa * 2 ^ exponent) := .of_zpow canonical.lowest mantissa
    cases sign with
    | negative =>
      rw [partsValue, signValue, show ∀ q : ℚ, -1 * q = -q by intro q; ring]
      exact multiple.neg
    | positive =>
      rwa [partsValue, signValue, Rat.one_mul]

/-- No number lies between zero and the least positive one. -/
theorem leastPositive_le {x : Float} (positive : 0 < value x) : leastPositive ≤ value x := by
  obtain ⟨whole, same⟩ := onFinestGrid_value x
  rw [same] at positive ⊢
  have some : (0 : ℚ) < whole := (pos_iff_pos_of_mul_pos positive).mpr leastPositive_pos
  have some : (1 : ℚ) ≤ whole := by exact_mod_cast some
  exact le_mul_of_one_le_left leastPositive_pos.le some

/-- **The error of rounding a multiple of the least positive number** is small relative to the
number, however small that is. -/
theorem RoundsTo.error_le_of_onFinestGrid {q : ℚ} {x : Float} (rounds : RoundsTo q x)
    (finite : x.isFinite = true) (multiple : OnFinestGrid q) : |value x - q| ≤ |q| / 2 ^ 53 := by
  by_cases zero : q = 0
  · subst zero
    have same : value x = 0 := rounds.value_eq_zero
    rw [same]
    norm_num
  obtain ⟨whole, exponent, grid, nearest, same⟩ := rounds.exists_nearest finite zero
  rw [same]
  rcases grid.full with full | least
  · exact (abs_sub_le_half nearest).trans (half_le_of_full full)
  · -- The number is on the grid already.
    subst least
    obtain ⟨count, value⟩ : ∃ count : ℕ, |q| = count * leastPositive := by
      obtain ⟨whole, rfl⟩ := multiple
      refine ⟨whole.natAbs, ?_⟩
      rw [abs_mul, abs_of_pos leastPositive_pos, Nat.cast_natAbs, Int.cast_abs]
    have exact : |q| / 2 ^ (-1074 : ℤ) = count := by
      rw [div_eq_iff (power_pos _).ne']
      exact value
    rw [exact] at nearest
    have same : whole = count := nearest.unique (.natCast count)
    subst same
    have none : (whole : ℚ) * 2 ^ (-1074 : ℤ) - |q| = 0 := by
      rw [value]
      exact sub_self _
    rw [none, abs_zero]
    positivity

/-- The error of a sum. -/
theorem abs_add_sub_le {x y : Float} (finite : (x + y).isFinite = true) :
    |value (x + y) - (value x + value y)| ≤ |value x + value y| / 2 ^ 53 := by
  obtain ⟨first, second⟩ := isFinite_of_add finite
  have multiple := (onFinestGrid_value x).add (onFinestGrid_value y)
  exact (roundsTo_add first second).error_le_of_onFinestGrid finite multiple

/-- The error of a difference. -/
theorem abs_sub_sub_le {x y : Float} (finite : (x - y).isFinite = true) :
    |value (x - y) - (value x - value y)| ≤ |value x - value y| / 2 ^ 53 := by
  rw [Binary64.sub_eq_add_neg] at finite ⊢
  have error := abs_add_sub_le finite
  rwa [value_neg, ← Rat.sub_eq_add_neg] at error

/-- **What is close to a floating-point number is rounded to it.** -/
theorem RoundsTo.eq_of_close {q : ℚ} {x y : Float} (rounds : RoundsTo q y)
    (finite : x.isFinite = true) (close : 2 ^ 54 * |q - value x| < |value x|) : y = x := by
  have positive {q : ℚ} {x y : Float} (rounds : RoundsTo q y) (finite : x.isFinite = true)
      (close : 2 ^ 54 * |q - value x| < |value x|) (positive : 0 < value x) : y = x := by
    obtain ⟨mantissa, exponent, canonical, small, same⟩ := exists_parts_of_pos positive
    have size : value x = mantissa * 2 ^ exponent := by
      rw [value, same, partsValue, signValue, Rat.one_mul]
    rw [abs_of_pos positive, size] at close
    have power := power_pos exponent
    have fits : (mantissa : ℚ) * 2 ^ exponent ≤ 2 ^ 53 * 2 ^ exponent := by
      have fits : (mantissa : ℚ) ≤ 2 ^ 53 := by exact_mod_cast canonical.fits.le
      exact mul_le_mul_of_nonneg_right fits power.le
    have low := neg_abs_le (q - mantissa * 2 ^ exponent)
    have high := le_abs_self (q - mantissa * 2 ^ exponent)
    have around : IsAround mantissa exponent q := by
      refine ⟨by linarith, by linarith, ?_, ?_⟩
      · rintro (tie | tie) <;> linarith
      · intro least _
        have least : (mantissa : ℚ) * 2 ^ exponent = 2 ^ 52 * 2 ^ exponent := by
          rw [least]
          push_cast
          rfl
        linarith
    rcases rounds with rounded | rounded
    · rw [← ofParts_parts y, rounded.parts_eq canonical small around, ← same, ofParts_parts]
    · have nonneg := rounded.nonneg
      linarith [around.low]
  rcases lt_trichotomy (value x) 0 with negative | zero | above
  · have turned : -y = -x := by
      refine positive rounds.neg (by rwa [isFinite_neg]) ?_ (by rw [value_neg]; linarith)
      rw [value_neg, abs_neg, neg_sub_neg, abs_sub_comm]
      exact close
    rw [← Binary64.neg_neg y, turned, Binary64.neg_neg]
  · rw [zero, abs_zero] at close
    exact absurd close (not_lt.mpr (by positivity))
  · exact positive rounds finite close above

/-! ## Numbers without an error -/

/-- **What has few enough digits is not changed by rounding.** -/
theorem RoundsTo.value_eq {q : ℚ} {x : Float} {digits : ℕ} {exponent : ℤ} (rounds : RoundsTo q x)
    (finite : x.isFinite = true) (same : |q| = digits * 2 ^ exponent) (few : digits < 2 ^ 53)
    (lowest : -1074 ≤ exponent) : value x = q := by
  by_cases zero : q = 0
  · subst zero
    exact rounds.value_eq_zero
  obtain ⟨whole, grid, isGrid, nearest, error⟩ := rounds.exists_nearest finite zero
  have few : (digits : ℚ) < 2 ^ 53 := by exact_mod_cast few
  -- The number has its last digit on its grid.
  have le : grid ≤ exponent := by
    rcases isGrid.full with full | least
    · by_contra greater
      have power := power_pos exponent
      have next : (2 : ℚ) ^ 53 * 2 ^ exponent ≤ 2 ^ 52 * 2 ^ grid := power_le (by omega)
      nlinarith
    · omega
  obtain ⟨shift, rfl⟩ : ∃ shift : ℕ, exponent = shift + grid := ⟨(exponent - grid).toNat, by omega⟩
  have power := power_pos grid
  have onGrid : |q| = (digits * 2 ^ shift : ℕ) * 2 ^ grid := by
    rw [same, zpow_add₀ (by norm_num), zpow_natCast]
    push_cast
    ring
  have exact : |q| / 2 ^ grid = (digits * 2 ^ shift : ℕ) := by
    rw [div_eq_iff power.ne']
    exact onGrid
  rw [exact] at nearest
  rw [nearest.unique (.natCast _), onGrid, sub_self, abs_zero] at error
  exact sub_eq_zero.mp (abs_eq_zero.mp error)

/-- The greatest floating-point number. -/
def greatest : Float :=
  ofParts (.finite .positive (2 ^ 53 - 1) 971 (by decide))

theorem isCanonical_greatest : IsCanonical (2 ^ 53 - 1) 971 :=
  ⟨by decide, by decide, by decide, .inl (by decide)⟩

theorem parts_greatest : parts greatest = .finite .positive (2 ^ 53 - 1) 971 (by decide) :=
  parts_ofParts_finite isCanonical_greatest (by decide)

theorem isFinite_greatest : greatest.isFinite = true := by
  change (parts greatest).isFinite = true
  rw [parts_greatest]
  rfl

theorem value_greatest : value greatest = (2 ^ 53 - 1 : ℕ) * 2 ^ (971 : ℤ) := by
  rw [value, parts_greatest, partsValue, signValue, Rat.one_mul]

/-- No finite number is above the greatest one. -/
theorem value_le_greatest (x : Float) : value x ≤ value greatest := by
  rw [value_greatest]
  rcases le_or_gt (value x) 0 with negative | positive
  · exact negative.trans (by positivity)
  · obtain ⟨mantissa, exponent, canonical, small, same⟩ := exists_parts_of_pos positive
    have fits : (mantissa : ℚ) ≤ (2 ^ 53 - 1 : ℕ) := by
      exact_mod_cast Nat.le_sub_one_of_lt canonical.fits
    have powers : (2 : ℚ) ^ exponent ≤ 2 ^ (971 : ℤ) := zpow_le_zpow_right₀ (by norm_num) small
    rw [value, same, partsValue, signValue, Rat.one_mul]
    exact mul_le_mul fits powers (power_pos exponent).le (Nat.cast_nonneg _)

/-- The powers of two up to `2 ^ 1023` are not above the greatest number. -/
theorem power_le_greatest {exponent : ℤ} (le : exponent ≤ 1023) :
    2 ^ exponent ≤ value greatest := by
  have full : (2 : ℚ) ^ (52 : ℤ) ≤ (2 ^ 53 - 1 : ℕ) := by norm_num
  calc (2 : ℚ) ^ exponent ≤ 2 ^ (1023 : ℤ) := zpow_le_zpow_right₀ (by norm_num) le
    _ = 2 ^ (52 : ℤ) * 2 ^ (971 : ℤ) := by
        rw [← zpow_add₀ (by norm_num)]
        rfl
    _ ≤ (2 ^ 53 - 1 : ℕ) * 2 ^ (971 : ℤ) := mul_le_mul_of_nonneg_right full (power_pos 971).le
    _ = value greatest := value_greatest.symm

/-- The least positive number is tiny beside the greatest one. -/
theorem mul_leastPositive_le : 2 ^ 200 * leastPositive ≤ value greatest := by
  rw [leastPositive, ← zpow_natCast, ← zpow_add₀ (by norm_num)]
  exact power_le_greatest (by norm_num)

/-- What is at most as large as the greatest number is rounded to a finite number. -/
theorem RoundsTo.isFinite {q : ℚ} {x : Float} (rounds : RoundsTo q x)
    (small : |q| ≤ value greatest) :
    x.isFinite = true :=
  (rounds.isWithin_of_abs_le (roundsTo_value isFinite_greatest) isFinite_greatest small).finite

/-! ## Whole numbers -/

theorem roundsTo_ofNat (count : ℕ) : RoundsTo count (Float.ofNat count) := by
  have rounded := ofScientific_isRounded count 0
  rw [zpow_zero, mul_one] at rounded
  exact .inl rounded

section Count

variable {count : ℕ} (few : count < 2 ^ 53)

include few

theorem isFinite_ofNat : (Float.ofNat count).isFinite = true := by
  refine (roundsTo_ofNat count).isFinite ?_
  rw [abs_of_nonneg (Nat.cast_nonneg count)]
  have few : (count : ℚ) ≤ 2 ^ (53 : ℤ) := by exact_mod_cast few.le
  exact few.trans (power_le_greatest (by norm_num))

/-- Whole numbers with few enough digits are floating-point numbers. -/
theorem value_ofNat : value (Float.ofNat count) = count := by
  have digits : |(count : ℚ)| = count * 2 ^ (0 : ℤ) := by
    rw [abs_of_nonneg (Nat.cast_nonneg count), zpow_zero, mul_one]
  exact (roundsTo_ofNat count).value_eq (isFinite_ofNat few) digits few (by norm_num)

/-- A zero keeps its sign when it is multiplied by a whole number. -/
theorem parts_ofNat_mul_zero {x : Float} {sign : Sign} (zero : parts x = .zero sign) :
    parts (Float.ofNat count * x) = .zero sign := by
  have stored : Float.ofNat count * x =
      ofParts (UnpackedFloat.mul .binary64 (parts (Float.ofNat count)) (parts x)) := rfl
  have same :
      UnpackedFloat.mul .binary64 (parts (Float.ofNat count)) (.zero sign) = .zero sign := by
    cases count with
    | zero =>
      have zero : parts (Float.ofNat 0) = .zero .positive := parts_zero
      rw [zero]
      cases sign <;> rfl
    | succ count =>
      have positive : 0 < value (Float.ofNat (count + 1)) := by
        rw [value_ofNat few]
        exact_mod_cast Nat.succ_pos count
      obtain ⟨_, _, _, _, some⟩ := exists_parts_of_pos positive
      rw [some]
      cases sign <;> rfl
  rw [stored, zero, same]
  exact parts_ofParts trivial

end Count

theorem value_ten : value 10 = 10 :=
  value_ofNat (by norm_num : 10 < 2 ^ 53)

end Waveform.Binary64
