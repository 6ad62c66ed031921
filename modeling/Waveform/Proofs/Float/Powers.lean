import Waveform.Proofs.Float.Error
import Waveform.Proofs.Float.Nonneg
import Waveform.Rounding

/-!
# Powers by squaring

The product of two numbers from one up is off by a factor of at most `drift`. A power by squaring
takes part in no more products than its exponent says, so it is off by at most that power of the
drift (`isWithin_powerBySquaring`, `le_value_powerBySquaring`). This is precise enough to tell which
powers of ten are numbers: those with an exponent from `-308` to `308` are finite and positive, and
beyond them there are only the infinity and zero.
-/

set_option autoImplicit false

namespace Waveform.Binary64

open Float.Model Float.Model.UnpackedFloat

/-! ## Products of numbers from one up -/

/-- The largest factor by which the product of two numbers from one up is off. -/
def drift : ℚ :=
  1 + 1 / 2 ^ 52

theorem one_le_drift : 1 ≤ drift := by
  unfold drift
  norm_num

section Product

variable {x y : Float}

/-- Numbers from one up have a product from one up, which may be the infinity. -/
theorem one_le_mul (large : 1 ≤ x) (large' : 1 ≤ y) : 1 ≤ x * y := by
  have nonneg : 0 ≤ x := le_trans (by decide) large
  have nonneg' : 0 ≤ y := le_trans (by decide) large'
  rcases zero_le_iff.mp nonneg with ⟨finite, _⟩ | infinite
  · have above := (le_iff_value isFinite_one finite).mp large
    rw [value_one] at above
    rcases zero_le_iff.mp nonneg' with ⟨finite', _⟩ | infinite'
    · have above' := (le_iff_value isFinite_one finite').mp large'
      rw [value_one] at above'
      refine (roundsTo_mul finite finite').ge_of_value_le isFinite_one ?_
      rw [value_one]
      exact one_le_mul_of_one_le_of_one_le above above'
    · obtain ⟨_, _, _, _, same⟩ := exists_parts_of_pos (zero_lt_one.trans_le above)
      exact le_infinity rfl (parts_mul_infinity same infinite')
  · rcases zero_le_iff.mp nonneg' with ⟨finite', _⟩ | infinite'
    · have above' := (le_iff_value isFinite_one finite').mp large'
      rw [value_one] at above'
      obtain ⟨_, _, _, _, same⟩ := exists_parts_of_pos (zero_lt_one.trans_le above')
      rw [Binary64.mul_comm]
      exact le_infinity rfl (parts_mul_infinity same infinite)
    · refine le_infinity rfl ?_
      have stored : x * y = ofParts (UnpackedFloat.mul .binary64 (parts x) (parts y)) := rfl
      rw [stored, infinite, infinite']
      exact parts_ofParts_of_not_isFinite rfl

section Finite

variable (large : 1 ≤ value x) (large' : 1 ≤ value y)

include large large'

/-- The error of a product is a small part of it. -/
theorem abs_value_mul_sub_le (finite : (x * y).isFinite = true) :
    |value (x * y) - value x * value y| ≤ value x * value y * (3 / 2 ^ 54) := by
  obtain ⟨finiteX, finiteY⟩ := isFinite_of_mul finite
  have one : 1 ≤ value x * value y := one_le_mul_of_one_le_of_one_le large large'
  have error := (roundsTo_mul finiteX finiteY).error_le finite
  rw [abs_of_nonneg (zero_le_one.trans one)] at error
  have least : leastPositive ≤ 2 ^ (-53 : ℤ) := zpow_le_zpow_right₀ (by norm_num) (by norm_num)
  norm_num at least error ⊢
  linarith

theorem value_mul_le (finite : (x * y).isFinite = true) :
    value (x * y) ≤ value x * value y * drift := by
  have one : 1 ≤ value x * value y := one_le_mul_of_one_le_of_one_le large large'
  have error := (abs_le.mp (abs_value_mul_sub_le large large' finite)).2
  rw [drift]
  norm_num at error ⊢
  linarith

theorem mul_le_value_mul (finite : (x * y).isFinite = true) :
    value x * value y ≤ value (x * y) * drift := by
  have one : 1 ≤ value x * value y := one_le_mul_of_one_le_of_one_le large large'
  have error := (abs_le.mp (abs_value_mul_sub_le large large' finite)).1
  rw [drift]
  norm_num at error ⊢
  linarith

theorem one_le_value_mul (finite : (x * y).isFinite = true) : 1 ≤ value (x * y) := by
  obtain ⟨finiteX, finiteY⟩ := isFinite_of_mul finite
  have one : 1 ≤ value x * value y := one_le_mul_of_one_le_of_one_le large large'
  have above := (roundsTo_mul finiteX finiteY).ge_of_value_le isFinite_one (by rwa [value_one])
  rwa [le_iff_value isFinite_one finite, value_one] at above

/-- The product of numbers from one up is finite if their values allow it. -/
theorem isWithin_mul (finite : x.isFinite = true) (finite' : y.isFinite = true)
    (fits : value x * value y ≤ value greatest) :
    IsWithin 1 (value x * value y * drift) (x * y) := by
  have one : 1 ≤ value x * value y := one_le_mul_of_one_le_of_one_le large large'
  have within := (roundsTo_mul finite finite').isWithin isFinite_one isFinite_greatest
    (by rwa [value_one]) fits
  rw [value_one] at within
  exact ⟨within.finite, within.low_le, value_mul_le large large' within.finite⟩

end Finite

end Product

/-! ## The steps of a power -/

section Steps

variable (start base : Float)

theorem powerBySquaring_zero : powerBySquaring start base 0 = start := by
  rw [powerBySquaring]
  rfl

theorem powerBySquaring_one : powerBySquaring start base 1 = start * base := by
  rw [powerBySquaring]
  rfl

variable {half : ℕ} (some : 0 < half)

include some

theorem powerBySquaring_even :
    powerBySquaring start base (2 * half) = powerBySquaring start (base * base) half := by
  have even : ¬ 2 * half % 2 = 1 := by omega
  have again : ¬ 2 * half / 2 = 0 := by omega
  rw [powerBySquaring, if_neg even, if_neg again, Nat.mul_div_cancel_left half two_pos]

theorem powerBySquaring_odd :
    powerBySquaring start base (2 * half + 1) =
      powerBySquaring (start * base) (base * base) half := by
  have odd : (2 * half + 1) % 2 = 1 := by omega
  have again : ¬ (2 * half + 1) / 2 = 0 := by omega
  have rest : (2 * half + 1) / 2 = half := by omega
  rw [powerBySquaring, if_pos odd, if_neg again, rest]

end Steps

/-- What holds of a power holds by the binary digits of its exponent: of the start, of one product,
and of the steps for a digit zero and a digit one. -/
theorem powerBySquaring_induction {holds : Float → Float → ℕ → Prop}
    (zero : ∀ start base, holds start base 0) (one : ∀ start base, holds start base 1)
    (even : ∀ start base half, 0 < half → holds start (base * base) half →
      holds start base (2 * half))
    (odd : ∀ start base half, 0 < half → holds (start * base) (base * base) half →
      holds start base (2 * half + 1))
    (start base : Float) (count : ℕ) : holds start base count := by
  induction count using Nat.strongRecOn generalizing start base with
  | ind count ih =>
    obtain ⟨half, rfl | rfl⟩ := Nat.even_or_odd' count
    · rcases Nat.eq_zero_or_pos half with rfl | some
      · exact zero start base
      · exact even start base half some (ih half (by omega) start (base * base))
    · rcases Nat.eq_zero_or_pos half with rfl | some
      · exact one start base
      · exact odd start base half some (ih half (by omega) (start * base) (base * base))

/-! ## The size of a power -/

/-- A power of numbers from one up is one from one up, which may be the infinity. -/
theorem one_le_powerBySquaring {start base : Float} {count : ℕ} (large : 1 ≤ start)
    (large' : 1 ≤ base) : 1 ≤ powerBySquaring start base count := by
  induction start, base, count using powerBySquaring_induction with
  | zero start base => rwa [powerBySquaring_zero]
  | one start base =>
    rw [powerBySquaring_one]
    exact one_le_mul large large'
  | even start base half some ih =>
    rw [powerBySquaring_even start base some]
    exact ih large (one_le_mul large' large')
  | odd start base half some ih =>
    rw [powerBySquaring_odd start base some]
    exact ih (one_le_mul large large') (one_le_mul large' large')

/-- A finite power has a finite start and, unless the exponent is zero, a finite base. -/
theorem isFinite_of_powerBySquaring {start base : Float} {count : ℕ}
    (finite : (powerBySquaring start base count).isFinite = true) :
    start.isFinite = true ∧ (0 < count → base.isFinite = true) := by
  induction start, base, count using powerBySquaring_induction with
  | zero start base =>
    rw [powerBySquaring_zero] at finite
    exact ⟨finite, fun some => absurd some (lt_irrefl 0)⟩
  | one start base =>
    rw [powerBySquaring_one] at finite
    obtain ⟨first, second⟩ := isFinite_of_mul finite
    exact ⟨first, fun _ => second⟩
  | even start base half some ih =>
    rw [powerBySquaring_even start base some] at finite
    obtain ⟨first, second⟩ := ih finite
    exact ⟨first, fun _ => (isFinite_of_mul (second some)).1⟩
  | odd start base half some ih =>
    rw [powerBySquaring_odd start base some] at finite
    obtain ⟨first, _⟩ := ih finite
    exact ⟨(isFinite_of_mul first).1, fun _ => (isFinite_of_mul first).2⟩

section Bounds

variable {start base : Float}

/-- The square of a number from one up is not too large, also with the drift of its next product. -/
theorem isWithin_square (finite : base.isFinite = true) (large : 1 ≤ value base)
    (fits : (value base * drift) ^ 2 ≤ value greatest) :
    IsWithin 1 (value base * value base * drift) (base * base) ∧
      value (base * base) * drift ≤ (value base * drift) ^ 2 := by
  have drifts := one_le_drift
  have nonneg : 0 ≤ value base * value base := mul_nonneg (by linarith) (by linarith)
  have square : (value base * drift) ^ 2 = value base * value base * drift * drift := by ring
  have smaller : value base * value base ≤ (value base * drift) ^ 2 := by
    rw [square, mul_assoc]
    exact le_mul_of_one_le_right nonneg (one_le_mul_of_one_le_of_one_le drifts drifts)
  have within := isWithin_mul large large finite finite (smaller.trans fits)
  refine ⟨within, ?_⟩
  rw [square]
  exact mul_le_mul_of_nonneg_right within.le_high (by linarith)

/-- The bound of what is left of a power after its first digit. -/
theorem mul_square_pow_le {product : Float} {high : ℚ} (half : ℕ)
    (square : 1 ≤ value (base * base))
    (le : value (base * base) * drift ≤ (value base * drift) ^ 2) (nonneg : 0 ≤ value product)
    (le' : value product ≤ high) :
    value product * (value (base * base) * drift) ^ half ≤
      high * (value base * drift) ^ (2 * half) := by
  have above : 0 ≤ value (base * base) * drift :=
    mul_nonneg (by linarith) (by linarith [one_le_drift])
  rw [pow_mul]
  exact mul_le_mul le' (pow_le_pow_left₀ above le half) (pow_nonneg above half) (nonneg.trans le')

/-- **A power is not too large**, and finite if the bound is. -/
theorem isWithin_powerBySquaring {count : ℕ} (finite : start.isFinite = true)
    (finite' : base.isFinite = true) (large : 1 ≤ value start) (large' : 1 ≤ value base)
    (fits : value start * (value base * drift) ^ count ≤ value greatest) :
    IsWithin 1 (value start * (value base * drift) ^ count) (powerBySquaring start base count) := by
  have drifts := one_le_drift
  -- A power of the base alone is not above the bound.
  have alone {start base : Float} {few count : ℕ} (large : 1 ≤ value start)
      (large' : 1 ≤ value base) (le : few ≤ count) :
      (value base * drift) ^ few ≤ value start * (value base * drift) ^ count := by
    have grows : 1 ≤ value base * drift := one_le_mul_of_one_le_of_one_le large' drifts
    exact (pow_le_pow_right₀ grows le).trans (le_mul_of_one_le_left (by positivity) large)
  induction start, base, count using powerBySquaring_induction with
  | zero start base =>
    rw [powerBySquaring_zero, pow_zero, mul_one]
    exact ⟨finite, large, le_rfl⟩
  | one start base =>
    rw [pow_one, ← mul_assoc] at fits ⊢
    rw [powerBySquaring_one]
    have nonneg : 0 ≤ value start * value base := mul_nonneg (by linarith) (by linarith)
    exact isWithin_mul large large' finite finite'
      ((le_mul_of_one_le_right nonneg drifts).trans fits)
  | even start base half some ih =>
    obtain ⟨square, le⟩ := isWithin_square finite' large'
      ((alone large large' (by omega : 2 ≤ 2 * half)).trans fits)
    have le := mul_square_pow_le half square.low_le le (by linarith : 0 ≤ value start) le_rfl
    have within := ih finite square.finite large square.low_le (le.trans fits)
    rw [powerBySquaring_even start base some]
    exact ⟨within.finite, within.low_le, within.le_high.trans le⟩
  | odd start base half some ih =>
    obtain ⟨square, le⟩ := isWithin_square finite' large'
      ((alone large large' (by omega : 2 ≤ 2 * half + 1)).trans fits)
    have split : value start * (value base * drift) ^ (2 * half + 1) =
        value start * value base * drift * (value base * drift) ^ (2 * half) := by ring
    rw [split] at fits ⊢
    have first : value start * value base ≤ value greatest := by
      have nonneg : 0 ≤ value start * value base := mul_nonneg (by linarith) (by linarith)
      have grows : 1 ≤ (value base * drift) ^ (2 * half) :=
        one_le_pow₀ (one_le_mul_of_one_le_of_one_le large' drifts)
      rw [mul_assoc] at fits
      exact (le_mul_of_one_le_right nonneg
        (one_le_mul_of_one_le_of_one_le drifts grows)).trans fits
    have product := isWithin_mul large large' finite finite' first
    have le := mul_square_pow_le half square.low_le le (by linarith [product.low_le])
      product.le_high
    have within := ih product.finite square.finite product.low_le square.low_le (le.trans fits)
    rw [powerBySquaring_odd start base some]
    exact ⟨within.finite, within.low_le, within.le_high.trans le⟩

/-- What is left of a power after its first digit reaches the bound. -/
theorem le_mul_square_pow {product : Float} {low : ℚ} (half : ℕ) (large : 1 ≤ value base)
    (square : (base * base).isFinite = true) (nonneg : 0 ≤ low) (le : low ≤ value product) :
    low * (value base / drift) ^ (2 * half) ≤
      value product * (value (base * base) / drift) ^ half := by
  have positive : 0 < drift := zero_lt_one.trans_le one_le_drift
  have shrunk : (value base / drift) ^ 2 ≤ value (base * base) / drift := by
    rw [div_pow, sq, sq, ← div_div, div_le_div_iff_of_pos_right positive, div_le_iff₀ positive]
    exact mul_le_value_mul large large square
  rw [pow_mul]
  exact mul_le_mul le (pow_le_pow_left₀ (by positivity) shrunk half) (by positivity)
    (nonneg.trans le)

/-- **A power is not too small.** -/
theorem le_value_powerBySquaring {count : ℕ} (large : 1 ≤ value start) (large' : 1 ≤ value base)
    (finite : (powerBySquaring start base count).isFinite = true) :
    value start * (value base / drift) ^ count ≤ value (powerBySquaring start base count) := by
  have positive : 0 < drift := zero_lt_one.trans_le one_le_drift
  have shrunk {x y : Float} (large : 1 ≤ value x) (large' : 1 ≤ value y)
      (finite : (x * y).isFinite = true) : value x * (value y / drift) ≤ value (x * y) := by
    rw [← mul_div_assoc, div_le_iff₀ positive]
    exact mul_le_value_mul large large' finite
  induction start, base, count using powerBySquaring_induction with
  | zero start base => rw [powerBySquaring_zero, pow_zero, mul_one]
  | one start base =>
    rw [powerBySquaring_one] at finite ⊢
    rw [pow_one]
    exact shrunk large large' finite
  | even start base half some ih =>
    rw [powerBySquaring_even start base some] at finite ⊢
    have square := (isFinite_of_powerBySquaring finite).2 some
    exact (le_mul_square_pow half large' square (by linarith) le_rfl).trans
      (ih large (one_le_value_mul large' large' square) finite)
  | odd start base half some ih =>
    rw [powerBySquaring_odd start base some] at finite ⊢
    obtain ⟨product, square⟩ := isFinite_of_powerBySquaring finite
    have square := square some
    have split : value start * (value base / drift) ^ (2 * half + 1) =
        value start * (value base / drift) * (value base / drift) ^ (2 * half) := by ring
    rw [split]
    exact (le_mul_square_pow half large' square (by positivity)
      (shrunk large large' product)).trans
        (ih (one_le_value_mul large large' product) (one_le_value_mul large' large' square) finite)

end Bounds

/-! ## Powers of ten -/

/-- In the powers of ten that are numbers, all products together are off by little. -/
theorem drift_pow_le {count : ℕ} (few : count ≤ 309) : drift ^ count ≤ 3 / 2 := by
  have all : drift ^ count ≤ drift ^ (103 * 3) := pow_le_pow_right₀ one_le_drift few
  have third : drift ^ 103 ≤ 11 / 10 := by
    unfold drift
    norm_num
  have third := pow_le_pow_left₀ (pow_nonneg (zero_le_one.trans one_le_drift) 103) third 3
  rw [← pow_mul] at third
  norm_num at all third ⊢
  linarith

/-- The greatest number lies between one and a half times `10 ^ 308` and two thirds of `10 ^ 309`.
-/
theorem greatest_between : 3 / 2 * (10 : ℚ) ^ 308 ≤ value greatest ∧
    value greatest < 2 / 3 * (10 : ℚ) ^ 309 := by
  have binary : (2 : ℚ) ^ (971 : ℤ) = (2 ^ 194) ^ 5 * 2 := by
    rw [← pow_mul, ← pow_succ]
    rfl
  have decimal : (10 : ℚ) ^ 308 = (10 ^ 154) ^ 2 := by rw [← pow_mul]
  have next : (10 : ℚ) ^ 309 = (10 ^ 103) ^ 3 := by rw [← pow_mul]
  rw [value_greatest, binary, decimal, next]
  norm_num

/-- Ten to a power up to the 308th is a number. -/
theorem isWithin_tenth {count : ℕ} (few : count ≤ 308) :
    IsWithin 1 (value greatest) (powerBySquaring 1 10 count) := by
  have fits : value 1 * (value 10 * drift) ^ count ≤ value greatest := by
    have ten : (10 : ℚ) ^ count ≤ 10 ^ 308 := pow_le_pow_right₀ (by norm_num) few
    have drifts := drift_pow_le (few.trans (Nat.le_succ 308))
    rw [value_one, value_ten, Rat.one_mul, mul_pow, mul_comm]
    exact (mul_le_mul drifts ten (by positivity) (by norm_num)).trans greatest_between.1
  have within := isWithin_powerBySquaring isFinite_one (by decide) (by rw [value_one])
    (by rw [value_ten]; norm_num) fits
  exact ⟨within.finite, within.low_le, within.le_high.trans fits⟩

/-- Ten to a higher power is the infinity. -/
theorem parts_tenth {count : ℕ} (many : 308 < count) :
    parts (powerBySquaring 1 10 count) = .infinity .positive := by
  have large : 1 ≤ powerBySquaring 1 10 count := one_le_powerBySquaring (by decide) (by decide)
  rcases zero_le_iff.mp (le_trans (by decide) large) with ⟨finite, _⟩ | infinite
  · have low := le_value_powerBySquaring (by rw [value_one]) (by rw [value_ten]; norm_num) finite
    have high := value_le_greatest (powerBySquaring 1 10 count)
    rw [value_one, value_ten, Rat.one_mul] at low
    have grows : 1 ≤ 10 / drift := by
      unfold drift
      norm_num
    have reached : 2 / 3 * (10 : ℚ) ^ 309 ≤ (10 / drift) ^ 309 := by
      rw [div_pow, le_div_iff₀ (by unfold drift; positivity)]
      have drifts := drift_pow_le le_rfl
      have ten : (0 : ℚ) ≤ 2 / 3 * 10 ^ 309 := by positivity
      have cancel (q : ℚ) : 2 / 3 * q * (3 / 2) = q := by ring
      exact (mul_le_mul_of_nonneg_left drifts ten).trans_eq (cancel _)
    have more : (10 / drift) ^ 309 ≤ (10 / drift) ^ count := pow_le_pow_right₀ grows many
    exact absurd (reached.trans (more.trans (low.trans high))) greatest_between.2.not_ge
  · exact infinite

/-- **Ten to a power from the -308th to the 308th is finite and positive.** -/
theorem powerOfTen_pos {power : ℤ} (few : power.natAbs ≤ 308) :
    (powerOfTen power).isFinite = true ∧ 0 < value (powerOfTen power) := by
  have within := isWithin_tenth few
  have positive : 0 < value (powerBySquaring 1 10 power.natAbs) :=
    zero_lt_one.trans_le within.low_le
  unfold powerOfTen
  dsimp only
  split
  · -- No reciprocal is below that of the greatest number.
    have reciprocal := roundsTo_div isFinite_one within.finite positive.ne'
    have least := roundsTo_div isFinite_one isFinite_greatest
      (positive.trans_le within.le_high).ne'
    rw [value_one] at reciprocal least
    have above := least.mono reciprocal (one_div_le_one_div_of_le positive within.le_high)
    have bounded := reciprocal.isWithin_one (by positivity)
      (div_le_one_of_le₀ within.low_le positive.le)
    have some : 0 < 1 / greatest := by decide +kernel
    exact ⟨bounded.finite, (zero_lt_iff_value bounded.finite).mp (lt_of_lt_of_le some above)⟩
  · exact ⟨within.finite, positive⟩

/-- **Beyond these powers of ten there are only the infinity and zero.** -/
theorem parts_powerOfTen {power : ℤ} (many : 308 < power.natAbs) :
    parts (powerOfTen power) = .infinity .positive ∨
      parts (powerOfTen power) = .zero .positive := by
  have infinite := parts_tenth many
  unfold powerOfTen
  dsimp only
  split
  · refine .inr ?_
    have stored : 1 / powerBySquaring 1 10 power.natAbs = ofParts (UnpackedFloat.div .binary64
      (parts 1) (parts (powerBySquaring 1 10 power.natAbs))) := rfl
    rw [stored, infinite, parts_one]
    exact parts_ofParts trivial
  · exact .inl infinite

end Waveform.Binary64
