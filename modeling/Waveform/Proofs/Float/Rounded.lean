import Waveform.Proofs.Float.Value

/-!
# Rounded results

The result of a sum, a difference, a product or a quotient of finite numbers is the value of
that operation, rounded (`RoundsTo`). Rounding keeps the order of numbers, and leaves those
alone that need none; so a result lies between two numbers when the value does, and is finite
when the value is not beyond a finite number.

A rounded number is off by at most a unit of `2 ^ -53` relative to the number, or by half of
the least positive number; the latter does not happen for multiples of that least number, as
sums are.
-/

set_option autoImplicit false

namespace Waveform.Binary64

open Float.Model Float.Model.UnpackedFloat

/-! ## Rounded parts -/

section Rounds

variable {sign : Sign} {p q : ℚ} {u v : UnpackedFloat}

theorem carried_neg (sign : Sign) (whole : ℕ) (exponent : ℤ) :
    (carried sign whole exponent).neg = carried (-sign) whole exponent := by
  unfold carried
  split
  · rfl
  · split <;> rfl

theorem Rounds.neg (rounds : Rounds sign q u) : Rounds (-sign) q u.neg := by
  obtain ⟨whole, exponent, grid, nearest, rfl⟩ := rounds
  exact ⟨whole, exponent, grid, nearest, carried_neg sign whole exponent⟩

theorem partsValue_carried (sign : Sign) {whole : ℕ} (exponent : ℤ) (le : whole ≤ 2 ^ 53) :
    partsValue (carried sign whole exponent) = signValue sign * (whole * 2 ^ exponent) := by
  unfold carried
  split
  · next zero => simp [zero, partsValue]
  · split
    · rfl
    · next carry =>
      have whole : whole = 2 ^ 53 := by omega
      rw [partsValue, whole, zpow_add_one₀ (by norm_num)]
      push_cast
      ring

/-- What a number is rounded to, as a multiple of its grid. -/
theorem Rounds.exists_nearest (rounds : Rounds sign q u) :
    ∃ (whole : ℕ) (exponent : ℤ), IsGrid q exponent ∧ IsNearest (q / 2 ^ exponent) whole ∧
      whole ≤ 2 ^ 53 ∧ partsValue u = signValue sign * (whole * 2 ^ exponent) := by
  obtain ⟨whole, exponent, grid, nearest, rfl⟩ := rounds
  have le : whole ≤ 2 ^ 53 := by
    refine nearest.le_of_le ?_
    rw [div_le_iff₀ (power_pos exponent)]
    exact_mod_cast grid.below.le
  exact ⟨whole, exponent, grid, nearest, le, partsValue_carried sign exponent le⟩

theorem IsNearest.mono {x y : ℚ} {whole whole' : ℕ} (nearest : IsNearest x whole)
    (nearest' : IsNearest y whole') (le : x ≤ y) : whole ≤ whole' := by
  by_contra greater
  have next : (whole' : ℚ) + 1 ≤ whole := by exact_mod_cast Nat.lt_of_not_le greater
  have same : x = y := le_antisymm le (by linarith [nearest.low, nearest'.high])
  subst same
  exact greater (nearest.unique nearest').le

theorem IsGrid.mono {e e' : ℤ} (grid : IsGrid p e) (grid' : IsGrid q e') (le : p ≤ q) : e ≤ e' := by
  rcases grid.full with full | least
  · exact grid'.le_of_full (full.trans le)
  · rw [least]
    exact grid'.lowest

/-- Rounding keeps the order of positive numbers. -/
theorem Rounds.value_mono (rounds : Rounds .positive p u) (rounds' : Rounds .positive q v)
    (le : p ≤ q) : partsValue u ≤ partsValue v := by
  obtain ⟨whole, exponent, grid, nearest, atMost, value⟩ := rounds.exists_nearest
  obtain ⟨whole', exponent', grid', nearest', _, value'⟩ := rounds'.exists_nearest
  rw [value, value', signValue, Rat.one_mul, Rat.one_mul]
  have power := power_pos exponent
  rcases lt_or_eq_of_le (grid.mono grid' le) with less | rfl
  · have full := grid'.full.resolve_right fun least => by
      have lowest := grid.lowest
      omega
    have many : 2 ^ 52 ≤ whole' := by
      refine nearest'.ge_of_le ?_
      rw [le_div_iff₀ (power_pos exponent')]
      exact_mod_cast full
    have atMost : (whole : ℚ) ≤ 2 ^ 53 := by exact_mod_cast atMost
    have many : (2 : ℚ) ^ 52 ≤ whole' := by exact_mod_cast many
    calc (whole : ℚ) * 2 ^ exponent ≤ 2 ^ 53 * 2 ^ exponent := by gcongr
      _ ≤ 2 ^ 52 * 2 ^ exponent' := power_le (by omega)
      _ ≤ whole' * 2 ^ exponent' := by gcongr
  · have le : whole ≤ whole' := by
      refine nearest.mono nearest' ?_
      gcongr
    gcongr

/-- What is rounded is stored as it is, or as an infinity if its value is too large. -/
theorem Rounds.bounded_cases (rounds : Rounds sign q u) :
    (bounded u = .infinity sign ∧ 2 ^ (1024 : ℤ) ≤ |partsValue u|) ∨
      (bounded u = u ∧ u.isFinite = true ∧ |partsValue u| < 2 ^ (1024 : ℤ)) := by
  have enough : (0 : ℚ) < 2 ^ (1024 : ℤ) := power_pos 1024
  rcases rounds.zero_or_finite with rfl | ⟨mantissa, exponent, canonical, rfl⟩
  · exact .inr ⟨rfl, rfl, by rwa [partsValue_zero, abs_zero]⟩
  · rw [abs_partsValue, UnpackedFloat.abs, partsValue, signValue, Rat.one_mul]
    by_cases large : 971 < exponent
    · refine .inl ⟨if_pos large, ?_⟩
      have full : (2 : ℚ) ^ 52 ≤ mantissa := by
        exact_mod_cast canonical.full.resolve_right (by omega)
      calc (2 : ℚ) ^ (1024 : ℤ) = 2 ^ 52 * 2 ^ (972 : ℤ) := by
            rw [← zpow_natCast, ← zpow_add₀ (by norm_num)]
            rfl
        _ ≤ 2 ^ 52 * 2 ^ exponent := power_le (by omega)
        _ ≤ mantissa * 2 ^ exponent := by gcongr
    · refine .inr ⟨if_neg large, rfl, ?_⟩
      have fits : (mantissa : ℚ) < 2 ^ 53 := by exact_mod_cast canonical.fits
      calc (mantissa : ℚ) * 2 ^ exponent < 2 ^ 53 * 2 ^ exponent := by gcongr
        _ ≤ 2 ^ 53 * 2 ^ (971 : ℤ) := power_le (by omega)
        _ = 2 ^ (1024 : ℤ) := by
            rw [← zpow_natCast, ← zpow_add₀ (by norm_num)]
            rfl

theorem Rounds.value_nonneg (rounds : Rounds .positive q u) : 0 ≤ partsValue u := by
  obtain ⟨whole, exponent, _, _, _, value⟩ := rounds.exists_nearest
  have power := power_pos exponent
  rw [value, signValue, Rat.one_mul]
  positivity

/-- **Rounding keeps the order of positive numbers**, up to the infinity. -/
theorem Rounds.rank_mono (rounds : Rounds .positive p u) (rounds' : Rounds .positive q v)
    (le : p ≤ q) : partsRank (bounded u) ≤ partsRank (bounded v) := by
  rcases rounds'.bounded_cases with ⟨infinite, _⟩ | ⟨same', finite', small⟩
  · rw [infinite]
    exact le_top
  · have order := rounds.value_mono rounds' le
    rcases rounds.bounded_cases with ⟨_, large⟩ | ⟨same, finite, _⟩
    · rw [abs_of_nonneg rounds.value_nonneg] at large
      rw [abs_of_nonneg rounds'.value_nonneg] at small
      exact absurd order (by linarith)
    · rw [same, same', partsRank_of_isFinite finite, partsRank_of_isFinite finite', inner_le_inner]
      exact order

end Rounds

/-! ## Rounded numbers -/

/-- Whether a number is what a value is rounded to. A zero may have any sign. -/
def RoundsTo (q : ℚ) (x : Float) : Prop :=
  IsRounded q x ∨ IsRounded (-q) (-x)

section IsRounded

variable {p q : ℚ} {x y : Float}

theorem IsRounded.nonneg (rounded : IsRounded q x) : 0 ≤ q := by
  rcases rounded with ⟨rfl, _⟩ | ⟨positive, _⟩
  · exact le_rfl
  · exact positive.le

theorem IsRounded.isNaN (rounded : IsRounded q x) : x.isNaN = false := by
  change (parts x).isNaN = false
  rcases rounded with ⟨_, zero⟩ | ⟨_, u, rounds, same⟩
  · rw [zero]
    rfl
  · rw [same]
    rcases rounds.bounded_cases with ⟨infinite, _⟩ | ⟨stored, finite, _⟩
    · rw [infinite]
      rfl
    · rw [stored]
      cases u with
      | notANumber | infinity => cases finite
      | zero | finite => rfl

theorem IsRounded.mono (rounded : IsRounded p x) (rounded' : IsRounded q y) (le : p ≤ q) :
    x ≤ y := by
  rw [le_iff_rank rounded.isNaN rounded'.isNaN, rank, rank]
  rcases rounded with ⟨rfl, zero⟩ | ⟨positive, u, rounds, same⟩
  · rw [zero]
    rcases rounded' with ⟨_, zero'⟩ | ⟨_, v, rounds', same'⟩
    · rw [zero']
    · rw [same']
      rcases rounds'.bounded_cases with ⟨infinite, _⟩ | ⟨stored, finite, _⟩
      · rw [infinite]
        exact le_top
      · rw [stored, partsRank_of_isFinite finite]
        exact inner_le_inner.mpr rounds'.value_nonneg
  · rcases rounded' with ⟨rfl, _⟩ | ⟨_, v, rounds', same'⟩
    · exact absurd le (not_le.mpr positive)
    · rw [same, same']
      exact rounds.rank_mono rounds' le

end IsRounded

namespace RoundsTo

variable {p q : ℚ} {x y : Float}

theorem neg (rounds : RoundsTo q x) : RoundsTo (-q) (-x) := by
  rcases rounds with rounded | rounded
  · refine .inr ?_
    rwa [Rat.neg_neg, Binary64.neg_neg]
  · exact .inl rounded

theorem isNaN (rounds : RoundsTo q x) : x.isNaN = false := by
  rcases rounds with rounded | rounded
  · exact rounded.isNaN
  · rw [← isNaN_neg]
    exact rounded.isNaN

theorem of_zero {sign : Sign} (zero : parts x = .zero sign) : RoundsTo 0 x := by
  cases sign with
  | positive => exact .inl (.inl ⟨rfl, zero⟩)
  | negative =>
    refine .inr (.inl ⟨neg_zero, ?_⟩)
    rw [parts_neg, zero]
    rfl

theorem le_of_zeros {first second : Sign} (zero : parts x = .zero first)
    (zero' : parts y = .zero second) : x ≤ y := by
  rw [le_iff, zero, zero']
  rfl

/-- **Rounding keeps the order of numbers.** -/
theorem mono (rounds : RoundsTo p x) (rounds' : RoundsTo q y) (le : p ≤ q) : x ≤ y := by
  have zero : IsRounded 0 0 := .inl ⟨rfl, parts_zero⟩
  rcases rounds with rounded | rounded <;> rcases rounds' with rounded' | rounded'
  · exact rounded.mono rounded' le
  · -- Both values are zero.
    have first : x ≤ 0 := rounded.mono zero (by linarith [rounded'.nonneg])
    have second : -y ≤ 0 := rounded'.mono zero (by linarith [rounded.nonneg])
    have turned : -0 ≤ y := neg_le_neg_iff.mp (by rwa [Binary64.neg_neg])
    exact le_trans (le_trans first (le_of_zeros parts_zero (parts_neg 0))) turned
  · have first : 0 ≤ -x := zero.mono rounded rounded.nonneg
    have second : 0 ≤ y := zero.mono rounded' rounded'.nonneg
    have turned : x ≤ -0 := neg_le_neg_iff.mp (by rwa [Binary64.neg_neg])
    exact le_trans (le_trans turned (le_of_zeros (parts_neg 0) parts_zero)) second
  · exact neg_le_neg_iff.mp (rounded'.mono rounded (by linarith))

end RoundsTo

/-! ## Results of operations -/

section Stored

variable {sign : Sign} {q : ℚ} {u : UnpackedFloat}

theorem roundsTo_zero (sign : Sign) : RoundsTo 0 (ofParts (.zero sign)) :=
  .of_zero (parts_ofParts (trivial : Canonical (.zero sign)))

/-- What is stored for rounded parts. -/
theorem roundsTo_of_rounds (rounds : Rounds sign q u) (positive : 0 < q) :
    RoundsTo (signValue sign * q) (ofParts u) := by
  cases sign with
  | positive =>
    rw [signValue, Rat.one_mul]
    exact .inl (isRounded_of_rounds positive rounds)
  | negative =>
    refine .inr ?_
    rw [neg_ofParts rounds.canonical, signValue, show -(-1 * q) = q by ring]
    exact isRounded_of_rounds positive rounds.neg

theorem roundsTo_normalize (whole : ℤ) (exponent : ℤ) :
    RoundsTo (whole * 2 ^ exponent)
      (ofParts (UnpackedFloat.normalize .binary64 whole exponent .positive)) := by
  rcases Int.lt_trichotomy whole 0 with less | rfl | greater
  · obtain ⟨mantissa, rfl⟩ : ∃ mantissa : ℕ, whole = -(mantissa : ℤ) := ⟨whole.natAbs, by omega⟩
    have some : 0 < mantissa := by omega
    have rounds := rounds_round .negative some exponent
    have positive : (0 : ℚ) < mantissa * 2 ^ exponent :=
      mul_pos (by exact_mod_cast some) (power_pos exponent)
    have same : signValue .negative * (mantissa * 2 ^ exponent) =
        ((-(mantissa : ℤ) : ℤ) : ℚ) * 2 ^ exponent := by
      rw [signValue]
      push_cast
      ring
    rw [← same, UnpackedFloat.normalize, Int.compare_eq_lt.mpr less]
    have magnitude : (- -(mantissa : ℤ)).toNat = mantissa := by omega
    simp only [magnitude]
    exact roundsTo_of_rounds rounds positive
  · rw [Int.cast_zero, zero_mul]
    exact roundsTo_zero .positive
  · obtain ⟨mantissa, rfl⟩ := Int.eq_ofNat_of_zero_le greater.le
    have some : 0 < mantissa := by omega
    have rounds := rounds_round .positive some exponent
    have positive : (0 : ℚ) < mantissa * 2 ^ exponent :=
      mul_pos (by exact_mod_cast some) (power_pos exponent)
    have same : signValue .positive * (mantissa * 2 ^ exponent) =
        ((mantissa : ℤ) : ℚ) * 2 ^ exponent := by
      rw [signValue, Rat.one_mul, Int.cast_natCast]
    rw [← same, UnpackedFloat.normalize, Int.compare_eq_gt.mpr greater]
    exact roundsTo_of_rounds rounds positive

end Stored

/-- Canonical parts need no rounding. -/
theorem roundsTo_ofParts {u : UnpackedFloat} (canonical : Canonical u)
    (finite : u.isFinite = true) :
    RoundsTo (partsValue u) (ofParts u) := by
  cases u with
  | notANumber | infinity => cases finite
  | zero sign => exact roundsTo_zero sign
  | finite sign mantissa exponent some =>
    have canonical : IsCanonical mantissa exponent := canonical
    have positive : (0 : ℚ) < mantissa * 2 ^ exponent :=
      mul_pos (by exact_mod_cast some) (power_pos exponent)
    obtain ⟨v, rounds⟩ := exists_rounds sign positive
    obtain rfl := rounds.eq_of_canonical canonical
    exact roundsTo_of_rounds rounds positive

/-- A stored number needs no rounding. -/
theorem roundsTo_value {x : Float} (finite : x.isFinite = true) : RoundsTo (value x) x := by
  have rounds := roundsTo_ofParts (canonical_parts x).1 finite
  rwa [ofParts_parts] at rounds

section Operations

variable {x y : Float} (finite : x.isFinite = true) (finite' : y.isFinite = true)

theorem apply_shift (sign : Sign) (mantissa : ℕ) {exponent target : ℤ} (le : target ≤ exponent) :
    (sign.apply (mantissa <<< (exponent - target).toNat : ℕ) : ℚ) * 2 ^ target =
      signValue sign * (mantissa * 2 ^ exponent) := by
  obtain ⟨shift, rfl⟩ : ∃ shift : ℕ, exponent = target + shift :=
    ⟨(exponent - target).toNat, by omega⟩
  have amount : (target + shift - target).toNat = shift := by omega
  rw [amount, Nat.shiftLeft_eq, zpow_add₀ (by norm_num), zpow_natCast]
  cases sign <;> simp only [Sign.apply, signValue] <;> push_cast <;> ring

/-- **A sum is the sum of the values, rounded.** -/
theorem roundsTo_add (finite : x.isFinite = true) (finite' : y.isFinite = true) :
    RoundsTo (value x + value y) (x + y) := by
  have stored : x + y = ofParts (UnpackedFloat.add .binary64 (parts x) (parts y)) := rfl
  have canonical := (canonical_parts x).1
  have canonical' := (canonical_parts y).1
  have finite : (parts x).isFinite = true := finite
  have finite' : (parts y).isFinite = true := finite'
  rw [stored, value, value]
  generalize parts x = u, parts y = v at *
  cases u with
  | notANumber | infinity => cases finite
  | zero s₁ =>
    cases v with
    | notANumber | infinity => cases finite'
    | zero s₂ =>
      rw [partsValue_zero, partsValue_zero, add_zero]
      cases s₁ <;> cases s₂ <;> exact roundsTo_zero _
    | finite s₂ m₂ e₂ p₂ =>
      rw [partsValue_zero, zero_add]
      exact roundsTo_ofParts canonical' finite'
  | finite s₁ m₁ e₁ p₁ =>
    cases v with
    | notANumber | infinity => cases finite'
    | zero s₂ =>
      rw [partsValue_zero, add_zero]
      exact roundsTo_ofParts canonical finite
    | finite s₂ m₂ e₂ p₂ =>
      have aligned := roundsTo_normalize
        (s₁.apply (m₁ <<< (e₁ - min e₁ e₂).toNat : ℕ) +
          s₂.apply (m₂ <<< (e₂ - min e₁ e₂).toNat : ℕ))
        (min e₁ e₂)
      rw [Int.cast_add, add_mul, apply_shift s₁ m₁ (min_le_left e₁ e₂),
        apply_shift s₂ m₂ (min_le_right e₁ e₂)] at aligned
      exact aligned

/-- **A difference is the difference of the values, rounded.** -/
theorem roundsTo_sub (finite : x.isFinite = true) (finite' : y.isFinite = true) :
    RoundsTo (value x - value y) (x - y) := by
  have turned : (-y).isFinite = true := by rwa [isFinite_neg]
  have rounds := roundsTo_add finite turned
  rwa [value_neg, ← Rat.sub_eq_add_neg, ← Binary64.sub_eq_add_neg] at rounds

theorem signValue_mul (s₁ s₂ : Sign) : signValue (s₁ * s₂) = signValue s₁ * signValue s₂ := by
  cases s₁ <;> cases s₂
  · change (1 : ℚ) = -1 * -1
    norm_num
  · change (-1 : ℚ) = -1 * 1
    norm_num
  · change (-1 : ℚ) = 1 * -1
    norm_num
  · change (1 : ℚ) = 1 * 1
    norm_num

theorem signValue_div (s₁ s₂ : Sign) : signValue (s₁ / s₂) = signValue s₁ / signValue s₂ := by
  cases s₁ <;> cases s₂
  · change (1 : ℚ) = -1 / -1
    norm_num
  · change (-1 : ℚ) = -1 / 1
    norm_num
  · change (-1 : ℚ) = 1 / -1
    norm_num
  · change (1 : ℚ) = 1 / 1
    norm_num

/-- **A product is the product of the values, rounded.** -/
theorem roundsTo_mul (finite : x.isFinite = true) (finite' : y.isFinite = true) :
    RoundsTo (value x * value y) (x * y) := by
  have stored : x * y = ofParts (UnpackedFloat.mul .binary64 (parts x) (parts y)) := rfl
  have canonical := (canonical_parts x).1
  have canonical' := (canonical_parts y).1
  have finite : (parts x).isFinite = true := finite
  have finite' : (parts y).isFinite = true := finite'
  rw [stored, value, value]
  generalize parts x = u, parts y = v at *
  cases u with
  | notANumber | infinity => cases finite
  | zero s₁ =>
    rw [partsValue_zero, Rat.zero_mul]
    cases v with
    | notANumber | infinity => cases finite'
    | zero | finite => exact roundsTo_zero _
  | finite s₁ m₁ e₁ p₁ =>
    cases v with
    | notANumber | infinity => cases finite'
    | zero s₂ =>
      rw [partsValue_zero, Rat.mul_zero]
      exact roundsTo_zero _
    | finite s₂ m₂ e₂ p₂ =>
      have positive : (0 : ℚ) < (m₁ * 2 ^ e₁) * (m₂ * 2 ^ e₂) :=
        mul_pos (mul_pos (by exact_mod_cast p₁) (power_pos e₁))
          (mul_pos (by exact_mod_cast p₂) (power_pos e₂))
      have rounds : Rounds (s₁ * s₂) ((m₁ * 2 ^ e₁) * (m₂ * 2 ^ e₂)) (UnpackedFloat.mul .binary64
          (.finite s₁ m₁ e₁ p₁) (.finite s₂ m₂ e₂ p₂)) :=
        rounds_mul (digits_mul canonical canonical')
      have signed := roundsTo_of_rounds rounds positive
      rwa [signValue_mul, mul_mul_mul_comm] at signed

/-- **A quotient is the quotient of the values, rounded**, if the divisor is not zero. -/
theorem roundsTo_div (finite : x.isFinite = true) (finite' : y.isFinite = true)
    (some : value y ≠ 0) : RoundsTo (value x / value y) (x / y) := by
  have stored : x / y = ofParts (UnpackedFloat.div .binary64 (parts x) (parts y)) := rfl
  have canonical := (canonical_parts x).1
  have canonical' := (canonical_parts y).1
  have finite : (parts x).isFinite = true := finite
  have finite' : (parts y).isFinite = true := finite'
  rw [stored, value, value]
  rw [value] at some
  generalize parts x = u, parts y = v at *
  cases u with
  | notANumber | infinity => cases finite
  | zero s₁ =>
    rw [partsValue_zero, zero_div]
    cases v with
    | notANumber | infinity => cases finite'
    | zero s₂ => exact absurd (partsValue_zero s₂) some
    | finite => exact roundsTo_zero _
  | finite s₁ m₁ e₁ p₁ =>
    cases v with
    | notANumber | infinity => cases finite'
    | zero s₂ => exact absurd (partsValue_zero s₂) some
    | finite s₂ m₂ e₂ p₂ =>
      have positive : (0 : ℚ) < (m₁ * 2 ^ e₁) / (m₂ * 2 ^ e₂) :=
        div_pos (mul_pos (by exact_mod_cast p₁) (power_pos e₁))
          (mul_pos (by exact_mod_cast p₂) (power_pos e₂))
      have rounds : Rounds (s₁ / s₂) ((m₁ * 2 ^ e₁) / (m₂ * 2 ^ e₂)) (UnpackedFloat.div .binary64
          (.finite s₁ m₁ e₁ p₁) (.finite s₂ m₂ e₂ p₂)) := rounds_div
      have signed := roundsTo_of_rounds rounds positive
      rwa [signValue_div, div_mul_div_comm] at signed

end Operations

end Waveform.Binary64
