import Waveform.Proofs.Decimal.Nearest

/-!
# Laws of floating-point arithmetic

Few laws of arithmetic hold of floating-point numbers bit for bit. Signs may be moved, since
rounding does not depend on them, and a one or a zero may be left out in most places. All
laws here hold of infinities and NaNs too.
-/

set_option autoImplicit false

namespace Waveform.Binary64

open Float.Model Float.Model.UnpackedFloat

/-! ## Signs -/

section Parts

variable {u v : UnpackedFloat}

theorem canonical_neg (canonical : Canonical u) : Canonical u.neg := by
  cases u <;> exact canonical

theorem canonical_abs (canonical : Canonical u) : Canonical u.abs := by
  cases u <;> exact canonical

theorem bounded_neg (u : UnpackedFloat) : bounded u.neg = (bounded u).neg := by
  cases u with
  | finite sign mantissa exponent positive =>
    simp only [UnpackedFloat.neg, bounded]
    split <;> rfl
  | _ => rfl

theorem bounded_abs (u : UnpackedFloat) : bounded u.abs = (bounded u).abs := by
  cases u with
  | finite sign mantissa exponent positive =>
    simp only [UnpackedFloat.abs, bounded]
    split <;> rfl
  | _ => rfl

/-- What is stored for parts does not change when they are bounded first. -/
theorem ofParts_bounded (canonical : Canonical u) : ofParts (bounded u) = ofParts u := by
  rw [← parts_ofParts canonical, ofParts_parts]

theorem neg_ofParts (canonical : Canonical u) : -ofParts u = ofParts u.neg := by
  have same : -ofParts u = ofParts (parts (ofParts u)).neg := rfl
  rw [same, parts_ofParts canonical, ← bounded_neg, ofParts_bounded (canonical_neg canonical)]

theorem abs_ofParts (canonical : Canonical u) : (ofParts u).abs = ofParts u.abs := by
  have same : (ofParts u).abs = ofParts (parts (ofParts u)).abs := rfl
  rw [same, parts_ofParts canonical, ← bounded_abs, ofParts_bounded (canonical_abs canonical)]

theorem parts_neg (x : Float) : parts (-x) = (parts x).neg := by
  obtain ⟨canonical, same⟩ := canonical_parts x
  have stored : -x = ofParts (parts x).neg := rfl
  rw [stored, parts_ofParts (canonical_neg canonical), bounded_neg, same]

theorem parts_abs (x : Float) : parts x.abs = (parts x).abs := by
  obtain ⟨canonical, same⟩ := canonical_parts x
  have stored : x.abs = ofParts (parts x).abs := rfl
  rw [stored, parts_ofParts (canonical_abs canonical), bounded_abs, same]

/-- A sign is changed before rounding or behind it. -/
theorem neg_roundWithAccuracy (sign : Sign) (mantissa : ℕ) (exponent : ℤ) (accuracy : Accuracy) :
    (roundWithAccuracy .binary64 sign mantissa exponent accuracy).neg =
      roundWithAccuracy .binary64 (-sign) mantissa exponent accuracy := by
  simp only [roundWithAccuracy]
  split <;> rfl

theorem abs_roundWithAccuracy (sign : Sign) (mantissa : ℕ) (exponent : ℤ) (accuracy : Accuracy) :
    (roundWithAccuracy .binary64 sign mantissa exponent accuracy).abs =
      roundWithAccuracy .binary64 .positive mantissa exponent accuracy := by
  simp only [roundWithAccuracy]
  split <;> rfl

theorem neg_mul_sign (s₁ s₂ : Sign) : -s₁ * s₂ = -(s₁ * s₂) := by
  cases s₁ <;> cases s₂ <;> rfl

theorem neg_mul_parts (u v : UnpackedFloat) :
    UnpackedFloat.mul .binary64 u.neg v = (UnpackedFloat.mul .binary64 u v).neg := by
  cases u with
  | finite s₁ m₁ e₁ p₁ =>
    cases v with
    | finite s₂ m₂ e₂ p₂ =>
      change roundWithAccuracy .binary64 (-s₁ * s₂) (m₁ * m₂) (e₁ + e₂) .exact =
        (roundWithAccuracy .binary64 (s₁ * s₂) (m₁ * m₂) (e₁ + e₂) .exact).neg
      rw [neg_roundWithAccuracy, neg_mul_sign]
    | _ => simp only [UnpackedFloat.neg, UnpackedFloat.mul, neg_mul_sign]
  | _ => cases v <;> simp only [UnpackedFloat.neg, UnpackedFloat.mul, neg_mul_sign]

theorem sub_parts (u v : UnpackedFloat) :
    UnpackedFloat.sub .binary64 u v = UnpackedFloat.add .binary64 u v.neg := by
  cases u with
  | finite s₁ m₁ e₁ p₁ =>
    cases v with
    | finite s₂ m₂ e₂ p₂ =>
      have moved (n : ℤ) : (-s₂).apply n = -s₂.apply n := by
        cases s₂
        · exact (neg_neg n).symm
        · rfl
      simp only [UnpackedFloat.neg, UnpackedFloat.sub, UnpackedFloat.add, moved, Int.sub_eq_add_neg]
    | _ => rfl
  | _ => cases v <;> rfl

end Parts

/-! ## Products and quotients -/

/-- The exponent of a product of canonical numbers is small, or there are digits enough. -/
theorem digits_mul {m₁ m₂ : ℕ} {e₁ e₂ : ℤ} (canonical : IsCanonical m₁ e₁)
    (canonical' : IsCanonical m₂ e₂) : 52 ≤ (m₁ * m₂).log2 ∨ e₁ + e₂ ≤ -1074 := by
  have some := (Nat.mul_pos canonical.positive canonical'.positive).ne'
  rcases canonical.full with full | least
  · exact .inl
      ((Nat.le_log2 some).mpr (full.trans (Nat.le_mul_of_pos_right m₁ canonical'.positive)))
  · rcases canonical'.full with full | least'
    · exact .inl
        ((Nat.le_log2 some).mpr (full.trans (Nat.le_mul_of_pos_left m₂ canonical.positive)))
    · exact .inr (by omega)

theorem canonical_mul {u v : UnpackedFloat} (canonical : Canonical u) (canonical' : Canonical v) :
    Canonical (UnpackedFloat.mul .binary64 u v) := by
  cases u with
  | finite s₁ m₁ e₁ p₁ =>
    cases v with
    | finite s₂ m₂ e₂ p₂ => exact (rounds_mul (digits_mul canonical canonical')).canonical
    | _ => trivial
  | _ => cases v <;> trivial

theorem canonical_div (u v : UnpackedFloat) : Canonical (UnpackedFloat.div .binary64 u v) := by
  cases u with
  | finite s₁ m₁ e₁ p₁ =>
    cases v with
    | finite s₂ m₂ e₂ p₂ => exact rounds_div.canonical
    | _ => trivial
  | _ => cases v <;> trivial

theorem neg_mul (x y : Float) : -x * y = -(x * y) := by
  have left : -x * y = ofParts (UnpackedFloat.mul .binary64 (parts (-x)) (parts y)) := rfl
  have right : x * y = ofParts (UnpackedFloat.mul .binary64 (parts x) (parts y)) := rfl
  have canonical := canonical_mul (canonical_parts x).1 (canonical_parts y).1
  rw [left, right, parts_neg, neg_mul_parts, neg_ofParts canonical]

theorem sub_eq_add_neg (x y : Float) : x - y = x + -y := by
  have left : x - y = ofParts (UnpackedFloat.sub .binary64 (parts x) (parts y)) := rfl
  have right : x + -y = ofParts (UnpackedFloat.add .binary64 (parts x) (parts (-y))) := rfl
  rw [left, right, parts_neg, sub_parts]

/-! ## Ones and halves -/

/-- The number that is stored for the parts of a number is that number. -/
theorem ofParts_eq {x : Float} {u : UnpackedFloat} (same : u = parts x) : ofParts u = x := by
  rw [same, ofParts_parts]

theorem isCanonical_one : IsCanonical (2 ^ 52) (-52) :=
  ⟨by decide, by decide, by decide, .inl (Nat.le_refl _)⟩

theorem isCanonical_half : IsCanonical (2 ^ 52) (-53) :=
  ⟨by decide, by decide, by decide, .inl (Nat.le_refl _)⟩

theorem parts_one : parts 1 = .finite .positive (2 ^ 52) (-52) (by decide) := by
  have value : ((1 : ℕ) : ℚ) * 10 ^ (0 : ℤ) = (2 ^ 52 : ℕ) * 2 ^ (-52 : ℤ) := by norm_num
  have literal : (1 : Float) = Float.ofScientific 1 ((0 : ℤ) < 0) (0 : ℤ).natAbs := rfl
  rw [literal, parts_ofScientific isCanonical_one (by decide) value]

theorem parts_half : parts 0.5 = .finite .positive (2 ^ 52) (-53) (by decide) := by
  have value : ((5 : ℕ) : ℚ) * 10 ^ (-1 : ℤ) = (2 ^ 52 : ℕ) * 2 ^ (-53 : ℤ) := by norm_num
  have literal : (0.5 : Float) = Float.ofScientific 5 ((-1 : ℤ) < 0) (-1 : ℤ).natAbs := rfl
  rw [literal, parts_ofScientific isCanonical_half (by decide) value]

theorem one_mul (x : Float) : 1 * x = x := by
  have stored : 1 * x = ofParts (UnpackedFloat.mul .binary64 (parts 1) (parts x)) := rfl
  have canonical := (canonical_parts x).1
  rw [stored, parts_one]
  apply ofParts_eq
  generalize parts x = u at canonical
  cases u with
  | finite sign mantissa exponent positive =>
    have canonical : IsCanonical mantissa exponent := canonical
    have many : 2 ^ 52 ≤ 2 ^ 52 * mantissa := Nat.le_mul_of_pos_right _ positive
    have rounds : Rounds (.positive * sign) _ (UnpackedFloat.mul .binary64
        (.finite .positive (2 ^ 52) (-52) (by decide)) (.finite sign mantissa exponent positive)) :=
      rounds_mul (.inl ((Nat.le_log2 (by omega)).mpr many))
    have value : ((2 ^ 52 : ℕ) : ℚ) * 2 ^ (-52 : ℤ) * (mantissa * 2 ^ exponent) =
        mantissa * 2 ^ exponent := by norm_num
    rw [value] at rounds
    rw [rounds.eq_of_canonical canonical]
    cases sign <;> rfl
  | notANumber => rfl
  | infinity sign | zero sign => cases sign <;> rfl

theorem neg_one_mul (x : Float) : -1 * x = -x := by
  rw [neg_mul, one_mul]

theorem div_one (x : Float) : x / 1 = x := by
  have stored : x / 1 = ofParts (UnpackedFloat.div .binary64 (parts x) (parts 1)) := rfl
  have canonical := (canonical_parts x).1
  rw [stored, parts_one]
  apply ofParts_eq
  generalize parts x = u at canonical
  cases u with
  | finite sign mantissa exponent positive =>
    have canonical : IsCanonical mantissa exponent := canonical
    have rounds : Rounds (sign / .positive) _ (UnpackedFloat.div .binary64
        (.finite sign mantissa exponent positive) (.finite .positive (2 ^ 52) (-52) (by decide))) :=
      rounds_div
    have value : (mantissa : ℚ) * 2 ^ exponent / ((2 ^ 52 : ℕ) * 2 ^ (-52 : ℤ)) =
        mantissa * 2 ^ exponent := by norm_num
    rw [value] at rounds
    rw [rounds.eq_of_canonical canonical]
    cases sign <;> rfl
  | notANumber => rfl
  | infinity sign | zero sign => cases sign <;> rfl

/-! ## Zeros -/

theorem parts_zero : parts 0 = .zero .positive :=
  parts_ofScientific_zero false 0

theorem neg_neg (x : Float) : - -x = x := by
  apply ext_parts
  rw [parts_neg, parts_neg]
  cases parts x with
  | notANumber => rfl
  | infinity sign | zero sign | finite sign => cases sign <;> rfl

/-- The negative zero is neutral. -/
theorem negZero_add (x : Float) : -0.0 + x = x := by
  have stored : -0.0 + x = ofParts (UnpackedFloat.add .binary64 (parts (-0.0)) (parts x)) := rfl
  have zero : parts 0.0 = .zero .positive := parts_ofScientific_zero true 1
  rw [stored, parts_neg, zero]
  apply ofParts_eq
  cases parts x with
  | zero sign => cases sign <;> rfl
  | _ => rfl

theorem sub_zero (x : Float) : x - 0 = x := by
  have stored : x - 0 = ofParts (UnpackedFloat.sub .binary64 (parts x) (parts 0)) := rfl
  rw [stored, parts_zero]
  apply ofParts_eq
  cases parts x with
  | zero sign => cases sign <;> rfl
  | _ => rfl

section Zero

variable {zero : Float} {sign : Sign} (same : parts zero = .zero sign)
include same

/-- Adding a zero may at most change the sign of a zero. -/
theorem abs_add_zero (x : Float) : (x + zero).abs = x.abs := by
  have stored : x + zero = ofParts (UnpackedFloat.add .binary64 (parts x) (parts zero)) := rfl
  conv_rhs => rw [← ofParts_parts x]
  rw [stored, same]
  cases parts x with
  | zero other => cases other <;> cases sign <;> rfl
  | _ => rfl

theorem zero_sub_zero : 0 - zero = 0 := by
  have stored : 0 - zero = ofParts (UnpackedFloat.sub .binary64 (parts 0) (parts zero)) := rfl
  rw [stored, same, parts_zero]
  apply ofParts_eq
  rw [parts_zero]
  cases sign <;> rfl

end Zero

/-- Behind a zero a number changes its sign, unless it is a zero too. -/
theorem zero_sub {x : Float} (notZero : ∀ sign, parts x ≠ .zero sign) : 0 - x = -x := by
  have stored : 0 - x = ofParts (UnpackedFloat.sub .binary64 (parts 0) (parts x)) := rfl
  rw [stored, parts_zero]
  apply ofParts_eq
  rw [parts_neg]
  generalize parts x = u at notZero
  cases u with
  | zero sign => exact absurd rfl (notZero sign)
  | _ => rfl

/-! ## Magnitudes -/

/-- Taking off what an offset was taken from zero for is adding the offset, up to the sign of
a zero. -/
theorem abs_sub_zero_sub (x offset : Float) : (x - (0 - offset)).abs = (x + offset).abs := by
  by_cases zero : ∃ sign, parts offset = .zero sign
  · obtain ⟨sign, same⟩ := zero
    rw [zero_sub_zero same, sub_zero, abs_add_zero same]
  · rw [zero_sub fun sign same => zero ⟨sign, same⟩, sub_eq_add_neg, neg_neg]

/-- The magnitude of a quotient is that of its numerator, divided. -/
theorem abs_div {x width : Float} {mantissa : ℕ} {exponent : ℤ} {positive : 0 < mantissa}
    (same : parts width = .finite .positive mantissa exponent positive) :
    (x / width).abs = x.abs / width := by
  have stored : x / width = ofParts (UnpackedFloat.div .binary64 (parts x) (parts width)) := rfl
  have stored' : x.abs / width =
      ofParts (UnpackedFloat.div .binary64 (parts x.abs) (parts width)) := rfl
  rw [stored, stored', abs_ofParts (canonical_div _ _), parts_abs, same]
  congr 1
  cases parts x with
  | finite sign mantissa exponent positive => exact abs_roundWithAccuracy _ _ _ _
  | _ => rfl

end Waveform.Binary64
