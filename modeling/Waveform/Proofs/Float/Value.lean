import Mathlib.Order.WithBot
import Waveform.Proofs.Float.Threshold

/-!
# The values of floating-point numbers

A finite number has a rational value, and finite numbers are ordered by their values. The
infinities lie at both ends: numbers other than a NaN are ordered by their ranks on the line
of the values with both ends added. So the order is transitive, and what lies between two
finite numbers is finite.
-/

set_option autoImplicit false

namespace Waveform.Binary64

open Float.Model Float.Model.UnpackedFloat

/-! ## Values -/

/-- The factor of a sign. -/
def signValue : Sign → ℚ
  | .negative => -1
  | .positive => 1

/-- The value of parts. A NaN and the infinities have none and are given zero. -/
def partsValue : UnpackedFloat → ℚ
  | .finite sign mantissa exponent _ => signValue sign * (mantissa * 2 ^ exponent)
  | _ => 0

/-- The value of a number. -/
def value (x : Float) : ℚ :=
  partsValue (parts x)

theorem signValue_neg (sign : Sign) : signValue (-sign) = -signValue sign := by
  cases sign
  · change (1 : ℚ) = - -1
    norm_num
  · rfl

theorem partsValue_neg (u : UnpackedFloat) : partsValue u.neg = -partsValue u := by
  cases u with
  | finite sign mantissa exponent positive =>
    simp only [UnpackedFloat.neg, partsValue, signValue_neg]
    ring
  | notANumber | infinity | zero => exact neg_zero.symm

@[simp]
theorem partsValue_zero (sign : Sign) : partsValue (.zero sign) = 0 := rfl

@[simp]
theorem value_neg (x : Float) : value (-x) = -value x := by
  rw [value, parts_neg, partsValue_neg, value]

@[simp]
theorem isFinite_neg (x : Float) : (-x).isFinite = x.isFinite := by
  change (parts (-x)).isFinite = (parts x).isFinite
  rw [parts_neg]
  cases parts x <;> rfl

@[simp]
theorem isFinite_abs (x : Float) : x.abs.isFinite = x.isFinite := by
  change (parts x.abs).isFinite = (parts x).isFinite
  rw [parts_abs]
  cases parts x <;> rfl

@[simp]
theorem isNaN_neg (x : Float) : (-x).isNaN = x.isNaN := by
  change (parts (-x)).isNaN = (parts x).isNaN
  rw [parts_neg]
  cases parts x <;> rfl

@[simp]
theorem isNaN_abs (x : Float) : x.abs.isNaN = x.isNaN := by
  change (parts x.abs).isNaN = (parts x).isNaN
  rw [parts_abs]
  cases parts x <;> rfl

theorem isFinite_zero : (0 : Float).isFinite = true := by
  decide

theorem isFinite_one : (1 : Float).isFinite = true := by
  decide

theorem value_of_parts_zero {x : Float} {sign : Sign} (zero : parts x = .zero sign) :
    value x = 0 := by
  rw [value, zero]
  rfl

@[simp]
theorem value_zero : value 0 = 0 :=
  value_of_parts_zero parts_zero

theorem parts_negZero : parts (-0.0) = .zero .negative := by
  have zero : parts 0.0 = .zero .positive := parts_ofScientific_zero true 1
  rw [parts_neg, zero]
  rfl

@[simp]
theorem value_one : value 1 = 1 := by
  rw [value, parts_one, partsValue, signValue]
  norm_num

/-- A finite number with the value zero is a zero. -/
theorem exists_parts_of_zero {x : Float} (finite : x.isFinite = true) (zero : value x = 0) :
    ∃ sign, parts x = .zero sign := by
  have finite : (parts x).isFinite = true := finite
  unfold value at zero
  generalize parts x = u at finite zero
  cases u with
  | notANumber | infinity => cases finite
  | zero sign => exact ⟨sign, rfl⟩
  | finite sign mantissa exponent some =>
    have magnitude : (mantissa : ℚ) * 2 ^ exponent ≠ 0 :=
      (mul_pos (by exact_mod_cast some) (power_pos exponent)).ne'
    have factor : signValue sign ≠ 0 := by
      cases sign <;> norm_num [signValue]
    exact absurd zero (mul_ne_zero factor magnitude)

/-- Only zeros equal zero. -/
theorem beq_zero_iff {x : Float} : (x == 0) = true ↔ ∃ sign, parts x = .zero sign := by
  change (parts x).beq (parts 0) = true ↔ _
  rw [parts_zero]
  constructor
  · intro same
    rcases eq_or_zeros_of_beq same with zero | ⟨sign, _, zero, _⟩
    · exact ⟨.positive, zero⟩
    · exact ⟨sign, zero⟩
  · rintro ⟨sign, zero⟩
    rw [zero]
    rfl

/-- What is taken off zero changes its sign, unless it is a zero, which gives the positive one. -/
theorem zero_sub_eq (x : Float) : 0 - x = if x == 0 then 0 else -x := by
  split
  · next same =>
    obtain ⟨sign, zero⟩ := beq_zero_iff.mp same
    exact zero_sub_zero zero
  · next other => exact zero_sub fun sign zero => other (beq_zero_iff.mpr ⟨sign, zero⟩)

/-- A number with a positive value has no sign. -/
theorem exists_parts_of_pos {x : Float} (positive : 0 < value x) :
    ∃ (mantissa : ℕ) (exponent : ℤ) (canonical : IsCanonical mantissa exponent),
      exponent ≤ 971 ∧ parts x = .finite .positive mantissa exponent canonical.positive := by
  obtain ⟨canonical, small⟩ := canonical_parts x
  unfold value at positive
  generalize parts x = u at positive canonical small
  cases u with
  | notANumber | infinity | zero => exact absurd positive (lt_irrefl 0)
  | finite sign mantissa exponent some =>
    cases sign with
    | positive =>
      refine ⟨mantissa, exponent, canonical, ?_, rfl⟩
      rw [bounded] at small
      split at small
      · cases small
      · next within => exact not_lt.mp within
    | negative =>
      rw [partsValue, signValue] at positive
      have magnitude : (0 : ℚ) < mantissa * 2 ^ exponent :=
        mul_pos (by exact_mod_cast some) (power_pos exponent)
      linarith

protected theorem abs_of_pos {x : Float} (positive : 0 < value x) : x.abs = x := by
  obtain ⟨_, _, _, _, same⟩ := exists_parts_of_pos positive
  have stored : x.abs = ofParts (parts x).abs := rfl
  rw [stored]
  apply ofParts_eq
  rw [same]
  rfl

theorem abs_partsValue (u : UnpackedFloat) : |partsValue u| = partsValue u.abs := by
  cases u with
  | finite sign mantissa exponent positive =>
    have power := power_pos exponent
    cases sign <;> simp [UnpackedFloat.abs, partsValue, signValue, abs_of_pos power]
  | notANumber | infinity | zero => exact abs_zero

@[simp]
theorem value_abs (x : Float) : value x.abs = |value x| := by
  rw [value, parts_abs, value, abs_partsValue]

/-! ## Finite numbers in order -/

theorem le_finite_iff {s₁ s₂ : Sign} {m₁ m₂ : ℕ} {e₁ e₂ : ℤ} (canonical : IsCanonical m₁ e₁)
    (canonical' : IsCanonical m₂ e₂) :
    UnpackedFloat.le (.finite s₁ m₁ e₁ canonical.positive) (.finite s₂ m₂ e₂ canonical'.positive) =
        true ↔
      signValue s₁ * ((m₁ : ℚ) * 2 ^ e₁) ≤ signValue s₂ * (m₂ * 2 ^ e₂) := by
  have magnitudes {m₁ m₂ : ℕ} {e₁ e₂ : ℤ} (canonical : IsCanonical m₁ e₁)
      (canonical' : IsCanonical m₂ e₂) :
      UnpackedFloat.le (.finite .positive m₁ e₁ canonical.positive)
          (.finite .positive m₂ e₂ canonical'.positive) = true ↔
        (m₁ : ℚ) * 2 ^ e₁ ≤ m₂ * 2 ^ e₂ := by
    rw [le_parts_iff]
    refine ⟨value_le canonical canonical', ?_⟩
    intro le
    by_contra greater
    have next := next_le canonical canonical' greater
    have power := power_pos e₂
    linarith
  have some₁ : (0 : ℚ) < m₁ * 2 ^ e₁ :=
    mul_pos (by exact_mod_cast canonical.positive) (power_pos e₁)
  have some₂ : (0 : ℚ) < m₂ * 2 ^ e₂ :=
    mul_pos (by exact_mod_cast canonical'.positive) (power_pos e₂)
  cases s₁ <;> cases s₂ <;> simp only [signValue]
  · have swapped : UnpackedFloat.le (.finite .negative m₁ e₁ canonical.positive)
        (.finite .negative m₂ e₂ canonical'.positive) =
        UnpackedFloat.le (.finite .positive m₂ e₂ canonical'.positive)
          (.finite .positive m₁ e₁ canonical.positive) := by
      change (((compare e₁ e₂).then (compare m₁ m₂)).swap).isLE =
        ((compare e₂ e₁).then (compare m₂ m₁)).isLE
      rw [Ordering.swap_then, Int.compare_swap, Nat.compare_swap]
    rw [swapped, magnitudes canonical' canonical]
    constructor <;> intro le <;> linarith
  · exact iff_of_true rfl (by linarith)
  · exact iff_of_false Bool.false_ne_true (by linarith)
  · rw [magnitudes canonical canonical']
    constructor <;> intro le <;> linarith

/-- Finite parts are ordered by their values. -/
theorem le_parts_iff_value {u v : UnpackedFloat} (canonical : Canonical u)
    (canonical' : Canonical v) (finite : u.isFinite = true) (finite' : v.isFinite = true) :
    u.le v = true ↔ partsValue u ≤ partsValue v := by
  have positive {m : ℕ} (e : ℤ) (some : 0 < m) : (0 : ℚ) < m * 2 ^ e :=
    mul_pos (by exact_mod_cast some) (power_pos e)
  cases u with
  | notANumber | infinity => cases finite
  | zero =>
    cases v with
    | notANumber | infinity => cases finite'
    | zero => exact iff_of_true rfl le_rfl
    | finite sign mantissa exponent some =>
      have some := positive exponent some
      cases sign <;> simp only [partsValue, signValue]
      · exact iff_of_false Bool.false_ne_true (by linarith)
      · exact iff_of_true rfl (by linarith)
  | finite sign mantissa exponent some =>
    cases v with
    | notANumber | infinity => cases finite'
    | zero =>
      have some := positive exponent some
      cases sign <;> simp only [partsValue, signValue]
      · exact iff_of_true rfl (by linarith)
      · exact iff_of_false Bool.false_ne_true (by linarith)
    | finite => exact le_finite_iff canonical canonical'

/-- **Finite numbers are ordered by their values.** -/
theorem le_iff_value {x y : Float} (finite : x.isFinite = true) (finite' : y.isFinite = true) :
    x ≤ y ↔ value x ≤ value y :=
  le_iff.trans (le_parts_iff_value (canonical_parts x).1 (canonical_parts y).1 finite finite')

/-! ## Ranks -/

/-- A value on the line with both ends. -/
def inner (q : ℚ) : WithBot (WithTop ℚ) :=
  ((q : WithTop ℚ) : WithBot (WithTop ℚ))

theorem inner_le_inner {p q : ℚ} : inner p ≤ inner q ↔ p ≤ q :=
  WithBot.coe_le_coe.trans WithTop.coe_le_coe

theorem inner_lt_top (q : ℚ) : inner q < ⊤ :=
  WithBot.coe_lt_coe.mpr (WithTop.coe_lt_top q)

theorem bot_lt_inner (q : ℚ) : ⊥ < inner q :=
  WithBot.bot_lt_coe _

/-- The rank of parts. A NaN has none and is given that of zero. -/
def partsRank : UnpackedFloat → WithBot (WithTop ℚ)
  | .infinity .negative => ⊥
  | .infinity .positive => ⊤
  | u => inner (partsValue u)

/-- The rank of a number. -/
def rank (x : Float) : WithBot (WithTop ℚ) :=
  partsRank (parts x)

theorem partsRank_of_isFinite {u : UnpackedFloat} (finite : u.isFinite = true) :
    partsRank u = inner (partsValue u) := by
  cases u with
  | notANumber | infinity => cases finite
  | zero | finite => rfl

theorem rank_of_isFinite {x : Float} (finite : x.isFinite = true) : rank x = inner (value x) :=
  partsRank_of_isFinite finite

/-- Parts other than a NaN are finite or an infinity. -/
theorem finite_or_infinity {u : UnpackedFloat} (number : u.isNaN = false) :
    u.isFinite = true ∨ u = .infinity .negative ∨ u = .infinity .positive := by
  cases u with
  | notANumber => cases number
  | infinity sign => cases sign <;> simp
  | zero | finite => exact .inl rfl

/-- Parts other than a NaN are ordered by their ranks. -/
theorem le_parts_iff_rank {u v : UnpackedFloat} (canonical : Canonical u) (canonical' : Canonical v)
    (number : u.isNaN = false) (number' : v.isNaN = false) :
    u.le v = true ↔ partsRank u ≤ partsRank v := by
  rcases finite_or_infinity number with finite | rfl | rfl
  · rcases finite_or_infinity number' with finite' | rfl | rfl
    · rw [partsRank_of_isFinite finite, partsRank_of_isFinite finite', inner_le_inner]
      exact le_parts_iff_value canonical canonical' finite finite'
    · refine iff_of_false ?_ ?_
      · cases u with
        | notANumber | infinity => cases finite
        | zero => exact Bool.false_ne_true
        | finite sign => cases sign <;> exact Bool.false_ne_true
      · rw [partsRank_of_isFinite finite]
        exact (bot_lt_inner _).not_ge
    · refine iff_of_true ?_ le_top
      cases u with
      | notANumber | infinity => cases finite
      | zero => rfl
      | finite sign => cases sign <;> rfl
  · refine iff_of_true ?_ bot_le
    cases v with
    | notANumber => cases number'
    | infinity sign => cases sign <;> rfl
    | zero | finite => rfl
  · rcases finite_or_infinity number' with finite' | rfl | rfl
    · refine iff_of_false ?_ ?_
      · cases v with
        | notANumber | infinity => cases finite'
        | zero | finite => exact Bool.false_ne_true
      · rw [partsRank_of_isFinite finite']
        exact (inner_lt_top _).not_ge
    · have less : (⊥ : WithBot (WithTop ℚ)) < ⊤ := bot_lt_top
      exact iff_of_false Bool.false_ne_true less.not_ge
    · exact iff_of_true rfl le_rfl

/-- **Numbers other than a NaN are ordered by their ranks.** -/
theorem le_iff_rank {x y : Float} (number : x.isNaN = false) (number' : y.isNaN = false) :
    x ≤ y ↔ rank x ≤ rank y :=
  le_iff.trans (le_parts_iff_rank (canonical_parts x).1 (canonical_parts y).1 number number')

theorem compare_swap (u v : UnpackedFloat) : v.compare u = (u.compare v).map Ordering.swap := by
  cases u with
  | notANumber => cases v <;> rfl
  | infinity s₁ =>
    cases v with
    | notANumber => cases s₁ <;> rfl
    | infinity s₂ => cases s₁ <;> cases s₂ <;> rfl
    | zero s₂ => cases s₁ <;> rfl
    | finite s₂ => cases s₁ <;> cases s₂ <;> rfl
  | zero s₁ =>
    cases v with
    | notANumber | zero => rfl
    | infinity s₂ | finite s₂ => cases s₂ <;> rfl
  | finite s₁ m₁ e₁ =>
    cases v with
    | notANumber | zero => cases s₁ <;> rfl
    | infinity s₂ => cases s₁ <;> cases s₂ <;> rfl
    | finite s₂ m₂ e₂ =>
      have swapped : (compare e₂ e₁).then (compare m₂ m₁) =
          ((compare e₁ e₂).then (compare m₁ m₂)).swap := by
        rw [Ordering.swap_then, Int.compare_swap, Nat.compare_swap]
      cases s₁ <;> cases s₂ <;>
        simp only [UnpackedFloat.compare, Option.map_some, swapped, Ordering.swap]

theorem exists_compare {u v : UnpackedFloat} (number : u.isNaN = false)
    (number' : v.isNaN = false) :
    ∃ order, u.compare v = some order := by
  cases u with
  | notANumber => cases number
  | infinity s₁ =>
    cases v with
    | notANumber => cases number'
    | infinity | zero | finite => cases s₁ <;> exact ⟨_, rfl⟩
  | zero s₁ =>
    cases v with
    | notANumber => cases number'
    | infinity s₂ | finite s₂ => cases s₂ <;> exact ⟨_, rfl⟩
    | zero => exact ⟨_, rfl⟩
  | finite s₁ =>
    cases v with
    | notANumber => cases number'
    | infinity s₂ | finite s₂ => cases s₁ <;> cases s₂ <;> exact ⟨_, rfl⟩
    | zero => cases s₁ <;> exact ⟨_, rfl⟩

/-- What is less is what is not at least as much. -/
theorem lt_iff_not_le {x y : Float} (number : x.isNaN = false) (number' : y.isNaN = false) :
    x < y ↔ ¬ y ≤ x := by
  obtain ⟨order, same⟩ : ∃ order, (parts x).compare (parts y) = some order :=
    exists_compare number number'
  rw [lt_iff, le_iff, UnpackedFloat.lt, UnpackedFloat.le, compare_swap (parts x), same]
  cases order <;> decide

theorem isNaN_of_compare {u v : UnpackedFloat} {order : Ordering}
    (same : u.compare v = some order) : u.isNaN = false ∧ v.isNaN = false := by
  constructor
  · cases u with
    | notANumber => cases same
    | infinity | zero | finite => rfl
  · cases v with
    | notANumber =>
      rw [compare_swap] at same
      cases same
    | infinity | zero | finite => rfl

theorem isNaN_of_le {x y : Float} (le : x ≤ y) : x.isNaN = false ∧ y.isNaN = false := by
  have le : ((parts x).compare (parts y)).any (·.isLE) = true := le_iff.mp le
  cases same : (parts x).compare (parts y) with
  | none =>
    rw [same] at le
    cases le
  | some order => exact isNaN_of_compare same

theorem le_of_lt {x y : Float} (lt : x < y) : x ≤ y := by
  have same : (parts x).compare (parts y) = some .lt := beq_iff_eq.mp (lt_iff.mp lt)
  rw [le_iff, UnpackedFloat.le, same]
  rfl

theorem isNaN_of_lt {x y : Float} (lt : x < y) : x.isNaN = false ∧ y.isNaN = false :=
  isNaN_of_le (le_of_lt lt)

theorem lt_iff_rank {x y : Float} (number : x.isNaN = false) (number' : y.isNaN = false) :
    x < y ↔ rank x < rank y := by
  rw [lt_iff_not_le number number', le_iff_rank number' number, not_le]

theorem lt_iff_value {x y : Float} (finite : x.isFinite = true) (finite' : y.isFinite = true) :
    x < y ↔ value x < value y := by
  rw [lt_iff_not_le (isNaN_of_isFinite finite) (isNaN_of_isFinite finite'),
    le_iff_value finite' finite, not_le]

theorem zero_le_iff_value {x : Float} (finite : x.isFinite = true) : 0 ≤ x ↔ 0 ≤ value x := by
  rw [le_iff_value isFinite_zero finite, value_zero]

theorem le_zero_iff_value {x : Float} (finite : x.isFinite = true) : x ≤ 0 ↔ value x ≤ 0 := by
  rw [le_iff_value finite isFinite_zero, value_zero]

theorem zero_lt_iff_value {x : Float} (finite : x.isFinite = true) : 0 < x ↔ 0 < value x := by
  rw [lt_iff_value isFinite_zero finite, value_zero]

theorem le_refl {x : Float} (number : x.isNaN = false) : x ≤ x :=
  (le_iff_rank number number).mpr le_rfl

theorem le_trans {x y z : Float} (first : x ≤ y) (second : y ≤ z) : x ≤ z := by
  obtain ⟨number, number'⟩ := isNaN_of_le first
  obtain ⟨_, number''⟩ := isNaN_of_le second
  rw [le_iff_rank number number'] at first
  rw [le_iff_rank number' number''] at second
  rw [le_iff_rank number number'']
  exact first.trans second

theorem lt_of_lt_of_le {x y z : Float} (first : x < y) (second : y ≤ z) : x < z := by
  obtain ⟨number, number'⟩ := isNaN_of_lt first
  obtain ⟨_, number''⟩ := isNaN_of_le second
  rw [lt_iff_rank number number'] at first
  rw [le_iff_rank number' number''] at second
  rw [lt_iff_rank number number'']
  exact first.trans_le second

theorem zero_le_abs {x : Float} (number : x.isNaN = false) : 0 ≤ x.abs := by
  have number : (parts x).isNaN = false := number
  rw [le_iff, parts_zero, parts_abs]
  generalize parts x = u at number
  cases u with
  | notANumber => cases number
  | infinity | zero | finite => rfl

/-- What lies between finite numbers is finite. -/
theorem isFinite_of_between {low x high : Float} (above : low ≤ x) (below : x ≤ high)
    (finite : low.isFinite = true) (finite' : high.isFinite = true) : x.isFinite = true := by
  obtain ⟨number, number'⟩ := isNaN_of_le above
  obtain ⟨_, number''⟩ := isNaN_of_le below
  rw [le_iff_rank number number', rank_of_isFinite finite] at above
  rw [le_iff_rank number' number'', rank_of_isFinite finite'] at below
  have number' : (parts x).isNaN = false := number'
  rcases finite_or_infinity number' with finite | least | greatest
  · exact finite
  · rw [rank, least] at above
    exact absurd above (bot_lt_inner _).not_ge
  · rw [rank, greatest] at below
    exact absurd below (inner_lt_top _).not_ge

theorem compare_neg (u v : UnpackedFloat) : v.neg.compare u.neg = u.compare v := by
  cases u with
  | notANumber => cases v <;> rfl
  | infinity s₁ =>
    cases v with
    | notANumber => cases s₁ <;> rfl
    | infinity s₂ => cases s₁ <;> cases s₂ <;> rfl
    | zero s₂ => cases s₁ <;> rfl
    | finite s₂ => cases s₁ <;> cases s₂ <;> rfl
  | zero s₁ =>
    cases v with
    | notANumber | zero => rfl
    | infinity s₂ | finite s₂ => cases s₂ <;> rfl
  | finite s₁ m₁ e₁ =>
    cases v with
    | notANumber | zero => cases s₁ <;> rfl
    | infinity s₂ => cases s₁ <;> cases s₂ <;> rfl
    | finite s₂ m₂ e₂ =>
      have swapped : (compare e₂ e₁).then (compare m₂ m₁) =
          ((compare e₁ e₂).then (compare m₁ m₂)).swap := by
        rw [Ordering.swap_then, Int.compare_swap, Nat.compare_swap]
      cases s₁ <;> cases s₂
      · exact congrArg some swapped
      · rfl
      · rfl
      · refine congrArg some ?_
        rw [swapped, Ordering.swap_swap]

/-- A sign turns the order around. -/
theorem neg_le_neg_iff {x y : Float} : -y ≤ -x ↔ x ≤ y := by
  rw [le_iff, le_iff, parts_neg, parts_neg, UnpackedFloat.le, compare_neg, UnpackedFloat.le]

end Waveform.Binary64
