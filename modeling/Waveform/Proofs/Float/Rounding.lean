import Mathlib.Algebra.Order.Field.Power
import Mathlib.Data.Rat.Cast.Order
import Mathlib.Tactic.FieldSimp
import Mathlib.Tactic.Linarith
import Mathlib.Tactic.Ring
import Waveform.Proofs.Float.Parts

/-!
# Rounding

A positive rational number lies on a grid, the multiples of a power of two of which it has
53 digits, or of the least power. It is rounded to the nearest multiple, the even one of
two. The model of floating-point arithmetic rounds the same way: it keeps a mantissa with
what is known of the digits behind it, shifts that to the grid and carries over
(`rounds_of_describes`).

The other theorems say what a rounded number is compared with the numbers that need no
rounding.
-/

set_option autoImplicit false

namespace Waveform.Binary64

open Float.Model Float.Model.UnpackedFloat

/-! ## Nearest whole numbers -/

/-- Whether a whole number is nearest to a rational one, and even where another is as
near. -/
structure IsNearest (x : ℚ) (whole : ℕ) : Prop where
  low : (whole : ℚ) - 1 / 2 ≤ x
  high : x ≤ whole + 1 / 2
  even : x = whole - 1 / 2 ∨ x = whole + 1 / 2 → whole % 2 = 0

namespace IsNearest

variable {x : ℚ} {whole bound : ℕ}

theorem ge_of_le (nearest : IsNearest x whole) (le : (bound : ℚ) ≤ x) : bound ≤ whole := by
  by_contra less
  have next : (whole : ℚ) + 1 ≤ bound := by exact_mod_cast Nat.lt_of_not_le less
  linarith [nearest.high]

theorem le_of_le (nearest : IsNearest x whole) (le : x ≤ bound) : whole ≤ bound := by
  by_contra less
  have next : (bound : ℚ) + 1 ≤ whole := by exact_mod_cast Nat.lt_of_not_le less
  linarith [nearest.low]

theorem gt_of_lt (nearest : IsNearest x whole) (lt : (bound : ℚ) + 1 / 2 < x) : bound < whole := by
  have above : (bound : ℚ) < whole := by linarith [nearest.high]
  exact_mod_cast above

/-- There is one nearest whole number. -/
theorem unique {other : ℕ} (nearest : IsNearest x whole) (nearest' : IsNearest x other) :
    whole = other := by
  by_contra different
  rcases Nat.lt_or_gt_of_ne different with less | greater
  · have next : (whole : ℚ) + 1 ≤ other := by exact_mod_cast less
    have tie : x = whole + 1 / 2 := le_antisymm nearest.high (by linarith [nearest'.low])
    have tie' : x = other - 1 / 2 := le_antisymm (by linarith [nearest.high]) nearest'.low
    have step : (other : ℚ) = whole + 1 := by linarith
    have step : other = whole + 1 := by exact_mod_cast step
    have first := nearest.even (.inr tie)
    have second := nearest'.even (.inl tie')
    omega
  · have next : (other : ℚ) + 1 ≤ whole := by exact_mod_cast greater
    have tie : x = other + 1 / 2 := le_antisymm nearest'.high (by linarith [nearest.low])
    have tie' : x = whole - 1 / 2 := le_antisymm (by linarith [nearest'.high]) nearest.low
    have step : (whole : ℚ) = other + 1 := by linarith
    have step : whole = other + 1 := by exact_mod_cast step
    have first := nearest'.even (.inr tie)
    have second := nearest.even (.inl tie')
    omega

end IsNearest

/-! ## Mantissas and the digits behind them -/

/-- Whether a number is a mantissa with digits behind it of which the accuracy is known. -/
def Describes (mantissa : ℕ) (x : ℚ) : Accuracy → Prop
  | .exact => x = mantissa
  | .inexact .lt => mantissa < x ∧ x < mantissa + 1 / 2
  | .inexact .eq => x = mantissa + 1 / 2
  | .inexact .gt => mantissa + 1 / 2 < x ∧ x < mantissa + 1

/-- Whether a number is that of a mantissa with its residual bits. -/
def Stands (extended : ExtendedMantissa) (x : ℚ) : Prop :=
  Describes extended.mantissa x extended.accuracy

section Accuracy

variable {mantissa : ℕ} {x : ℚ} {accuracy : Accuracy} {extended : ExtendedMantissa}

theorem Describes.between (describes : Describes mantissa x accuracy) :
    (mantissa : ℚ) ≤ x ∧ x < mantissa + 1 := by
  cases accuracy with
  | exact =>
    have same : x = mantissa := describes
    constructor <;> linarith
  | inexact ordering =>
    cases ordering with
    | lt =>
      obtain ⟨low, high⟩ : (mantissa : ℚ) < x ∧ x < mantissa + 1 / 2 := describes
      constructor <;> linarith
    | eq =>
      have same : x = mantissa + 1 / 2 := describes
      constructor <;> linarith
    | gt =>
      obtain ⟨low, high⟩ : (mantissa : ℚ) + 1 / 2 < x ∧ x < mantissa + 1 := describes
      constructor <;> linarith

/-- Rounding by the accuracy gives the nearest whole number. -/
theorem Describes.isNearest (describes : Describes mantissa x accuracy) :
    IsNearest x (accuracy.roundToNearestEven mantissa) := by
  cases accuracy with
  | exact =>
    have same : x = mantissa := describes
    refine ⟨?_, ?_, fun tie => ?_⟩ <;> simp only [Accuracy.roundToNearestEven] at *
    · linarith
    · linarith
    · rcases tie with tie | tie <;> linarith
  | inexact ordering =>
    cases ordering with
    | lt =>
      obtain ⟨low, high⟩ : (mantissa : ℚ) < x ∧ x < mantissa + 1 / 2 := describes
      refine ⟨?_, ?_, fun tie => ?_⟩ <;> simp only [Accuracy.roundToNearestEven] at *
      · linarith
      · linarith
      · rcases tie with tie | tie <;> linarith
    | eq =>
      have same : x = mantissa + 1 / 2 := describes
      rcases Nat.mod_two_eq_zero_or_one mantissa with even | odd
      · refine ⟨?_, ?_, fun _ => ?_⟩ <;> simp only [Accuracy.roundToNearestEven, even, Nat.add_zero]
        · linarith
        · linarith
      · refine ⟨?_, ?_, fun _ => ?_⟩ <;> simp only [Accuracy.roundToNearestEven, odd]
        · push_cast
          linarith
        · push_cast
          linarith
        · omega
    | gt =>
      obtain ⟨low, high⟩ : (mantissa : ℚ) + 1 / 2 < x ∧ x < mantissa + 1 := describes
      refine ⟨?_, ?_, fun tie => ?_⟩ <;> simp only [Accuracy.roundToNearestEven] at *
      · push_cast
        linarith
      · push_cast
        linarith
      · push_cast at tie
        rcases tie with tie | tie <;> linarith

theorem Describes.stands (describes : Describes mantissa x accuracy) :
    Stands (.ofMantissaAndAccuracy mantissa accuracy) x := by
  cases accuracy with
  | exact => exact describes
  | inexact ordering => cases ordering <;> exact describes

/-- Halving a mantissa keeps what is known of the digits behind it. -/
theorem Stands.shiftRightOne (stands : Stands extended x) :
    Stands extended.shiftRightOne (x / 2) := by
  obtain ⟨mantissa, roundBit, stickyBit⟩ := extended
  have halves : (mantissa : ℚ) = 2 * (mantissa / 2 : ℕ) + (mantissa % 2 : ℕ) := by
    exact_mod_cast (Nat.div_add_mod mantissa 2).symm
  rcases Nat.mod_two_eq_zero_or_one mantissa with even | odd
  · rw [even] at halves
    cases roundBit <;> cases stickyBit <;>
      simp [Stands, ExtendedMantissa.shiftRightOne, ExtendedMantissa.accuracy, Describes, even]
        at stands halves ⊢
    all_goals first | linarith | (constructor <;> linarith)
  · rw [odd] at halves
    cases roundBit <;> cases stickyBit <;>
      simp [Stands, ExtendedMantissa.shiftRightOne, ExtendedMantissa.accuracy, Describes, odd]
        at stands halves ⊢
    all_goals first | linarith | (constructor <;> linarith)

theorem Stands.shiftRight (stands : Stands extended x) (count : ℕ) :
    Stands (extended >>> count) (x / 2 ^ count) := by
  change Stands (count.repeat ExtendedMantissa.shiftRightOne extended) _
  induction count with
  | zero => simpa [Nat.repeat] using stands
  | succ count ih =>
    have half := ih.shiftRightOne
    rw [div_div, ← pow_succ] at half
    exact half

end Accuracy

/-! ## Grids -/

/-- Whether a power of two is that of the grid on which a number lies. -/
structure IsGrid (q : ℚ) (exponent : ℤ) : Prop where
  lowest : -1074 ≤ exponent
  below : q < 2 ^ 53 * 2 ^ exponent
  full : 2 ^ 52 * 2 ^ exponent ≤ q ∨ exponent = -1074

theorem power_pos (exponent : ℤ) : (0 : ℚ) < 2 ^ exponent :=
  zpow_pos (by norm_num) exponent

/-- A power of the mantissa's digits, moved to a greater exponent. -/
theorem power_le {a b : ℕ} {c d : ℤ} (le : (a : ℤ) + c ≤ b + d) :
    (2 : ℚ) ^ a * 2 ^ c ≤ 2 ^ b * 2 ^ d := by
  rw [← zpow_natCast, ← zpow_natCast, ← zpow_add₀ (by norm_num), ← zpow_add₀ (by norm_num)]
  exact zpow_le_zpow_right₀ (by norm_num) le

namespace IsGrid

variable {q : ℚ} {exponent other : ℤ}

theorem le_of_full (grid : IsGrid q exponent) (le : 2 ^ 52 * 2 ^ other ≤ q) : other ≤ exponent := by
  by_contra less
  have next : (2 : ℚ) ^ 53 * 2 ^ exponent ≤ 2 ^ 52 * 2 ^ other := power_le (by omega)
  linarith [grid.below]

/-- There is one grid on which a number lies. -/
theorem unique (grid : IsGrid q exponent) (grid' : IsGrid q other) : exponent = other := by
  refine le_antisymm ?_ ?_
  · rcases grid.full with full | least
    · exact grid'.le_of_full full
    · rw [least]
      exact grid'.lowest
  · rcases grid'.full with full | least
    · exact grid.le_of_full full
    · rw [least]
      exact grid.lowest

end IsGrid

/-- Canonical parts lie on the grid of their exponent. -/
theorem IsCanonical.isGrid {mantissa : ℕ} {exponent : ℤ}
    (canonical : IsCanonical mantissa exponent) :
    IsGrid (mantissa * 2 ^ exponent) exponent where
  lowest := canonical.lowest
  below := by
    have fits : (mantissa : ℚ) < 2 ^ 53 := by exact_mod_cast canonical.fits
    exact mul_lt_mul_of_pos_right fits (power_pos exponent)
  full := by
    rcases canonical.full with full | least
    · have full : (2 : ℚ) ^ 52 ≤ mantissa := by exact_mod_cast full
      exact .inl (mul_le_mul_of_nonneg_right full (power_pos exponent).le)
    · exact .inr least

/-! ## Rounded numbers -/

/-- The parts of a whole multiple of a power of two, with the carry into the digit in front
of the mantissa. -/
def carried (sign : Sign) (whole : ℕ) (exponent : ℤ) : UnpackedFloat :=
  if zero : whole = 0 then .zero sign
  else if whole < 2 ^ 53 then .finite sign whole exponent (Nat.pos_of_ne_zero zero)
  else .finite sign (2 ^ 52) (exponent + 1) (by decide)

/-- Whether parts are those of a positive number rounded on its grid, with a sign given to
it. -/
def Rounds (sign : Sign) (q : ℚ) (u : UnpackedFloat) : Prop :=
  ∃ (whole : ℕ) (exponent : ℤ), IsGrid q exponent ∧ IsNearest (q / 2 ^ exponent) whole ∧
    u = carried sign whole exponent

section Shift

variable {mantissa : ℕ} {exponent : ℤ} {q : ℚ} {accuracy : Accuracy}

theorem targetExponent_eq (mantissa : ℕ) (exponent : ℤ) :
    Format.binary64.targetExponent (totalExponent mantissa exponent) =
      max (mantissa.log2 + exponent - 52) (-1074) := by
  have bits : (Format.binary64.mantissaBits : ℤ) = 53 := rfl
  have least : Format.binary64.minExponent = -1074 := rfl
  rw [Format.targetExponent, totalExponent, bits, least]
  omega

/-- A mantissa is shifted to the grid of the number that it is the beginning of, unless it
has too few digits for that. -/
theorem isGrid_target (describes : Describes mantissa (q / 2 ^ exponent) accuracy)
    (fine : 52 ≤ mantissa.log2 ∨ exponent ≤ -1074) :
    IsGrid q (max (mantissa.log2 + exponent - 52) (-1074)) := by
  obtain ⟨low, high⟩ := describes.between
  have power := power_pos exponent
  rw [le_div_iff₀ power] at low
  rw [div_lt_iff₀ power] at high
  have digits : ((mantissa : ℚ) + 1) ≤ 2 ^ (mantissa.log2 + 1) := by
    exact_mod_cast Nat.lt_log2_self (n := mantissa)
  refine ⟨le_max_right _ _, ?_, ?_⟩
  · have moved : (2 : ℚ) ^ (mantissa.log2 + 1) * 2 ^ exponent ≤
        2 ^ 53 * 2 ^ max ((mantissa.log2 : ℤ) + exponent - 52) (-1074) := power_le (by omega)
    have scaled := mul_le_mul_of_nonneg_right digits power.le
    linarith
  · by_cases least : (mantissa.log2 : ℤ) + exponent - 52 ≤ -1074
    · exact .inr (max_eq_right least)
    · have some : mantissa ≠ 0 := by
        rintro rfl
        rw [Nat.log2_zero] at fine least
        omega
      have full : (2 : ℚ) ^ mantissa.log2 ≤ mantissa := by exact_mod_cast Nat.log2_self_le some
      have moved : (2 : ℚ) ^ 52 * 2 ^ max ((mantissa.log2 : ℤ) + exponent - 52) (-1074) ≤
          2 ^ mantissa.log2 * 2 ^ exponent := power_le (by omega)
      have scaled := mul_le_mul_of_nonneg_right full power.le
      exact .inl (by linarith)

/-- The shift to the grid gives a mantissa that the number there is described by. -/
theorem stands_target (describes : Describes mantissa (q / 2 ^ exponent) accuracy)
    (fine : 52 ≤ mantissa.log2 ∨ exponent ≤ -1074) :
    ∃ extended, Stands extended (q / 2 ^ max ((mantissa.log2 : ℤ) + exponent - 52) (-1074)) ∧
      shiftToTargetExponent .binary64 mantissa exponent accuracy =
        (extended, max (mantissa.log2 + exponent - 52) (-1074)) := by
  obtain ⟨count, reaches⟩ : ∃ count : ℕ,
      exponent + count = max ((mantissa.log2 : ℤ) + exponent - 52) (-1074) :=
    ⟨(max ((mantissa.log2 : ℤ) + exponent - 52) (-1074) - exponent).toNat, by omega⟩
  have amount : (max ((mantissa.log2 : ℤ) + exponent - 52) (-1074) - exponent).toNat = count := by
    omega
  refine ⟨ExtendedMantissa.ofMantissaAndAccuracy mantissa accuracy >>> count, ?_, ?_⟩
  · have stands := describes.stands.shiftRight count
    rwa [div_div, ← zpow_natCast, ← zpow_add₀ (by norm_num), reaches] at stands
  · rw [shiftToTargetExponent, shiftToExponent, targetExponent_eq, amount, reaches]

/-- A mantissa that was rounded on its grid is not shifted again. -/
theorem shift_of_small {whole : ℕ} (small : whole < 2 ^ 53) (lowest : -1074 ≤ exponent) :
    shiftToTargetExponent .binary64 whole exponent .exact =
      (⟨whole, false, false⟩, exponent) := by
  have digits : whole.log2 ≤ 52 := by
    by_cases zero : whole = 0
    · rw [zero, Nat.log2_zero]
      omega
    · exact Nat.lt_succ_iff.mp ((Nat.log2_lt zero).mpr small)
  have none : (max ((whole.log2 : ℤ) + exponent - 52) (-1074) - exponent).toNat = 0 := by omega
  rw [shiftToTargetExponent, shiftToExponent, targetExponent_eq, none, Int.natCast_zero,
    Int.add_zero]
  rfl

/-- Where rounding carries over, the mantissa is shifted by one digit. -/
theorem shift_of_carry (lowest : -1074 ≤ exponent) :
    shiftToTargetExponent .binary64 (2 ^ 53) exponent .exact =
      (⟨2 ^ 52, false, false⟩, exponent + 1) := by
  have one : (max (((2 ^ 53 : ℕ).log2 : ℤ) + exponent - 52) (-1074) - exponent).toNat = 1 := by
    rw [Nat.log2_two_pow]
    omega
  rw [shiftToTargetExponent, shiftToExponent, targetExponent_eq, one]
  rfl

/-- **The model rounds a number to the nearest one on its grid.** -/
theorem rounds_of_describes (sign : Sign)
    (describes : Describes mantissa (q / 2 ^ exponent) accuracy)
    (fine : 52 ≤ mantissa.log2 ∨ exponent ≤ -1074) :
    Rounds sign q (roundWithAccuracy .binary64 sign mantissa exponent accuracy) := by
  have grid := isGrid_target describes fine
  obtain ⟨extended, stands, shifted⟩ := stands_target describes fine
  have nearest : IsNearest _ extended.roundedMantissa := stands.isNearest
  refine ⟨_, _, grid, nearest, ?_⟩
  have le : extended.roundedMantissa ≤ 2 ^ 53 := by
    refine nearest.le_of_le ?_
    rw [div_le_iff₀ (power_pos _)]
    exact_mod_cast grid.below.le
  by_cases small : extended.roundedMantissa < 2 ^ 53
  · simp only [roundWithAccuracy, shifted, shift_of_small small grid.lowest, carried, if_pos small]
  · have carry : extended.roundedMantissa = 2 ^ 53 := by omega
    have zero : ¬ (2 ^ 53 : ℕ) = 0 := by decide
    simp only [roundWithAccuracy, shifted, carry, shift_of_carry grid.lowest, carried,
      dif_neg zero, lt_irrefl, if_false]
    rfl

end Shift

/-! ## What rounding gives -/

/-- Whether a number lies in the interval that is rounded to canonical parts. It reaches
half way to the neighbours; below a power of two the neighbour is only half as far away. -/
structure IsAround (mantissa : ℕ) (exponent : ℤ) (q : ℚ) : Prop where
  low : ((mantissa : ℚ) - 1 / 2) * 2 ^ exponent ≤ q
  high : q ≤ ((mantissa : ℚ) + 1 / 2) * 2 ^ exponent
  even : q = ((mantissa : ℚ) - 1 / 2) * 2 ^ exponent ∨
    q = ((mantissa : ℚ) + 1 / 2) * 2 ^ exponent → mantissa % 2 = 0
  narrow : mantissa = 2 ^ 52 → -1074 < exponent → ((mantissa : ℚ) - 1 / 4) * 2 ^ exponent ≤ q

namespace IsAround

variable {mantissa : ℕ} {exponent : ℤ} {q : ℚ}

theorem isNearest (around : IsAround mantissa exponent q) :
    IsNearest (q / 2 ^ exponent) mantissa where
  low := (le_div_iff₀ (power_pos exponent)).mpr around.low
  high := (div_le_iff₀ (power_pos exponent)).mpr around.high
  even tie := by
    have power := (power_pos exponent).ne'
    refine around.even (tie.imp ?_ ?_) <;> intro tie <;> exact (div_eq_iff power).mp tie

theorem below (around : IsAround mantissa exponent q) (fits : mantissa < 2 ^ 53) :
    q < 2 ^ 53 * 2 ^ exponent := by
  have fits : (mantissa : ℚ) + 1 ≤ 2 ^ 53 := by exact_mod_cast fits
  have power := power_pos exponent
  nlinarith [around.high]

end IsAround

/-- A canonical number lies in its own interval. -/
theorem IsCanonical.isAround {mantissa : ℕ} {exponent : ℤ}
    (_ : IsCanonical mantissa exponent) : IsAround mantissa exponent (mantissa * 2 ^ exponent) := by
  have power := power_pos exponent
  refine ⟨by nlinarith, by nlinarith, ?_, fun _ _ => by nlinarith⟩
  intro tie
  rcases tie with tie | tie <;> nlinarith

namespace Rounds

variable {sign : Sign} {q : ℚ} {u : UnpackedFloat} {mantissa : ℕ} {exponent : ℤ}

theorem canonical (rounds : Rounds sign q u) : Canonical u := by
  obtain ⟨whole, exponent, grid, nearest, rfl⟩ := rounds
  unfold carried
  split
  · trivial
  · next some =>
    split
    · next small =>
      refine ⟨Nat.pos_of_ne_zero some, small, grid.lowest, grid.full.imp_left ?_⟩
      intro full
      refine nearest.ge_of_le ?_
      rw [le_div_iff₀ (power_pos exponent)]
      exact_mod_cast full
    · exact ⟨by decide, by decide, by have := grid.lowest; omega, .inl (Nat.le_refl _)⟩

/-- A rounded number is a zero or has a mantissa, with the sign it was given. -/
theorem zero_or_finite (rounds : Rounds sign q u) : u = .zero sign ∨
    ∃ (mantissa : ℕ) (exponent : ℤ) (canonical : IsCanonical mantissa exponent),
      u = .finite sign mantissa exponent canonical.positive := by
  have canonical := rounds.canonical
  obtain ⟨whole, exponent, _, _, rfl⟩ := rounds
  unfold carried at canonical ⊢
  split at canonical
  · next zero => exact .inl (dif_pos zero)
  · next some =>
    rw [dif_neg some]
    split at canonical
    · next small => exact .inr ⟨_, _, canonical, if_pos small⟩
    · next carry => exact .inr ⟨_, _, canonical, if_neg carry⟩

/-- **The numbers of an interval are rounded to the canonical number inside.** -/
theorem eq_of_isAround (rounds : Rounds sign q u) (canonical : IsCanonical mantissa exponent)
    (around : IsAround mantissa exponent q) :
    u = .finite sign mantissa exponent canonical.positive := by
  obtain ⟨whole, grid, isGrid, nearest, rfl⟩ := rounds
  have positive := canonical.positive
  have power := power_pos exponent
  by_cases full : 2 ^ 52 * 2 ^ exponent ≤ q ∨ exponent = -1074
  · have same : grid = exponent :=
      isGrid.unique ⟨canonical.lowest, around.below canonical.fits, full⟩
    subst same
    have same : whole = mantissa := nearest.unique around.isNearest
    subst same
    rw [carried, dif_neg (by omega), if_pos canonical.fits]
  · -- The number lies below the power of two that is its nearest neighbour.
    obtain ⟨less, notLeast⟩ := not_or.mp full
    have less := lt_of_not_ge less
    have lowest : -1074 < exponent := lt_of_le_of_ne canonical.lowest (Ne.symm notLeast)
    have atLeast : 2 ^ 52 ≤ mantissa := canonical.full.resolve_right notLeast
    have same : mantissa = 2 ^ 52 := by
      refine le_antisymm ?_ atLeast
      by_contra greater
      have greater : (2 : ℚ) ^ 52 + 1 ≤ mantissa := by exact_mod_cast Nat.lt_of_not_le greater
      nlinarith [around.low]
    subst same
    have halved : (2 : ℚ) ^ exponent = 2 * 2 ^ (exponent - 1) := by
      rw [zpow_sub_one₀ (by norm_num)]
      ring
    have close := around.narrow rfl lowest
    have power' := power_pos (exponent - 1)
    rw [halved] at less close
    push_cast at close
    have grid' : IsGrid q (exponent - 1) := ⟨by omega, by nlinarith, .inl (by nlinarith)⟩
    have same : grid = exponent - 1 := isGrid.unique grid'
    subst same
    have top : IsNearest (q / 2 ^ (exponent - 1)) (2 ^ 53) := by
      refine ⟨?_, ?_, fun _ => by decide⟩
      · rw [le_div_iff₀ power']
        push_cast
        nlinarith
      · rw [div_le_iff₀ power']
        push_cast
        nlinarith
    have same : whole = 2 ^ 53 := nearest.unique top
    subst same
    rw [carried, dif_neg (by decide), if_neg (by decide)]
    congr 1
    omega

theorem eq_of_canonical (rounds : Rounds sign (mantissa * 2 ^ exponent) u)
    (canonical : IsCanonical mantissa exponent) :
    u = .finite sign mantissa exponent canonical.positive :=
  rounds.eq_of_isAround canonical canonical.isAround

end Rounds

/-! ## Rounded numbers in order -/

/-- Whether parts are a zero or at most the given ones, for positive numbers. -/
def AtMost (mantissa : ℕ) (exponent : ℤ) : UnpackedFloat → Prop
  | .zero _ => True
  | .finite _ m e _ => e < exponent ∨ e = exponent ∧ m ≤ mantissa
  | _ => False

/-- Whether parts are more than the given ones, for positive numbers. -/
def Exceeds (mantissa : ℕ) (exponent : ℤ) : UnpackedFloat → Prop
  | .finite _ m e _ => exponent < e ∨ e = exponent ∧ mantissa < m
  | _ => False

namespace Rounds

variable {sign : Sign} {q : ℚ} {u : UnpackedFloat} {mantissa : ℕ} {exponent : ℤ}

/-- What is at most a canonical number is rounded to at most that number. -/
theorem atMost (rounds : Rounds sign q u) (canonical : IsCanonical mantissa exponent)
    (le : q ≤ mantissa * 2 ^ exponent) : AtMost mantissa exponent u := by
  obtain ⟨whole, grid, isGrid, nearest, rfl⟩ := rounds
  have power := power_pos exponent
  have coarse : grid ≤ exponent := by
    rcases isGrid.full with full | least
    · exact canonical.isGrid.le_of_full (full.trans le)
    · rw [least]
      exact canonical.lowest
  have bound : grid = exponent → whole ≤ mantissa := by
    rintro rfl
    exact nearest.le_of_le ((div_le_iff₀ power).mpr le)
  unfold carried
  split
  · trivial
  · split
    · exact (lt_or_eq_of_le coarse).imp_right fun same => ⟨same, bound same⟩
    · next carry =>
      have below : grid < exponent := by
        refine lt_of_le_of_ne coarse fun same => carry ?_
        exact lt_of_le_of_lt (bound same) canonical.fits
      have full : 2 ^ 52 ≤ mantissa := by
        refine canonical.full.resolve_right ?_
        intro least
        have lowest := isGrid.lowest
        omega
      rcases lt_or_eq_of_le (Int.add_one_le_of_lt below) with less | same
      · exact .inl less
      · exact .inr ⟨same, full⟩

/-- What is nearer to a greater number than to a canonical one is rounded to a greater
number. -/
theorem exceeds (rounds : Rounds sign q u) (canonical : IsCanonical mantissa exponent)
    (lt : ((mantissa : ℚ) + 1 / 2) * 2 ^ exponent < q) : Exceeds mantissa exponent u := by
  obtain ⟨whole, grid, isGrid, nearest, rfl⟩ := rounds
  have power := power_pos exponent
  have fine : exponent ≤ grid := by
    rcases canonical.full with full | least
    · refine isGrid.le_of_full ?_
      have full : (2 : ℚ) ^ 52 ≤ mantissa := by exact_mod_cast full
      nlinarith
    · rw [least]
      exact isGrid.lowest
  have bound : grid = exponent → mantissa < whole := by
    rintro rfl
    exact nearest.gt_of_lt ((lt_div_iff₀ power).mpr lt)
  have some : whole ≠ 0 := by
    rcases lt_or_eq_of_le fine with less | same
    · have full := isGrid.full.resolve_right fun least => by
        have lowest := canonical.lowest
        omega
      have many : 2 ^ 52 ≤ whole := by
        refine nearest.ge_of_le ?_
        rw [le_div_iff₀ (power_pos grid)]
        exact_mod_cast full
      omega
    · have more := bound same.symm
      omega
  rw [carried, dif_neg some]
  split
  · exact (lt_or_eq_of_le fine).imp_right fun same => ⟨same.symm, bound same.symm⟩
  · exact .inl (by omega)

end Rounds

end Waveform.Binary64
