import Waveform.Proofs.Float.Zeros
import Waveform.Sampler.Grid

/-!
# Places of a grid

The places of a grid never go down. If one is not above the place before, it is the same place, so
samples go up strictly exactly if no place with a sample comes again (`pairwise_lt_sampleGrid_iff`).
None comes again when the grid is coarse, that is when its step is not too small beside the bounds
of its range (`gridPlace_lt`). On a grid that is much finer than its lower bound that bound comes
again.

The last place may be off the range, and even beyond all finite numbers. The others are finite.
-/

set_option autoImplicit false

namespace Waveform

open Binary64 Float.Model

/-! ## Ranges with a width -/

/-- Whether the bounds of a range are in order and a finite width apart. -/
structure Interval.IsSpanned (range : Interval) : Prop where
  ordered : value range.lower < value range.upper
  width : (range.upper - range.lower).isFinite = true

/-- The larger of the magnitudes of the bounds. -/
def Interval.reach (range : Interval) : ℚ :=
  max |value range.lower| |value range.upper|

theorem Interval.abs_lower_le (range : Interval) : |value range.lower| ≤ range.reach :=
  le_max_left _ _

theorem Interval.abs_upper_le (range : Interval) : |value range.upper| ≤ range.reach :=
  le_max_right _ _

namespace Interval.IsSpanned

variable {range : Interval} (spanned : range.IsSpanned)

include spanned

theorem lower : range.lower.isFinite = true :=
  (isFinite_of_sub spanned.width).2

theorem upper : range.upper.isFinite = true :=
  (isFinite_of_sub spanned.width).1

theorem roundsTo_width : RoundsTo (value range.upper - value range.lower)
    (range.upper - range.lower) :=
  roundsTo_sub spanned.upper spanned.lower

theorem width_nonneg : 0 ≤ value (range.upper - range.lower) := by
  have ordered := spanned.ordered
  exact (zero_le_iff_value spanned.width).mp
    (zero_le_of_rounds spanned.roundsTo_width (by linarith))

theorem abs_width_sub_le :
    |value (range.upper - range.lower) - (value range.upper - value range.lower)| ≤
      (value range.upper - value range.lower) / 2 ^ 53 := by
  have error := abs_sub_sub_le spanned.width
  rwa [abs_of_pos (sub_pos.mpr spanned.ordered)] at error

/-- The width is not much more than the distance of the bounds. -/
theorem width_le : value (range.upper - range.lower) ≤
    value range.upper - value range.lower + range.reach / 2 ^ 52 := by
  have error := (abs_le.mp spanned.abs_width_sub_le).2
  have lower := (abs_le.mp range.abs_lower_le).1
  have upper := (abs_le.mp range.abs_upper_le).2
  linarith

end Interval.IsSpanned

/-! ## Steps and places -/

/-- As many rounding errors as a grid has steps are tiny beside the greatest number. -/
theorem mul_half_leastPositive_le {steps : ℕ} (few : steps < 2 ^ 53) :
    steps * (leastPositive / 2) ≤ value greatest / 2 ^ 100 := by
  have few : (steps : ℚ) ≤ 2 ^ 53 := by exact_mod_cast few.le
  have scaled := mul_le_mul_of_nonneg_right few (half_pos leastPositive_pos).le
  linarith [mul_leastPositive_le, leastPositive_pos]

section Grid

variable {range : Interval} {steps : ℕ} (spanned : range.IsSpanned) (some : 0 < steps)
  (few : steps < 2 ^ 53)

include spanned some few

theorem roundsTo_gridStep :
    RoundsTo (value (range.upper - range.lower) / steps) (gridStep range steps) := by
  have count := value_ofNat few
  have rounds := roundsTo_div spanned.width (isFinite_ofNat few)
    (by rw [count]; exact_mod_cast some.ne')
  rwa [count] at rounds

theorem isWithin_gridStep :
    IsWithin 0 (value (range.upper - range.lower)) (gridStep range steps) := by
  have width := spanned.width_nonneg
  have many : (1 : ℚ) ≤ steps := by exact_mod_cast some
  exact (roundsTo_gridStep spanned some few).isWithin_of_nonneg spanned.width
    (div_nonneg width (Nat.cast_nonneg steps)) (div_le_self width many)

/-- The distance of a place from the lower bound. -/
theorem roundsTo_shift {index : ℕ} (le : index ≤ steps) :
    RoundsTo (index * value (gridStep range steps)) (Float.ofNat index * gridStep range steps) := by
  have short : index < 2 ^ 53 := le.trans_lt few
  have rounds := roundsTo_mul (isFinite_ofNat short) (isWithin_gridStep spanned some few).finite
  rwa [value_ofNat short] at rounds

theorem abs_shift_sub_le {index : ℕ} (le : index ≤ steps)
    (finite : (Float.ofNat index * gridStep range steps).isFinite = true) :
    |value (Float.ofNat index * gridStep range steps) - index * value (gridStep range steps)| ≤
      index * value (gridStep range steps) / 2 ^ 53 := by
  have nonneg := (isWithin_gridStep spanned some few).low_le
  have nonneg : 0 ≤ index * value (gridStep range steps) := by positivity
  have multiple := (onFinestGrid_value (gridStep range steps)).nat_mul index
  have error := (roundsTo_shift spanned some few le).error_le_of_onFinestGrid finite multiple
  rwa [abs_of_nonneg nonneg] at error

/-- The steps together are about as long as the range is wide. -/
theorem abs_mul_gridStep_sub_le :
    |steps * value (gridStep range steps) - value (range.upper - range.lower)| ≤
      value (range.upper - range.lower) / 2 ^ 53 + steps * (leastPositive / 2) := by
  have count : (0 : ℚ) < steps := by exact_mod_cast some
  have width := spanned.width_nonneg
  have error :=
    (roundsTo_gridStep spanned some few).error_le (isWithin_gridStep spanned some few).finite
  rw [abs_of_nonneg (div_nonneg width count.le)] at error
  have scaled := mul_le_mul_of_nonneg_left error count.le
  have whole :
      steps * (value (range.upper - range.lower) / steps) = value (range.upper - range.lower) :=
    mul_div_cancel₀ _ count.ne'
  rw [← abs_of_pos count, ← abs_mul, abs_of_pos count, mul_sub, whole] at scaled
  refine scaled.trans (le_of_eq ?_)
  linear_combination whole / 2 ^ 53

/-- **The places of a grid never go down.** -/
theorem gridPlace_le {first second : ℕ} (order : first ≤ second) (le : second ≤ steps) :
    gridPlace range (gridStep range steps) first ≤
      gridPlace range (gridStep range steps) second := by
  refine Binary64.add_le_add_left spanned.lower ?_
  refine (roundsTo_shift spanned some few (order.trans le)).mono
    (roundsTo_shift spanned some few le) ?_
  have nonneg := (isWithin_gridStep spanned some few).low_le
  have order : (first : ℚ) ≤ second := by exact_mod_cast order
  exact mul_le_mul_of_nonneg_right order nonneg

/-- No place is below the range. -/
theorem lower_le_gridPlace {index : ℕ} (le : index ≤ steps) :
    range.lower ≤ gridPlace range (gridStep range steps) index := by
  refine Binary64.le_add_of_nonneg spanned.lower ?_
  refine zero_le_of_rounds (roundsTo_shift spanned some few le) ?_
  have nonneg := (isWithin_gridStep spanned some few).low_le
  positivity

end Grid

/-! ## Coarse grids -/

/-- Whether the step of a grid is at least `2 ^ -51` of both bounds of its range. -/
def IsCoarse (range : Interval) (steps : ℕ) : Prop :=
  range.reach ≤ 2 ^ 51 * value (gridStep range steps)

theorem lt_of_le_maxSteps {steps : ℕ} (few : steps ≤ maxSteps) : steps < 2 ^ 53 :=
  few.trans_lt (by decide)

section Coarse

variable {range : Interval} {steps : ℕ} (spanned : range.IsSpanned) (some : 0 < steps)
  (few : steps ≤ maxSteps) (coarse : IsCoarse range steps)

include spanned some few coarse

theorem gridStep_pos : 0 < value (gridStep range steps) := by
  have nonneg := (isWithin_gridStep spanned some (lt_of_le_maxSteps few)).low_le
  refine nonneg.lt_of_ne ?_
  intro zero
  rw [IsCoarse, ← zero, Rat.mul_zero] at coarse
  have ordered := spanned.ordered
  have lower := (abs_le.mp range.abs_lower_le).1
  have upper := (abs_le.mp range.abs_upper_le).2
  linarith

/-- The steps together are not much longer than the range. -/
theorem mul_gridStep_le : steps * value (gridStep range steps) ≤ 5 * range.reach := by
  have positive := gridStep_pos spanned some few coarse
  have count : (0 : ℚ) < steps := by exact_mod_cast some
  have least := mul_le_mul_of_nonneg_left (leastPositive_le positive) count.le
  have together := (abs_le.mp (abs_mul_gridStep_sub_le spanned some (lt_of_le_maxSteps few))).2
  have width := spanned.width_le
  have lower := (abs_le.mp range.abs_lower_le).1
  have upper := (abs_le.mp range.abs_upper_le).2
  have nonneg := (abs_nonneg _).trans range.abs_lower_le
  linarith

/-- So few steps are not very long together. -/
theorem mul_gridStep_le_pow {index : ℕ} (le : index ≤ steps) :
    index * value (gridStep range steps) ≤ 2 ^ 24 * value (gridStep range steps) := by
  have le : index ≤ 2 ^ 24 := le.trans (few.trans (by decide))
  have le : (index : ℚ) ≤ 2 ^ 24 := by exact_mod_cast le
  exact mul_le_mul_of_nonneg_right le (gridStep_pos spanned some few coarse).le

omit spanned some in
/-- In a large range the least positive number is far below a step. -/
theorem mul_least_le (large : value greatest ≤ 8 * range.reach) :
    steps * (leastPositive / 2) ≤ value (gridStep range steps) / 32 := by
  have coarse : range.reach ≤ 2 ^ 51 * value (gridStep range steps) := coarse
  linarith [mul_half_leastPositive_le (lt_of_le_maxSteps few), leastPositive_pos,
    mul_leastPositive_le]

/-- Every place but the last one is finite. -/
theorem isFinite_gridPlace {index : ℕ} (less : index < steps) :
    (gridPlace range (gridStep range steps) index).isFinite = true := by
  have few' := lt_of_le_maxSteps few
  have step := gridStep_pos spanned some few coarse
  have shift := roundsTo_shift spanned some few' less.le
  have error := abs_shift_sub_le spanned some few' less.le
  have nonneg : 0 ≤ index * value (gridStep range steps) := by positivity
  have next : (index : ℚ) * value (gridStep range steps) + value (gridStep range steps) ≤
      steps * value (gridStep range steps) := by
    have next : (index : ℚ) + 1 ≤ steps := by exact_mod_cast less
    have scaled := mul_le_mul_of_nonneg_right next step.le
    linarith
  rcases le_total (8 * range.reach) (value greatest) with small | large
  · have together := mul_gridStep_le spanned some few coarse
    obtain ⟨_, _⟩ := abs_le.mp range.abs_lower_le
    have finite := shift.isFinite (by rw [abs_of_nonneg nonneg]; linarith)
    obtain ⟨low, high⟩ := abs_le.mp (error finite)
    exact (roundsTo_add spanned.lower finite).isFinite (abs_le.mpr ⟨by linarith, by linarith⟩)
  -- Near the end of all numbers the step that is left over makes up for all errors.
  · have least := mul_least_le few coarse large
    have short := mul_gridStep_le_pow spanned some few coarse (le_refl steps)
    obtain ⟨together, together'⟩ := abs_le.mp (abs_mul_gridStep_sub_le spanned some few')
    obtain ⟨width, width'⟩ := abs_le.mp spanned.abs_width_sub_le
    have finite := (shift.isWithin_of_nonneg spanned.width nonneg (by linarith)).finite
    obtain ⟨low, high⟩ := abs_le.mp (error finite)
    exact ((roundsTo_add spanned.lower finite).isWithin spanned.lower spanned.upper
      (by linarith) (by linarith)).finite

/-- A finite place is off by less than half a step. -/
theorem abs_gridPlace_sub_lt {index : ℕ} (le : index ≤ steps)
    (finite : (gridPlace range (gridStep range steps) index).isFinite = true) :
    |value (gridPlace range (gridStep range steps) index) -
        (value range.lower + index * value (gridStep range steps))| <
      value (gridStep range steps) / 2 := by
  have step := gridStep_pos spanned some few coarse
  have short := mul_gridStep_le_pow spanned some few coarse le
  have coarse : range.reach ≤ 2 ^ 51 * value (gridStep range steps) := coarse
  obtain ⟨_, _⟩ := abs_le.mp range.abs_lower_le
  have shift : (Float.ofNat index * gridStep range steps).isFinite = true :=
    (isFinite_of_add finite).2
  obtain ⟨_, _⟩ := abs_le.mp (abs_shift_sub_le spanned some (lt_of_le_maxSteps few) le shift)
  have error := abs_add_sub_le finite
  have nonneg : 0 ≤ index * value (gridStep range steps) := by positivity
  have size : |value range.lower + value (Float.ofNat index * gridStep range steps)| ≤
      range.reach + 2 ^ 25 * value (gridStep range steps) := abs_le.mpr ⟨by linarith, by linarith⟩
  obtain ⟨_, _⟩ := abs_le.mp error
  change |value (range.lower + Float.ofNat index * gridStep range steps) - _| < _
  exact abs_lt.mpr ⟨by linarith, by linarith⟩

/-- **The places of a coarse grid go up at every step.** -/
theorem gridPlace_lt_succ {index : ℕ} (less : index < steps) :
    gridPlace range (gridStep range steps) index <
      gridPlace range (gridStep range steps) (index + 1) := by
  have finite := isFinite_gridPlace spanned some few coarse less
  have up := gridPlace_le spanned some (lt_of_le_maxSteps few) (Nat.le_succ index) less
  obtain ⟨number, number'⟩ := isNaN_of_le up
  rw [lt_iff_not_le number number']
  intro down
  have finite' := isFinite_of_between up down finite finite
  have down := (le_iff_value finite' finite).mp down
  have place := (abs_lt.mp (abs_gridPlace_sub_lt spanned some few coarse less.le finite)).2
  have place' := (abs_lt.mp (abs_gridPlace_sub_lt spanned some few coarse less finite')).1
  push_cast at place'
  linarith

theorem gridPlace_lt {first second : ℕ} (less : first < second) (le : second ≤ steps) :
    gridPlace range (gridStep range steps) first < gridPlace range (gridStep range steps) second :=
  lt_of_lt_of_le (gridPlace_lt_succ spanned some few coarse (by omega))
    (gridPlace_le spanned some (lt_of_le_maxSteps few) less le)

end Coarse

/-- **A grid over a range with the origin is coarse**, unless the range is very narrow. -/
theorem isCoarse_of_zero_mem {range : Interval} {steps : ℕ} (spanned : range.IsSpanned)
    (some : 0 < steps) (few : steps ≤ maxSteps) (lower : value range.lower ≤ 0)
    (upper : 0 ≤ value range.upper) (wide : 1 ≤ value range.upper - value range.lower) :
    IsCoarse range steps := by
  have count : (steps : ℚ) ≤ 2 ^ 24 := by
    have few : steps ≤ 2 ^ 24 := few.trans (by decide)
    exact_mod_cast few
  have nonneg := (isWithin_gridStep spanned some (few.trans_lt (by decide))).low_le
  have together := (abs_le.mp (abs_mul_gridStep_sub_le spanned some (few.trans_lt (by decide)))).1
  have width := (abs_le.mp spanned.abs_width_sub_le).1
  have scaled := mul_le_mul_of_nonneg_right count nonneg
  have least : steps * (leastPositive / 2) ≤ 1 / 2 := by
    have least : leastPositive ≤ 2 ^ (-24 : ℤ) := zpow_le_zpow_right₀ (by norm_num) (by norm_num)
    have scaled := mul_le_mul_of_nonneg_right count (half_pos leastPositive_pos).le
    norm_num at least
    linarith
  have reach : range.reach ≤ value range.upper - value range.lower :=
    max_le (by rw [abs_of_nonpos lower]; linarith) (by rw [abs_of_nonneg upper]; linarith)
  rw [IsCoarse]
  linarith

/-! ## Places that come again -/

section Again

variable {range : Interval} {steps index : ℕ} (spanned : range.IsSpanned) (some : 0 < steps)
  (few : steps < 2 ^ 53) (less : index < steps)

include spanned some few less

/-- Two places in a row that are both zero are as far from the lower bound, with the same sign. -/
theorem shift_succ_eq
    (zero : value range.lower + value (Float.ofNat index * gridStep range steps) = 0)
    (zero' : value range.lower + value (Float.ofNat (index + 1) * gridStep range steps) = 0)
    (finite : (Float.ofNat index * gridStep range steps).isFinite = true)
    (finite' : (Float.ofNat (index + 1) * gridStep range steps).isFinite = true) :
    Float.ofNat (index + 1) * gridStep range steps = Float.ofNat index * gridStep range steps := by
  have same : value (Float.ofNat (index + 1) * gridStep range steps) =
      value (Float.ofNat index * gridStep range steps) := by linarith
  by_cases none : value (Float.ofNat index * gridStep range steps) = 0
  · -- Without a step all places are the lower bound.
    have step : (gridStep range steps).isFinite = true := (isFinite_of_mul finite').2
    rw [none] at same
    have rounds := roundsTo_shift spanned some few (Nat.succ_le_of_lt less)
    have multiple := (onFinestGrid_value (gridStep range steps)).nat_mul (index + 1)
    have zero :=
      eq_zero_of_rounds rounds (beq_zero_iff.mpr (exists_parts_of_zero finite' same)) multiple
    have zero : value (gridStep range steps) = 0 :=
      (mul_eq_zero.mp zero).resolve_left (by exact_mod_cast Nat.succ_ne_zero index)
    obtain ⟨sign, zero⟩ := exists_parts_of_zero step zero
    exact ext_parts
      ((parts_ofNat_mul_zero (by omega) zero).trans (parts_ofNat_mul_zero (by omega) zero).symm)
  · exact eq_of_value_eq finite' finite same none

/-- A place that is not above the one before is the same, bit for bit. -/
theorem gridPlace_succ_eq (down : gridPlace range (gridStep range steps) (index + 1) ≤
      gridPlace range (gridStep range steps) index) :
    gridPlace range (gridStep range steps) (index + 1) =
      gridPlace range (gridStep range steps) index := by
  have up := gridPlace_le spanned some few (Nat.le_succ index) less
  by_cases zero : (gridPlace range (gridStep range steps) index == 0) = true
  · obtain ⟨above, below⟩ := le_zero_of_beq zero
    have zero' := beq_of_le_of_le (le_trans down below) (le_trans above up)
    obtain ⟨_, same⟩ := beq_zero_iff.mp zero
    obtain ⟨_, same'⟩ := beq_zero_iff.mp zero'
    have finite := (isFinite_of_add (congrArg UnpackedFloat.isFinite same)).2
    have finite' := (isFinite_of_add (congrArg UnpackedFloat.isFinite same')).2
    have multiple (x : Float) : OnFinestGrid (value range.lower + value x) :=
      (onFinestGrid_value _).add (onFinestGrid_value x)
    exact congrArg (range.lower + ·) (shift_succ_eq spanned some few less
      (eq_zero_of_rounds (roundsTo_add spanned.lower finite) zero (multiple _))
      (eq_zero_of_rounds (roundsTo_add spanned.lower finite') zero' (multiple _)) finite finite')
  · refine eq_of_beq (beq_of_le_of_le down up) fun sign same => zero ?_
    exact beq_zero_iff.mpr ⟨sign, same⟩

/-- Where a place does not come again all that follow are above it. -/
theorem gridPlace_lt_of_succ_ne {second : ℕ} (after : index < second) (le : second ≤ steps)
    (other : gridPlace range (gridStep range steps) (index + 1) ≠
      gridPlace range (gridStep range steps) index) :
    gridPlace range (gridStep range steps) index <
      gridPlace range (gridStep range steps) second := by
  have up := gridPlace_le spanned some few (Nat.le_succ index) less
  have further := gridPlace_le spanned some few after le
  rw [lt_iff_not_le (isNaN_of_le up).1 (isNaN_of_le further).2]
  intro down
  exact other (gridPlace_succ_eq spanned some few less (le_trans further down))

end Again

/-! ## Fine grids -/

/-- On a grid that is much finer than its lower bound the first two places are that bound. -/
theorem gridPlace_eq_lower {range : Interval} {steps : ℕ} (spanned : range.IsSpanned)
    (some : 0 < steps) (few : steps < 2 ^ 53)
    (fine : 2 ^ 54 * value (gridStep range steps) < |value range.lower|) {index : ℕ}
    (le : index ≤ 1) : gridPlace range (gridStep range steps) index = range.lower := by
  obtain ⟨finite, nonneg, _⟩ := isWithin_gridStep spanned some few
  have within : IsWithin 0 (value (gridStep range steps))
      (Float.ofNat index * gridStep range steps) := by
    have one : (index : ℚ) ≤ 1 := by exact_mod_cast le
    exact (roundsTo_shift spanned some few (le.trans some)).isWithin_of_nonneg finite
      (mul_nonneg (Nat.cast_nonneg index) nonneg) (mul_le_of_le_one_left nonneg one)
  refine (roundsTo_add spanned.lower within.finite).eq_of_close spanned.lower ?_
  rw [add_sub_cancel_left, abs_of_nonneg within.low_le]
  exact (mul_le_mul_of_nonneg_left within.le_high (by norm_num)).trans_lt fine

/-! ## Samples -/

section Samples

variable {signal : Float → Float} {range : Interval} {steps : ℕ}

theorem points_sampleGrid (some : 0 < steps) : (sampleGrid signal range steps).points =
    (List.range (steps + 1)).filterMap fun index =>
      sampleAt? signal (gridPlace range (gridStep range steps) index) := by
  rw [sampleGrid, if_neg some.ne']

theorem step_sampleGrid (some : 0 < steps) :
    (sampleGrid signal range steps).step = gridStep range steps := by
  rw [sampleGrid, if_neg some.ne']

theorem sampleAt?_eq_some {x : Float} {point : Point} :
    sampleAt? signal x = some point ↔ (signal x).isFinite = true ∧ point = ⟨x, signal x⟩ := by
  unfold sampleAt?
  dsimp only
  split
  · next finite => simp [finite, eq_comm]
  · next infinite => simp [infinite]

/-- The samples are the finite values at the places. -/
theorem mem_sampleGrid (some : 0 < steps) {point : Point} :
    point ∈ (sampleGrid signal range steps).points ↔
      (∃ index ≤ steps, point.x = gridPlace range (gridStep range steps) index) ∧
        point.y = signal point.x ∧ point.y.isFinite = true := by
  rw [points_sampleGrid some, List.mem_filterMap]
  simp only [List.mem_range, sampleAt?_eq_some, Nat.lt_succ_iff]
  constructor
  · rintro ⟨index, le, finite, rfl⟩
    exact ⟨⟨index, le, rfl⟩, rfl, finite⟩
  · obtain ⟨x, y⟩ := point
    rintro ⟨⟨index, le, place⟩, sampled, finite⟩
    dsimp only at place sampled finite
    subst place sampled
    exact ⟨index, le, finite, rfl⟩

/-- What holds of all places holds of all samples. -/
theorem forall_mem_sampleGrid (good : Float → Prop) (some : 0 < steps)
    (places : ∀ index ≤ steps, good (gridPlace range (gridStep range steps) index)) :
    ∀ point ∈ (sampleGrid signal range steps).points, good point.x := by
  intro point member
  obtain ⟨⟨index, le, place⟩, _⟩ := (mem_sampleGrid some).mp member
  rw [place]
  exact places index le

/-- What holds of any two places holds of any two samples. -/
theorem forall₂_mem_sampleGrid (related : Float → Float → Prop) (some : 0 < steps)
    (places : ∀ first ≤ steps, ∀ second ≤ steps,
      related (gridPlace range (gridStep range steps) first)
        (gridPlace range (gridStep range steps) second)) :
    ∀ left ∈ (sampleGrid signal range steps).points,
      ∀ right ∈ (sampleGrid signal range steps).points, related left.x right.x := by
  intro left member
  refine forall_mem_sampleGrid (related left.x) some fun second le' => ?_
  exact forall_mem_sampleGrid (related · (gridPlace range (gridStep range steps) second)) some
    (fun first le => places first le second le') left member

/-- What holds of the places, taken in order, holds of the samples. -/
theorem pairwise_sampleGrid {related : Float → Float → Prop}
    (places : ∀ first second, first < second → second ≤ steps →
      related (gridPlace range (gridStep range steps) first)
        (gridPlace range (gridStep range steps) second)) :
    (sampleGrid signal range steps).points.Pairwise fun left right => related left.x right.x := by
  rcases Nat.eq_zero_or_pos steps with rfl | some
  · exact .nil
  · rw [points_sampleGrid some, List.pairwise_filterMap]
    refine List.pairwise_lt_range.imp_of_mem ?_
    intro first second _ member less left sampled right sampled'
    rw [List.mem_range] at member
    obtain ⟨_, rfl⟩ := sampleAt?_eq_some.mp sampled
    obtain ⟨_, rfl⟩ := sampleAt?_eq_some.mp sampled'
    exact places first second less (by omega)

/-- The places at which there is a sample. -/
theorem exists_mem_sampleGrid_iff (some : 0 < steps) {index : ℕ} (le : index ≤ steps) :
    (∃ point ∈ (sampleGrid signal range steps).points,
        point.x = gridPlace range (gridStep range steps) index) ↔
      (signal (gridPlace range (gridStep range steps) index)).isFinite = true := by
  simp only [mem_sampleGrid some]
  constructor
  · rintro ⟨point, ⟨_, sampled, finite⟩, place⟩
    rwa [sampled, place] at finite
  · intro finite
    exact ⟨⟨_, signal _⟩, ⟨⟨index, le, rfl⟩, rfl, finite⟩, rfl⟩

/-- **Samples go up strictly** exactly if no place with a sample comes again as the next one. -/
theorem pairwise_lt_sampleGrid_iff (spanned : range.IsSpanned) (some : 0 < steps)
    (few : steps < 2 ^ 53) :
    ((sampleGrid signal range steps).points.Pairwise fun left right => left.x < right.x) ↔
      ∀ index < steps, (signal (gridPlace range (gridStep range steps) index)).isFinite = true →
        gridPlace range (gridStep range steps) (index + 1) ≠
          gridPlace range (gridStep range steps) index := by
  rw [points_sampleGrid some, List.pairwise_filterMap]
  simp only [sampleAt?_eq_some]
  constructor
  · intro increasing index less finite same
    have pair := List.pairwise_iff_getElem.mp increasing index (index + 1)
      (by simpa using less.le) (by simpa using less) (Nat.lt_succ_self index)
    simp only [List.getElem_range, same] at pair
    have less := pair _ ⟨finite, rfl⟩ _ ⟨finite, rfl⟩
    obtain ⟨number, _⟩ := isNaN_of_lt less
    exact (lt_iff_not_le number number).mp less (le_refl number)
  · intro others
    refine List.pairwise_lt_range.imp_of_mem ?_
    rintro first second _ member less _ ⟨finite, rfl⟩ _ ⟨_, rfl⟩
    rw [List.mem_range] at member
    exact gridPlace_lt_of_succ_ne spanned some few (by omega) less (by omega)
      (others first (by omega) finite)

end Samples

end Waveform
