import Waveform.Proofs.Sampler.Plotted

/-!
# Windows around pulses

The hull of pulses keeps the origin, and the window around it leaves room on both sides
(`Settings.value_padded_lower_le`). Its width is finite unless an edge is near the end of all
numbers (`Settings.isFinite_padded_width`).
-/

set_option autoImplicit false

namespace Waveform

open Binary64

/-! ## The lesser and the greater number -/

section Extremes

variable {a b : Float}

theorem lesser_le_left (number : a.isNaN = false) : lesser a b ≤ a := by
  unfold lesser
  rw [number]
  simp only [Bool.false_eq_true, if_false]
  split
  · next less => exact le_of_lt less
  · exact le_refl number

theorem le_greater_left (number : a.isNaN = false) : a ≤ greater a b := by
  unfold greater
  rw [number]
  simp only [Bool.false_eq_true, if_false]
  split
  · next less => exact le_of_lt less
  · exact le_refl number

theorem le_greater_right (number : b.isNaN = false) : b ≤ greater a b := by
  unfold greater
  split
  · exact le_refl number
  · next number' =>
    have number' := Bool.eq_false_of_not_eq_true number'
    split
    · exact le_refl number
    · next notLess =>
      by_contra notLe
      exact notLess ((lt_iff_not_le number' number).mpr notLe)

theorem lesser_eq_or (a b : Float) : lesser a b = a ∨ lesser a b = b := by
  unfold lesser
  split
  · exact .inr rfl
  · split
    · exact .inr rfl
    · exact .inl rfl

theorem greater_eq_or (a b : Float) : greater a b = a ∨ greater a b = b := by
  unfold greater
  split
  · exact .inr rfl
  · split
    · exact .inr rfl
    · exact .inl rfl

end Extremes

/-- Whether the edges of a pulse are at most as far from the origin as a limit. -/
def Pulse.ReachesWithin (pulse : Pulse) (limit : Float) : Prop :=
  pulse.extent.1.abs ≤ limit ∧ pulse.extent.2.abs ≤ limit

instance (pulse : Pulse) (limit : Float) : Decidable (pulse.ReachesWithin limit) :=
  inferInstanceAs (Decidable (_ ∧ _))

namespace Settings

/-! ## The hull of pulses -/

/-- The least interval with another one and the extents of pulses. -/
def hullFrom (start : Interval) (pulses : List Pulse) : Interval :=
  pulses.foldl (fun hull pulse =>
    ⟨lesser hull.lower pulse.extent.1, greater hull.upper pulse.extent.2⟩) start

theorem zero_mem_hullFrom (start : Interval) (lower : start.lower ≤ 0) (upper : 0 ≤ start.upper)
    (pulses : List Pulse) :
    (hullFrom start pulses).lower ≤ 0 ∧ 0 ≤ (hullFrom start pulses).upper := by
  induction pulses generalizing start with
  | nil => exact ⟨lower, upper⟩
  | cons pulse pulses ih =>
    exact ih _ (le_trans (lesser_le_left (isNaN_of_le lower).1) lower)
      (le_trans upper (le_greater_left (isNaN_of_le upper).2))

/-- The hull keeps the origin. -/
theorem zero_mem_hull (pulses : List Pulse) : (hull pulses).lower ≤ 0 ∧ 0 ≤ (hull pulses).upper :=
  zero_mem_hullFrom ⟨0, 0⟩ (le_refl rfl) (le_refl rfl) pulses

theorem abs_hullFrom_le {limit : Float} (start : Interval) {pulses : List Pulse}
    (lower : start.lower.abs ≤ limit) (upper : start.upper.abs ≤ limit)
    (near : ∀ pulse ∈ pulses, pulse.ReachesWithin limit) :
    (hullFrom start pulses).lower.abs ≤ limit ∧ (hullFrom start pulses).upper.abs ≤ limit := by
  induction pulses generalizing start with
  | nil => exact ⟨lower, upper⟩
  | cons pulse pulses ih =>
    obtain ⟨⟨left, right⟩, near⟩ := List.forall_mem_cons.mp near
    refine ih _ ?_ ?_ near
    · rcases lesser_eq_or start.lower pulse.extent.1 with same | same
      · simpa only [same] using lower
      · simpa only [same] using left
    · rcases greater_eq_or start.upper pulse.extent.2 with same | same
      · simpa only [same] using upper
      · simpa only [same] using right

/-- The hull is as near to the origin as all the edges. -/
theorem isWithin_hull {pulses : List Pulse} {limit : Float} (finite : limit.isFinite = true)
    (nonneg : 0 ≤ limit) (near : ∀ pulse ∈ pulses, pulse.ReachesWithin limit) :
    IsWithin (-value limit) (value limit) (hull pulses).lower ∧
      IsWithin (-value limit) (value limit) (hull pulses).upper := by
  obtain ⟨lower, upper⟩ := abs_hullFrom_le ⟨0, 0⟩ nonneg nonneg near
  exact ⟨isWithin_of_abs_le finite lower, isWithin_of_abs_le finite upper⟩

/-! ## Windows -/

/-- The window around an interval. -/
def padded (settings : Settings) (around : Interval) : Interval :=
  let padding := settings.closedFormPadding (around.upper - around.lower)
  ⟨around.lower - padding, around.upper + padding⟩

/-- **A sum of pulses has the window around the hull of some of them**, or the default one. -/
theorem closedFormDomain_cases (settings : Settings) (pulses : List Pulse) :
    settings.closedFormDomain pulses = settings.closedFormDefaultDomain ∨
      ∃ supported, supported ⊆ pulses ∧
        settings.closedFormDomain pulses = settings.padded (hull supported) := by
  unfold closedFormDomain
  cases some : pulses.filter Pulse.hasSupport with
  | nil => exact .inl rfl
  | cons pulse rest =>
    refine .inr ⟨pulse :: rest, ?_, rfl⟩
    rw [← some]
    exact List.filter_sublist.subset

section Padded

variable {settings : Settings} (usable : settings.IsUsable) {around : Interval}

include usable

theorem minPadding_le (span : Float) :
    settings.closedFormMinPadding ≤ settings.closedFormPadding span :=
  le_greater_right (isNaN_of_isFinite usable.closedFormMinPadding.1)

/-- The least padding is left free below the origin. -/
theorem value_padded_lower_le (lower : around.lower ≤ 0)
    (finite : (settings.padded around).lower.isFinite = true) :
    value (settings.padded around).lower ≤ -value settings.closedFormMinPadding := by
  have least := usable.closedFormMinPadding.1
  obtain ⟨bound, padding⟩ := isFinite_of_sub finite
  have enough := (le_iff_value least padding).mp (minPadding_le usable _)
  have lower := (le_zero_iff_value bound).mp lower
  have least' : (-settings.closedFormMinPadding).isFinite = true := by rwa [isFinite_neg]
  have below : (settings.padded around).lower ≤ -settings.closedFormMinPadding :=
    (roundsTo_sub bound padding).le_of_le_value least' (by rw [value_neg]; linarith)
  rwa [le_iff_value finite least', value_neg] at below

/-- The least padding is left free above the origin. -/
theorem le_value_padded_upper (upper : 0 ≤ around.upper)
    (finite : (settings.padded around).upper.isFinite = true) :
    value settings.closedFormMinPadding ≤ value (settings.padded around).upper := by
  have least := usable.closedFormMinPadding.1
  obtain ⟨bound, padding⟩ := isFinite_of_add finite
  have enough := (le_iff_value least padding).mp (minPadding_le usable _)
  have upper := (zero_le_iff_value bound).mp upper
  have above : settings.closedFormMinPadding ≤ (settings.padded around).upper :=
    (roundsTo_add bound padding).ge_of_value_le least (by linarith)
  rwa [le_iff_value least finite] at above

/-- The padding is at most as wide as the interval, or the least padding. -/
theorem isWithin_closedFormPadding (ratio : value settings.closedFormPaddingRatio ≤ 1) {bound : ℚ}
    {span : Float} (width : IsWithin 0 bound span)
    (least : value settings.closedFormMinPadding ≤ bound) :
    IsWithin 0 bound (settings.closedFormPadding span) := by
  obtain ⟨finite, nonneg, le⟩ := width
  obtain ⟨ratioFinite, ratioNonneg⟩ := usable.closedFormPaddingRatio
  obtain ⟨leastFinite, leastNonneg⟩ := usable.closedFormMinPadding
  have ratioNonneg := (zero_le_iff_value ratioFinite).mp ratioNonneg
  unfold closedFormPadding
  rcases greater_eq_or (span * settings.closedFormPaddingRatio) settings.closedFormMinPadding with
    same | same
  · obtain ⟨scaledFinite, scaledNonneg, scaledLe⟩ :=
      (roundsTo_mul finite ratioFinite).isWithin_of_nonneg finite (mul_nonneg nonneg ratioNonneg)
        (mul_le_of_le_one_right nonneg ratio)
    rw [same]
    exact ⟨scaledFinite, scaledNonneg, scaledLe.trans le⟩
  · rw [same]
    exact ⟨leastFinite, (zero_le_iff_value leastFinite).mp leastNonneg, least⟩

/-- **The width of the window is finite** if the interval is not too wide for its padding. -/
theorem isFinite_padded_width (ratio : value settings.closedFormPaddingRatio ≤ 1) {bound : ℚ}
    (small : 16 * bound ≤ value greatest) (least : value settings.closedFormMinPadding ≤ bound)
    (lower : IsWithin (-bound) bound around.lower) (upper : IsWithin (-bound) bound around.upper)
    (order : value around.lower ≤ value around.upper) :
    ((settings.padded around).upper - (settings.padded around).lower).isFinite = true := by
  obtain ⟨lower, lowerLow, lowerHigh⟩ := lower
  obtain ⟨upper, upperLow, upperHigh⟩ := upper
  have span : (around.upper - around.lower).isFinite = true :=
    (roundsTo_sub upper lower).isFinite (abs_le.mpr ⟨by linarith, by linarith⟩)
  have spanError := abs_le.mp (abs_sub_sub_le span)
  rw [abs_of_nonneg (sub_nonneg.mpr order)] at spanError
  have width : IsWithin 0 (3 * bound) (around.upper - around.lower) :=
    ⟨span, by linarith, by linarith⟩
  obtain ⟨finite, low, high⟩ := isWithin_closedFormPadding usable ratio width (by linarith)
  change (around.upper + settings.closedFormPadding _ -
    (around.lower - settings.closedFormPadding _)).isFinite = true
  generalize settings.closedFormPadding (around.upper - around.lower) = padding at *
  have lowSize : |value around.lower - value padding| ≤ 4 * bound :=
    abs_le.mpr ⟨by linarith, by linarith⟩
  have highSize : |value around.upper + value padding| ≤ 4 * bound :=
    abs_le.mpr ⟨by linarith, by linarith⟩
  have lowFinite := (roundsTo_sub lower finite).isFinite (by linarith)
  have highFinite := (roundsTo_add upper finite).isFinite (by linarith)
  obtain ⟨_, _⟩ := abs_le.mp (abs_sub_sub_le lowFinite)
  obtain ⟨_, _⟩ := abs_le.mp (abs_add_sub_le highFinite)
  obtain ⟨_, _⟩ := abs_le.mp lowSize
  obtain ⟨_, _⟩ := abs_le.mp highSize
  exact (roundsTo_sub highFinite lowFinite).isFinite (abs_le.mpr ⟨by linarith, by linarith⟩)

end Padded

end Settings

end Waveform
