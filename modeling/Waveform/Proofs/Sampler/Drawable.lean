import Waveform.Proofs.Pulse.Magnitude
import Waveform.Proofs.Sampler.Area
import Waveform.Proofs.Sampler.Hull
import Waveform.Proofs.Sampler.Window

/-!
# Plots that can be drawn

A plot can be drawn when its window has finite bounds in the right order, its samples are finite
and go up, and its area is a number from zero up. The default sampler gives such a plot of a sum of
pulses when the width of the window is finite (`Sampler.isDrawable_pulsesPlot`). Edges up to
`10 ^ 306` leave it finite.

If that width overflows, there is no place for a sample but infinities and a NaN. At the NaN pulses
are zero, so there is a sample that cannot be drawn, unless an amplitude is not finite.
-/

set_option autoImplicit false

namespace Waveform

open Binary64 Float.Model Float.Model.UnpackedFloat

/-- A plot that a chart can show. -/
structure Plot.IsDrawable (plot : Plot) : Prop where
  lower : plot.domain.lower.isFinite = true
  upper : plot.domain.upper.isFinite = true
  ordered : plot.domain.lower < plot.domain.upper
  places : ∀ point ∈ plot.points, point.x.isFinite = true
  increasing : plot.points.Pairwise fun left right => left.x < right.x
  values : ∀ point ∈ plot.points, point.y.isFinite = true
  area : 0 ≤ plot.area

/-! ## The default window -/

namespace Settings

theorem isUsable_default : ({} : Settings).IsUsable :=
  check_eq_ok.mp (by decide +kernel)

/-- The default window of pulses reaches over ten on both sides of the origin. -/
theorem closedFormDomain_default (pulses : List Pulse) :
    let domain := ({} : Settings).closedFormDomain pulses
    (domain.lower.isFinite = true → value domain.lower ≤ -10) ∧
      (domain.upper.isFinite = true → 10 ≤ value domain.upper) := by
  intro domain
  rcases closedFormDomain_cases {} pulses with same | ⟨supported, _, same⟩
  · have thirty : value 30 = 30 := value_ofNat (by norm_num : 30 < 2 ^ 53)
    have window : domain = ⟨-30, 30⟩ := same
    rw [window]
    exact ⟨fun _ => by rw [value_neg, thirty]; norm_num, fun _ => by rw [thirty]; norm_num⟩
  · have window : domain = ({} : Settings).padded (hull supported) := same
    obtain ⟨lower, upper⟩ := zero_mem_hull supported
    rw [window]
    constructor
    · intro finite
      have low := value_padded_lower_le isUsable_default lower finite
      rwa [show ({} : Settings).closedFormMinPadding = 10 from rfl, value_ten] at low
    · intro finite
      have high := le_value_padded_upper isUsable_default upper finite
      rwa [show ({} : Settings).closedFormMinPadding = 10 from rfl, value_ten] at high

end Settings

namespace Sampler

/-! ## Plots of pulses -/

/-- The samples of pulses over their window. -/
def sampledPulses (sampler : Sampler) (pulses : List Pulse) : Samples :=
  sampleGrid (Pulse.sumAt pulses) (sampler.settings.closedFormDomain pulses)
    sampler.settings.closedFormSteps.toNat

/-- The plot of pulses by settings that can be used. -/
def pulsesPlot (sampler : Sampler) (pulses : List Pulse) : Plot where
  points := (sampler.sampledPulses pulses).points
  domain := sampler.settings.closedFormDomain pulses
  area := sampler.area (sampler.sampledPulses pulses)

theorem value_plotClosedForm_of_text {sampler : Sampler}
    (usable : sampler.settings.check = .ok ()) {formula : String}
    (text : Text.isBlankText formula = false) :
    (sampler.plotClosedForm formula).value =
      sampler.pulsesPlot (parseClosedForm formula).pulses := by
  unfold plotClosedForm samplePulses
  rw [text]
  dsimp only
  rw [usable]
  rfl

/-- **A formula is plotted as its pulses**, unless it is blank. -/
theorem value_plotClosedForm {sampler : Sampler} (usable : sampler.settings.check = .ok ())
    (formula : String) :
    (sampler.plotClosedForm formula).value = .empty sampler.settings.closedFormDefaultDomain ∨
      (sampler.plotClosedForm formula).value =
        sampler.pulsesPlot (parseClosedForm formula).pulses := by
  cases text : Text.isBlankText formula with
  | true =>
    refine .inl ?_
    rw [plotClosedForm, text]
    rfl
  | false => exact .inr (value_plotClosedForm_of_text usable text)

/-! ## Places of the default grid -/

theorem points_pulsesPlot (sampler : Sampler) (pulses : List Pulse) :
    (sampler.pulsesPlot pulses).points = (sampler.sampledPulses pulses).points := rfl

theorem area_pulsesPlot (sampler : Sampler) (pulses : List Pulse) :
    (sampler.pulsesPlot pulses).area = sampler.area (sampler.sampledPulses pulses) := rfl

theorem sampledPulses_default (pulses : List Pulse) : ({} : Sampler).sampledPulses pulses =
    sampleGrid (Pulse.sumAt pulses) (({} : Settings).closedFormDomain pulses) 4000 := by
  have steps : ({} : Settings).closedFormSteps.toNat = 4000 := by decide
  rw [sampledPulses, steps]

/-- The steps of the widest window together are finite. -/
theorem isFinite_greatest_shift :
    (Float.ofNat 4000 * (greatest / Float.ofNat 4000)).isFinite = true := by
  decide +kernel

section Range

variable {range : Interval} (spanned : range.IsSpanned) (lower : value range.lower ≤ 0)

include spanned lower

/-- Even the last place of the default grid is finite. -/
theorem isFinite_last_gridPlace : (gridPlace range (gridStep range 4000) 4000).isFinite = true := by
  have few : 4000 < 2 ^ 53 := by norm_num
  have count := value_ofNat few
  obtain ⟨stepFinite, stepNonneg, _⟩ := isWithin_gridStep spanned (by norm_num) few
  have shift := roundsTo_shift spanned (by norm_num) few le_rfl
  -- No grid has longer steps than one that is as wide as the greatest number.
  have widest := roundsTo_div isFinite_greatest (isFinite_ofNat few) (by rw [count]; norm_num)
  have widestFinite := (isFinite_of_mul isFinite_greatest_shift).2
  have widestShift := roundsTo_mul (isFinite_ofNat few) widestFinite
  rw [count] at widest widestShift
  have step : value (gridStep range 4000) ≤ value (greatest / Float.ofNat 4000) := by
    have width := value_le_greatest (range.upper - range.lower)
    have le := (roundsTo_gridStep spanned (by norm_num) few).mono widest
      (div_le_div_of_nonneg_right width (by norm_num))
    exact (le_iff_value stepFinite widestFinite).mp le
  have nonneg : (0 : Float) ≤ Float.ofNat 4000 * gridStep range 4000 :=
    zero_le_of_rounds shift (by positivity)
  have le : Float.ofNat 4000 * gridStep range 4000 ≤
      Float.ofNat 4000 * (greatest / Float.ofNat 4000) :=
    shift.mono widestShift (mul_le_mul_of_nonneg_left step (by norm_num))
  have finite := isFinite_of_between nonneg le isFinite_zero isFinite_greatest_shift
  have nonneg := (zero_le_iff_value finite).mp nonneg
  exact ((roundsTo_add spanned.lower finite).isWithin spanned.lower finite
    (by linarith) (by linarith)).finite

end Range

section Width

variable {pulses : List Pulse}
  (width : ((({} : Settings).closedFormDomain pulses).upper -
    (({} : Settings).closedFormDomain pulses).lower).isFinite = true)

include width

theorem isSpanned_closedFormDomain : (({} : Settings).closedFormDomain pulses).IsSpanned := by
  obtain ⟨low, high⟩ := Settings.closedFormDomain_default pulses
  obtain ⟨upper, lower⟩ := isFinite_of_sub width
  exact ⟨by linarith [low lower, high upper], width⟩

/-- **The default plot of pulses can be drawn** when the width of its window is finite. -/
theorem isDrawable_pulsesPlot : (({} : Sampler).pulsesPlot pulses).IsDrawable := by
  have spanned := isSpanned_closedFormDomain width
  obtain ⟨low, high⟩ := Settings.closedFormDomain_default pulses
  have low := low spanned.lower
  have high := high spanned.upper
  have few : 4000 ≤ maxSteps := by decide
  have coarse : IsCoarse (({} : Settings).closedFormDomain pulses) 4000 :=
    isCoarse_of_zero_mem spanned (by norm_num) few (by linarith) (by linarith) (by linarith)
  have last := isFinite_last_gridPlace spanned (by linarith)
  have finite (point : Point) (member : point ∈ (({} : Sampler).pulsesPlot pulses).points) :
      point.x.isFinite = true ∧ point.y.isFinite = true := by
    rw [points_pulsesPlot, sampledPulses_default, mem_sampleGrid (by norm_num)] at member
    obtain ⟨⟨index, le, place⟩, _, finite⟩ := member
    refine ⟨?_, finite⟩
    rw [place]
    exact isFinite_of_between (lower_le_gridPlace spanned (by norm_num) (lt_of_le_maxSteps few) le)
      (gridPlace_le spanned (by norm_num) (lt_of_le_maxSteps few) le le_rfl) spanned.lower last
  refine ⟨spanned.lower, spanned.upper, ?_, fun point member => (finite point member).1, ?_,
    fun point member => (finite point member).2, ?_⟩
  · exact (lt_iff_value spanned.lower spanned.upper).mpr spanned.ordered
  · rw [points_pulsesPlot, sampledPulses_default]
    exact pairwise_sampleGrid fun first second => gridPlace_lt spanned (by norm_num) few coarse
  · have step := gridStep_pos spanned (by norm_num) few coarse
    have stepFinite := (isWithin_gridStep spanned (by norm_num) (lt_of_le_maxSteps few)).finite
    rw [← step_sampleGrid (by norm_num), ← sampledPulses_default] at step stepFinite
    rw [points_pulsesPlot] at finite
    rw [area_pulsesPlot]
    exact zero_le_roundTo
      (zero_le_trapezoidArea stepFinite step fun point member => (finite point member).2)
      (by decide +kernel) (by decide +kernel)

end Width

/-- **A default plot of pulses with finite amplitudes can be drawn only** when the width of its
window is finite: otherwise the first place is a NaN, where pulses are zero. -/
theorem isFinite_width_of_isDrawable {pulses : List Pulse}
    (finite : ∀ pulse ∈ pulses, pulse.amplitude.isFinite = true)
    (drawable : (({} : Sampler).pulsesPlot pulses).IsDrawable) :
    ((({} : Settings).closedFormDomain pulses).upper -
      (({} : Settings).closedFormDomain pulses).lower).isFinite = true := by
  by_contra overflow
  have overflow := Bool.eq_false_of_not_eq_true overflow
  have lower : (({} : Settings).closedFormDomain pulses).lower.isFinite = true := drawable.lower
  have upper : (({} : Settings).closedFormDomain pulses).upper.isFinite = true := drawable.upper
  have order := (lt_iff_value lower upper).mp drawable.ordered
  have nan :=
    parts_gridPlace_zero lower upper order (by norm_num) (by norm_num : 4000 < 2 ^ 53) overflow
  have sampled := Pulse.isFinite_sumAt_of_isNaN finite nan
  generalize same : gridPlace (({} : Settings).closedFormDomain pulses)
    (gridStep (({} : Settings).closedFormDomain pulses) 4000) 0 = first at nan sampled
  have member : (⟨first, Pulse.sumAt pulses first⟩ : Point) ∈
      (({} : Sampler).pulsesPlot pulses).points := by
    rw [points_pulsesPlot, sampledPulses_default, mem_sampleGrid (by norm_num)]
    exact ⟨⟨0, Nat.zero_le 4000, same.symm⟩, rfl, sampled⟩
  have place := drawable.places ⟨first, Pulse.sumAt pulses first⟩ member
  change (parts first).isFinite = true at place
  rw [nan] at place
  cases place

/-- Sixteen times the limit of the edges is still below the greatest number. -/
theorem mul_limit_le : 16 * value 1e306 ≤ value greatest := by
  have sixteen : value 16 = 16 := value_ofNat (by norm_num : 16 < 2 ^ 53)
  by_contra beyond
  have product := roundsTo_mul (by decide : (16 : Float).isFinite = true)
    (by decide +kernel : (1e306 : Float).isFinite = true)
  have rounded : greatest ≤ 16 * 1e306 :=
    (roundsTo_value isFinite_greatest).mono product (by rw [sixteen]; exact (not_le.mp beyond).le)
  exact absurd rounded (by decide +kernel)

/-- The width of the default window is finite when no edge is near the end of all numbers. -/
theorem isFinite_width_of_near {pulses : List Pulse}
    (near : ∀ pulse ∈ pulses, pulse.ReachesWithin 1e306) :
    ((({} : Settings).closedFormDomain pulses).upper -
      (({} : Settings).closedFormDomain pulses).lower).isFinite = true := by
  have usable := Settings.isUsable_default
  rcases Settings.closedFormDomain_cases {} pulses with same | ⟨supported, subset, same⟩
  · rw [same]
    decide +kernel
  · have limit : (1e306 : Float).isFinite = true := by decide +kernel
    obtain ⟨low, high⟩ := Settings.zero_mem_hull supported
    obtain ⟨lower, upper⟩ := Settings.isWithin_hull limit (by decide +kernel)
      fun pulse member => near pulse (subset member)
    have low := (le_zero_iff_value lower.finite).mp low
    have high := (zero_le_iff_value upper.finite).mp high
    have least : value ({} : Settings).closedFormMinPadding ≤ value 1e306 :=
      (le_iff_value usable.closedFormMinPadding.1 limit).mp (by decide +kernel)
    have ratio : value ({} : Settings).closedFormPaddingRatio ≤ 1 := by
      have le : ({} : Settings).closedFormPaddingRatio ≤ 1 := by decide +kernel
      rwa [le_iff_value usable.closedFormPaddingRatio.1 isFinite_one, value_one] at le
    rw [same]
    exact Settings.isFinite_padded_width usable ratio mul_limit_le least lower upper
      (low.trans high)

/-! ## Plots of formulas -/

/-- The plot of a formula in closed form by the default settings. -/
def defaultPlot (formula : String) : Plot :=
  (({} : Sampler).plotClosedForm formula).value

/-- **The default plot of a formula in closed form can be drawn** when the width of its window is
finite. That width is finite when no edge of a pulse is farther than `10 ^ 306` from the origin.
When it is not finite, the plot cannot be drawn, unless the formula has an amplitude that is not
finite. -/
theorem plotClosedForm_isDrawable (formula : String) :
    ((∀ pulse ∈ (parseClosedForm formula).pulses, pulse.ReachesWithin 1e306) →
        ((defaultPlot formula).domain.upper - (defaultPlot formula).domain.lower).isFinite = true) ∧
      (((defaultPlot formula).domain.upper - (defaultPlot formula).domain.lower).isFinite = true →
        (defaultPlot formula).IsDrawable) ∧
      ((∀ pulse ∈ (parseClosedForm formula).pulses, pulse.amplitude.isFinite = true) →
        (defaultPlot formula).IsDrawable →
          ((defaultPlot formula).domain.upper - (defaultPlot formula).domain.lower).isFinite =
            true) := by
  have usable := Settings.check_eq_ok.mpr Settings.isUsable_default
  rcases value_plotClosedForm usable formula with plotted | plotted
  · have same : defaultPlot formula = .empty ⟨-30, 30⟩ := plotted
    have width : ((30 : Float) - -30).isFinite = true := by decide +kernel
    rw [same]
    refine ⟨fun _ => width, fun _ => ?_, fun _ _ => width⟩
    exact ⟨by decide, by decide, by decide, fun _ member => (List.not_mem_nil member).elim, .nil,
      fun _ member => (List.not_mem_nil member).elim, le_refl rfl⟩
  · have same : defaultPlot formula = ({} : Sampler).pulsesPlot (parseClosedForm formula).pulses :=
      plotted
    rw [same]
    exact ⟨isFinite_width_of_near, isDrawable_pulsesPlot, isFinite_width_of_isDrawable⟩

theorem plotClosedForm_isDrawable_two_pulses :
    (defaultPlot "2*tri((f-3)/4)-rect((f)/2)").IsDrawable := by
  obtain ⟨near, drawable, finite⟩ := plotClosedForm_isDrawable "2*tri((f-3)/4)-rect((f)/2)"
  have width := near (by decide +kernel)
  exact drawable (finite (by decide +kernel) (drawable width))

/-- The text `rect((f)/150…0)`, a rectangle of the width `1.5 * 10 ^ 308`. -/
def wideRectangle : List Char :=
  ['r', 'e', 'c', 't', '(', '(', 'f', ')', '/', '1', '5'] ++ (List.replicate 307 '0' ++ [')'])

/-- The window of such a rectangle has finite bounds, but its width overflows. -/
theorem overflow_wideRectangle :
    let form := parseClosedForm (String.ofList wideRectangle)
    let domain := ({} : Settings).closedFormDomain form.pulses
    (domain.upper - domain.lower).isFinite = false ∧
      ∀ pulse ∈ form.pulses, pulse.amplitude.isFinite = true := by
  rw [parseClosedForm, String.toList_ofList]
  decide +kernel

theorem not_plotClosedForm_isDrawable :
    ¬ ∀ formula : String, (defaultPlot formula).IsDrawable := by
  intro claim
  have text : Text.isBlankText (String.ofList wideRectangle) = false := by
    rw [Text.isBlankText, String.toList_ofList]
    decide +kernel
  have drawable := claim (String.ofList wideRectangle)
  have usable := Settings.check_eq_ok.mpr Settings.isUsable_default
  rw [defaultPlot, value_plotClosedForm_of_text usable text] at drawable
  obtain ⟨overflow, finite⟩ := overflow_wideRectangle
  have width := isFinite_width_of_isDrawable finite drawable
  rw [overflow] at width
  cases width

end Sampler

end Waveform
