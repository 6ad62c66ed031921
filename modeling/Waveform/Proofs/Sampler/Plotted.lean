import Waveform.Proofs.Sampler.Grid
import Waveform.Sampler.Basic

/-!
# Plots of samplers that can be used

Settings pass the check exactly when each of them is in its range (`Settings.check_eq_ok`). A
sampler with such settings has a plot for each formula: the one without samples, or that of a
signal on the grid of the search range. Its samples go up, and how strictly is told by the places
of that grid (`Sampler.plot_points_ordered`).
-/

set_option autoImplicit false

namespace Waveform

open Binary64

/-! ## Settings in their ranges -/

/-- A range with finite bounds, the lower below the upper one. -/
def Interval.IsRange (range : Interval) : Prop :=
  range.lower.isFinite = true ∧ range.upper.isFinite = true ∧ range.lower < range.upper

/-- A window with finite bounds, the lower not above the upper one. -/
def Interval.IsWindow (window : Interval) : Prop :=
  window.lower.isFinite = true ∧ window.upper.isFinite = true ∧ window.lower ≤ window.upper

namespace Settings

/-- A number of steps that a grid may have. -/
def IsCount (steps : UInt64) : Prop :=
  0 < steps.toNat ∧ steps.toNat ≤ maxSteps

/-- A finite number from zero up. -/
def IsAmount (amount : Float) : Prop :=
  amount.isFinite = true ∧ 0 ≤ amount

/-- Settings that are all in their ranges. -/
structure IsUsable (settings : Settings) : Prop where
  search : settings.search.IsRange
  defaultDomain : settings.defaultDomain.IsWindow
  closedFormDefaultDomain : settings.closedFormDefaultDomain.IsWindow
  searchSteps : IsCount settings.searchSteps
  closedFormSteps : IsCount settings.closedFormSteps
  threshold : IsAmount settings.threshold
  narrowSpan : IsAmount settings.narrowSpan
  narrowPadding : IsAmount settings.narrowPadding
  paddingRatio : IsAmount settings.paddingRatio
  closedFormMinPadding : IsAmount settings.closedFormMinPadding
  closedFormPaddingRatio : IsAmount settings.closedFormPaddingRatio

theorem checkSearch_eq_ok {range : Interval} : checkSearch range = .ok () ↔ range.IsRange := by
  unfold checkSearch Interval.IsRange
  split
  · next valid => simpa [and_assoc] using valid
  · next invalid => simpa [and_assoc] using invalid

theorem checkWindow_eq_ok {window : Interval} : checkWindow window = .ok () ↔ window.IsWindow := by
  unfold checkWindow Interval.IsWindow
  split
  · next valid => simpa [and_assoc] using valid
  · next invalid => simpa [and_assoc] using invalid

theorem checkSteps_eq_ok {setting : Setting} {steps : UInt64} :
    checkSteps setting steps = .ok () ↔ IsCount steps := by
  unfold checkSteps IsCount
  split
  · next zero => simp [zero]
  · next some =>
    split
    · next many => simp [many]
    · next few => simp; omega

theorem checkAmount_eq_ok {setting : Setting} {amount : Float} :
    checkAmount setting amount = .ok () ↔ IsAmount amount := by
  unfold checkAmount IsAmount
  split
  · next valid => simpa using valid
  · next invalid => simpa using invalid

/-- Checks in a row pass when each of them does. -/
theorem bind_eq_ok {first : Except SettingsError Unit} {second : Unit → Except SettingsError Unit} :
    (first >>= second) = .ok () ↔ first = .ok () ∧ second () = .ok () := by
  cases first with
  | error error => simp [Bind.bind, Except.bind]
  | ok value => simp [Bind.bind, Except.bind]

/-- **Settings pass the check exactly when they are in their ranges.** -/
theorem check_eq_ok {settings : Settings} : settings.check = .ok () ↔ settings.IsUsable := by
  simp only [check, bind_eq_ok, checkSearch_eq_ok, checkWindow_eq_ok, checkSteps_eq_ok,
    checkAmount_eq_ok]
  constructor
  · rintro
      ⟨search, window, window', steps, steps', threshold, span, padding, ratio, padding', ratio'⟩
    exact
      ⟨search, window, window', steps, steps', threshold, span, padding, ratio, padding', ratio'⟩
  · rintro
      ⟨search, window, window', steps, steps', threshold, span, padding, ratio, padding', ratio'⟩
    exact
      ⟨search, window, window', steps, steps', threshold, span, padding, ratio, padding', ratio'⟩

instance (settings : Settings) : Decidable (settings.check = .ok ()) :=
  match settings.check with
  | .ok () => .isTrue rfl
  | .error _ => .isFalse nofun

namespace IsUsable

variable {settings : Settings} (usable : settings.IsUsable)

include usable

theorem search_lt : value settings.search.lower < value settings.search.upper := by
  obtain ⟨lower, upper, less⟩ := usable.search
  exact (lt_iff_value lower upper).mp less

theorem searchSteps_lt : settings.searchSteps.toNat < 2 ^ 53 :=
  usable.searchSteps.2.trans_lt (by decide)

/-- A search range with a finite width is a range for a grid. -/
theorem isSpanned (width : (settings.search.upper - settings.search.lower).isFinite = true) :
    settings.search.IsSpanned :=
  ⟨usable.search_lt, width⟩

end IsUsable

end Settings

/-! ## Plots -/

namespace Sampler

variable {sampler : Sampler}

/-- The samples of a signal over the search range. -/
def searched (sampler : Sampler) (signal : Float → Float) : Samples :=
  sampleGrid signal sampler.settings.search sampler.settings.searchSteps.toNat

/-- The plot of a signal by settings that can be used. -/
def signalPlot (sampler : Sampler) (signal : Float → Float) : Plot where
  points := (sampler.searched signal).points
  domain := sampler.settings.detectDomain (sampler.searched signal).points
  area := sampler.area (sampler.searched signal)

theorem value_sample (usable : sampler.settings.check = .ok ()) (signal : Float → Float) :
    (sampler.sample signal).value = sampler.signalPlot signal := by
  unfold sample
  dsimp only
  rw [usable]
  rfl

/-- **A formula is plotted as its signal**, unless it is blank or cannot be read. -/
theorem value_plot (usable : sampler.settings.check = .ok ()) (formula : String) :
    (sampler.plot formula).value = .empty sampler.settings.defaultDomain ∨
      ∃ signal, (sampler.plot formula).value = sampler.signalPlot signal := by
  unfold plot
  split
  · exact .inl rfl
  · cases fatal : (parse formula sampler.limits).fatal? with
    | some finding =>
      refine .inl ?_
      simp only [fatal]
      rfl
    | none =>
      refine .inr ⟨(parse formula sampler.limits).expr.eval, ?_⟩
      rw [← value_sample usable]
      simp only [fatal]
      rfl

end Sampler

/-! ## Samples in order -/

/-- **The samples of a plot go up** over a search range with a finite width: never down, and
strictly exactly if no place with a sample comes again as the next one. None does on a coarse grid.
On a grid that is much finer than the lower bound that bound comes again. -/
theorem Sampler.plot_points_ordered (sampler : Sampler) (formula : String)
    (usable : sampler.settings.check = .ok ())
    (width : (sampler.settings.search.upper - sampler.settings.search.lower).isFinite = true) :
    let search := sampler.settings.search
    let steps := sampler.settings.searchSteps.toNat
    let points := (sampler.plot formula).value.points
    points.Pairwise (fun left right => left.x ≤ right.x) ∧
      (points.Pairwise (fun left right => left.x < right.x) ↔ ∀ index < steps,
        (∃ point ∈ points, point.x = gridPlace search (gridStep search steps) index) →
          gridPlace search (gridStep search steps) (index + 1) ≠
            gridPlace search (gridStep search steps) index) ∧
      (IsCoarse search steps → points.Pairwise fun left right => left.x < right.x) ∧
      (2 ^ 54 * value (gridStep search steps) < |value search.lower| →
        (∃ point ∈ points, point.x = search.lower) →
          ¬ points.Pairwise fun left right => left.x < right.x) := by
  intro search steps points
  have settings := Settings.check_eq_ok.mp usable
  have spanned := settings.isSpanned width
  have some := settings.searchSteps.1
  have few := settings.searchSteps_lt
  rcases sampler.value_plot usable formula with plotted | ⟨signal, plotted⟩
  · have none : points = [] := congrArg Plot.points plotted
    rw [none]
    refine ⟨.nil, iff_of_true .nil ?_, fun _ => .nil, ?_⟩
    · rintro _ _ ⟨_, member, _⟩
      exact (List.not_mem_nil member).elim
    · rintro _ ⟨_, member, _⟩
      exact (List.not_mem_nil member).elim
  · have sampled : points = (sampleGrid signal search steps).points := congrArg Plot.points plotted
    have strict : (points.Pairwise fun left right => left.x < right.x) ↔ ∀ index < steps,
        (∃ point ∈ points, point.x = gridPlace search (gridStep search steps) index) →
          gridPlace search (gridStep search steps) (index + 1) ≠
            gridPlace search (gridStep search steps) index := by
      rw [sampled, pairwise_lt_sampleGrid_iff spanned some few]
      refine forall₂_congr fun index less => ?_
      rw [exists_mem_sampleGrid_iff some less.le]
    refine ⟨?_, strict, ?_, ?_⟩
    · rw [sampled]
      exact pairwise_sampleGrid fun first second less le => gridPlace_le spanned some few less.le le
    · intro coarse
      rw [sampled]
      exact pairwise_sampleGrid fun first second =>
        gridPlace_lt spanned some settings.searchSteps.2 coarse
    · rintro fine ⟨point, member, bound⟩
      rw [strict]
      intro others
      have first := gridPlace_eq_lower spanned some few fine (Nat.zero_le 1)
      have second := gridPlace_eq_lower spanned some few fine (le_refl 1)
      exact others 0 some ⟨point, member, bound.trans first.symm⟩ (second.trans first.symm)

theorem Sampler.plot_points_ordered_rect :
    (({} : Sampler).plot "rect(f)").value.points.Pairwise fun left right => left.x < right.x := by
  have hundred : value 100 = 100 := value_ofNat (by norm_num : 100 < 2 ^ 53)
  have spanned : Interval.IsSpanned ⟨-100, 100⟩ :=
    ⟨by rw [value_neg, hundred]; norm_num, by decide +kernel⟩
  refine (Sampler.plot_points_ordered {} "rect(f)" (by decide +kernel) (by decide +kernel)).2.2.1 ?_
  exact isCoarse_of_zero_mem spanned (by decide) (by decide) (by rw [value_neg, hundred]; norm_num)
    (by rw [hundred]; norm_num) (by rw [value_neg, hundred]; norm_num)

/-- Between `2 ^ 53` and `2 ^ 53 + 2` there is no room for two steps. -/
def narrowSampler : Sampler :=
  (({} : Sampler).withSearch ⟨9007199254740992, 9007199254740994⟩).withSearchSteps 2

/-- Next to the lower bound a step of one is rounded away, so that bound is sampled twice. -/
theorem not_plot_points_increasing :
    ¬ ∀ (sampler : Sampler) (formula : String), sampler.settings.check = .ok () →
      (sampler.settings.search.upper - sampler.settings.search.lower).isFinite = true →
        (sampler.plot formula).value.points.Pairwise fun left right => left.x < right.x := by
  intro claim
  exact absurd (claim narrowSampler "1" (by decide +kernel) (by decide +kernel)) (by decide +kernel)

end Waveform
