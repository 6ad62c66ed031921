import Waveform.Proofs.Sampler.Drawable

/-!
# Samplers that can be built

A sampler starts from the default settings, or from settings that pass the check, and is changed by
setters that store any value without a check. Its settings need not be usable, but its two default
windows always are (`IsReachable.hasWindows`): no setter reaches them, and these are the windows
that a plot without samples is shown on. So there is a sound plot for every formula
(`plot_falls_back`): without samples where there is nothing to sample or the settings cannot be
used, and otherwise with finite samples, at most one more than the grid has steps.
-/

set_option autoImplicit false

namespace Waveform

/-- A plot of finite samples on a grid with the given number of steps, which is one that a grid may
have. -/
structure Plot.IsSampled (plot : Plot) (steps : ℕ) : Prop where
  finite : ∀ point ∈ plot.points, point.y.isFinite = true
  few : plot.points.length ≤ steps + 1
  bounded : steps ≤ maxSteps

namespace Sampler

/-! ## Setters -/

/-- A setter with the values to store. -/
inductive Setter where
  | search (search : Interval)
  | searchSteps (searchSteps : UInt64)
  | closedFormSteps (closedFormSteps : UInt64)
  | threshold (threshold : Float)
  | maxDepth (maxDepth : UInt64)
  | maxNodes (maxNodes : UInt64)

/-- The sampler with a value stored. -/
def set (sampler : Sampler) : Setter → Sampler
  | .search search => sampler.withSearch search
  | .searchSteps searchSteps => sampler.withSearchSteps searchSteps
  | .closedFormSteps closedFormSteps => sampler.withClosedFormSteps closedFormSteps
  | .threshold threshold => sampler.withThreshold threshold
  | .maxDepth maxDepth => sampler.withMaxDepth maxDepth
  | .maxNodes maxNodes => sampler.withMaxNodes maxNodes

/-- The samplers that can be built: the default one, those with settings that pass the check, and
all that setters make of these. -/
inductive IsReachable : Sampler → Prop
  | default : IsReachable {}
  | ofSettings {settings : Settings} {sampler : Sampler}
      (accepted : ofSettings settings = .ok sampler) : IsReachable sampler
  | set {sampler : Sampler} (setter : Setter) (reached : IsReachable sampler) :
      IsReachable (sampler.set setter)

/-- Both default windows have finite bounds in the right order. -/
structure HasWindows (sampler : Sampler) : Prop where
  defaultDomain : sampler.settings.defaultDomain.IsWindow
  closedFormDefaultDomain : sampler.settings.closedFormDefaultDomain.IsWindow

theorem hasWindows_of_isUsable {sampler : Sampler} (usable : sampler.settings.IsUsable) :
    sampler.HasWindows :=
  ⟨usable.defaultDomain, usable.closedFormDefaultDomain⟩

/-- Only settings that pass the check make a sampler. -/
theorem isUsable_of_ofSettings {settings : Settings} {sampler : Sampler}
    (accepted : ofSettings settings = .ok sampler) : sampler.settings.IsUsable := by
  unfold ofSettings at accepted
  cases checked : settings.check with
  | error error =>
    rw [checked] at accepted
    cases accepted
  | ok checked' =>
    rw [checked] at accepted
    cases accepted
    exact Settings.check_eq_ok.mp checked

/-- No setter stores a default window. -/
theorem HasWindows.set {sampler : Sampler} (windows : sampler.HasWindows) (setter : Setter) :
    (sampler.set setter).HasWindows := by
  cases setter with
  | search | searchSteps | closedFormSteps | threshold | maxDepth | maxNodes =>
    exact ⟨windows.defaultDomain, windows.closedFormDefaultDomain⟩

/-- **A sampler that can be built has sound default windows**, whatever was stored in it. -/
theorem IsReachable.hasWindows {sampler : Sampler} (reached : sampler.IsReachable) :
    sampler.HasWindows := by
  induction reached with
  | default => exact hasWindows_of_isUsable Settings.isUsable_default
  | ofSettings accepted => exact hasWindows_of_isUsable (isUsable_of_ofSettings accepted)
  | set setter _ ih => exact ih.set setter

/-! ## Plots without samples -/

/-- Whether a sampler has nothing to sample for a formula: it is blank, its reading is abandoned, or
the settings cannot be used. -/
def Rejects (sampler : Sampler) (formula : String) : Prop :=
  Text.isBlankText formula = true ∨ (parse formula sampler.limits).isFatal = true ∨
    sampler.settings.check ≠ .ok ()

/-- Whether a sampler has nothing to sample for a formula in closed form, whose reading is never
abandoned. -/
def RejectsClosedForm (sampler : Sampler) (formula : String) : Prop :=
  Text.isBlankText formula = true ∨ sampler.settings.check ≠ .ok ()

section Fallback

variable {sampler : Sampler}

theorem value_sample_of_unusable (unusable : sampler.settings.check ≠ .ok ())
    (signal : Float → Float) :
    (sampler.sample signal).value = .empty sampler.settings.defaultDomain := by
  unfold sample
  dsimp only
  split
  · rfl
  · next usable => exact absurd usable unusable

theorem value_samplePulses_of_unusable (unusable : sampler.settings.check ≠ .ok ())
    (pulses : List Pulse) :
    (sampler.samplePulses pulses).value = .empty sampler.settings.closedFormDefaultDomain := by
  unfold samplePulses
  dsimp only
  split
  · rfl
  · next usable => exact absurd usable unusable

theorem fatal?_eq_none_iff {parsed : Parsed} : parsed.fatal? = none ↔ parsed.isFatal = false := by
  rw [Parsed.fatal?, Parsed.isFatal, List.find?_eq_none, List.any_eq_false]

theorem value_plot_of_fatal {formula : String}
    (fatal : (parse formula sampler.limits).isFatal = true) :
    (sampler.plot formula).value = .empty sampler.settings.defaultDomain := by
  unfold plot
  split
  · rfl
  · cases found : (parse formula sampler.limits).fatal? with
    | some finding =>
      simp only [found]
      rfl
    | none =>
      rw [fatal?_eq_none_iff, fatal] at found
      cases found

/-- A formula that can be read is plotted as its signal. -/
theorem value_plot_of_text {formula : String} (text : Text.isBlankText formula = false)
    (readable : (parse formula sampler.limits).isFatal = false) :
    (sampler.plot formula).value =
      (sampler.sample (parse formula sampler.limits).expr.eval).value := by
  have none := fatal?_eq_none_iff.mpr readable
  unfold plot
  rw [text]
  simp only [none]
  rfl

theorem value_plot_of_rejects {formula : String} (rejected : sampler.Rejects formula) :
    (sampler.plot formula).value = .empty sampler.settings.defaultDomain := by
  rcases rejected with blank | fatal | unusable
  · rw [plot, blank]
    rfl
  · exact value_plot_of_fatal fatal
  · cases blank : Text.isBlankText formula with
    | true =>
      rw [plot, blank]
      rfl
    | false =>
      cases fatal : (parse formula sampler.limits).isFatal with
      | true => exact value_plot_of_fatal fatal
      | false =>
        rw [value_plot_of_text blank fatal]
        exact value_sample_of_unusable unusable _

theorem value_plotClosedForm_of_rejects {formula : String}
    (rejected : sampler.RejectsClosedForm formula) :
    (sampler.plotClosedForm formula).value = .empty sampler.settings.closedFormDefaultDomain := by
  cases blank : Text.isBlankText formula with
  | true =>
    rw [plotClosedForm, blank]
    rfl
  | false =>
    have unusable : sampler.settings.check ≠ .ok () := by
      rcases rejected with blank' | unusable
      · rw [blank] at blank'
        cases blank'
      · exact unusable
    rw [plotClosedForm, blank]
    exact value_samplePulses_of_unusable unusable _

end Fallback

/-! ## Plots with samples -/

theorem isFinite_of_mem_sampleGrid {signal : Float → Float} {range : Interval} {steps : ℕ}
    (some : 0 < steps) {point : Point} (member : point ∈ (sampleGrid signal range steps).points) :
    point.y.isFinite = true :=
  ((mem_sampleGrid some).mp member).2.2

theorem length_sampleGrid_le {signal : Float → Float} {range : Interval} {steps : ℕ}
    (some : 0 < steps) : (sampleGrid signal range steps).points.length ≤ steps + 1 := by
  rw [points_sampleGrid some]
  exact (List.length_filterMap_le _ _).trans_eq List.length_range

theorem isSampled_of_points {signal : Float → Float} {range : Interval} {steps : UInt64}
    {plot : Plot} (count : Settings.IsCount steps)
    (sampled : plot.points = (sampleGrid signal range steps.toNat).points) :
    plot.IsSampled steps.toNat := by
  refine ⟨?_, ?_, count.2⟩
  · rw [sampled]
    exact fun point => isFinite_of_mem_sampleGrid count.1
  · rw [sampled]
    exact length_sampleGrid_le count.1

/-- **Every plot of a sampler that can be built is sound.** Its default windows have finite bounds
in the right order. Where there is nothing to sample or the settings cannot be used, a plot has no
samples, no area and that default window, and otherwise its samples are finite and at most one more
than the steps of the grid. -/
theorem plot_falls_back {sampler : Sampler} (reached : sampler.IsReachable) (formula : String) :
    sampler.settings.defaultDomain.IsWindow ∧
      sampler.settings.closedFormDefaultDomain.IsWindow ∧
      (sampler.Rejects formula →
        (sampler.plot formula).value = .empty sampler.settings.defaultDomain) ∧
      (¬ sampler.Rejects formula →
        (sampler.plot formula).value.IsSampled sampler.settings.searchSteps.toNat) ∧
      (sampler.RejectsClosedForm formula →
        (sampler.plotClosedForm formula).value = .empty sampler.settings.closedFormDefaultDomain) ∧
      (¬ sampler.RejectsClosedForm formula →
        (sampler.plotClosedForm formula).value.IsSampled
          sampler.settings.closedFormSteps.toNat) := by
  have windows := reached.hasWindows
  refine ⟨windows.defaultDomain, windows.closedFormDefaultDomain, value_plot_of_rejects, ?_,
    value_plotClosedForm_of_rejects, ?_⟩
  · intro accepted
    simp only [Rejects, not_or, not_not, Bool.not_eq_true] at accepted
    obtain ⟨text, readable, usable⟩ := accepted
    have counts := (Settings.check_eq_ok.mp usable).searchSteps
    rw [value_plot_of_text text readable, value_sample usable]
    exact isSampled_of_points counts rfl
  · intro accepted
    simp only [RejectsClosedForm, not_or, not_not, Bool.not_eq_true] at accepted
    obtain ⟨text, usable⟩ := accepted
    have counts := (Settings.check_eq_ok.mp usable).closedFormSteps
    rw [value_plotClosedForm_of_text usable text]
    exact isSampled_of_points counts rfl

/-- The default sampler with a search range in the wrong order. -/
def turnedSampler : Sampler :=
  (({} : Sampler).set (.search ⟨1, -1⟩)).set (.searchSteps 4)

theorem plot_falls_back_turned :
    turnedSampler.IsReachable ∧
      (turnedSampler.plot "1/f").value = .empty ⟨-10, 10⟩ ∧
      (turnedSampler.plotClosedForm "rect((f)/2)").value = .empty ⟨-30, 30⟩ ∧
      ((turnedSampler.set (.search ⟨-1, 1⟩)).plot "1/f").value.IsSampled 4 := by
  have reached : turnedSampler.IsReachable := (IsReachable.default.set _).set _
  have unusable : turnedSampler.settings.check ≠ .ok () := by decide +kernel
  have accepted : ¬ (turnedSampler.set (.search ⟨-1, 1⟩)).Rejects "1/f" := by
    simp only [Rejects, not_or, not_not]
    decide +kernel
  exact ⟨reached, (plot_falls_back reached "1/f").2.2.1 (.inr (.inr unusable)),
    (plot_falls_back reached "rect((f)/2)").2.2.2.2.1 (.inr unusable),
    (plot_falls_back (reached.set (.search ⟨-1, 1⟩)) "1/f").2.2.2.1 accepted⟩

end Sampler

end Waveform
