import Waveform.Proofs.Pulse.Operands
import Waveform.Proofs.Sampler.Reachable

/-!
# What the log of a plot tells

The log of a plot tells of every failure once, and of nothing else as a failure. There is an event
of the level `error` exactly when a formula that is not blank cannot be plotted: its reading is
abandoned, or the settings cannot be used. A formula that is read leaves its findings in the log,
and what was sampled, if anything was (`IsPlotLog`).

A sum of pulses is never abandoned. Each summand that is left out is a warning, in the order of the
summands, and the event behind the warnings says how many pulses and how many findings there are
(`IsClosedFormLog`). Both hold of every sampler, whatever was stored in its settings
(`Sampler.plots_are_logged`).
-/

set_option autoImplicit false

namespace Waveform

open Pulse ClosedForm

/-! ## Events in a row -/

namespace Logged

variable {α β : Type}

@[simp]
theorem events_pure (value : α) : (pure value : Logged α).events = [] := rfl

@[simp]
theorem events_bind (first : Logged α) (next : α → Logged β) :
    (first >>= next).events = first.events ++ (next first.value).events := rfl

@[simp]
theorem events_emit (event : Event) : (emit event).events = [event] := rfl

@[simp]
theorem events_emitAll (events : List Event) : (emitAll events).events = events := rfl

end Logged

/-- How many events of a log have the given level. -/
def Event.count (level : Level) (events : List Event) : ℕ :=
  events.countP (·.level == level)

namespace Event

variable {level : Level}

@[simp]
theorem count_nil : count level [] = 0 := rfl

@[simp]
theorem count_cons (event : Event) (events : List Event) :
    count level (event :: events) = count level events + if event.level = level then 1 else 0 := by
  simp [count, List.countP_cons]

@[simp]
theorem count_append (first second : List Event) :
    count level (first ++ second) = count level first + count level second :=
  List.countP_append

@[simp]
theorem level_closedForm (normalized : String) (pulses rejected : ℕ) :
    (closedForm normalized pulses rejected).level = .debug := rfl

/-- Events that all have the same level are counted under that level alone. -/
theorem count_map {α : Type} {event : α → Event} (own : Level) (same : ∀ a, (event a).level = own)
    (items : List α) : count level (items.map event) = if own = level then items.length else 0 := by
  induction items with
  | nil => simp
  | cons a items ih =>
    rw [List.map_cons, count_cons, ih, same]
    split <;> simp

end Event

/-! ## Sampling -/

/-- What the log says of settings: nothing if they can be used, and otherwise why they cannot. -/
def Settings.complaints (settings : Settings) : List Event :=
  match settings.check with
  | .error error => [.unusable error]
  | .ok () => []

/-- What the log says of a plot of samples: how many there are, the window and the area. -/
def Plot.summary (plot : Plot) : Event :=
  .sampled plot.points.length plot.domain plot.area

@[simp]
theorem Plot.level_summary (plot : Plot) : plot.summary.level = .debug := rfl

@[simp]
theorem Parsed.level_event (parsed : Parsed) : parsed.event.level = .debug := rfl

namespace Settings

variable {settings : Settings}

theorem exists_error_of_unusable (unusable : settings.check ≠ .ok ()) :
    ∃ error, settings.check = .error error := by
  cases checked : settings.check with
  | error error => exact ⟨error, rfl⟩
  | ok usable => exact absurd checked unusable

theorem complaints_of_usable (usable : settings.check = .ok ()) : settings.complaints = [] := by
  rw [complaints, usable]

theorem complaints_of_error {error : SettingsError} (failed : settings.check = .error error) :
    settings.complaints = [.unusable error] := by
  rw [complaints, failed]

/-- There is one complaint about settings that cannot be used, and it is an error. -/
theorem count_complaints (settings : Settings) (level : Level) :
    Event.count level settings.complaints =
      if settings.check ≠ .ok () ∧ level = .error then 1 else 0 := by
  by_cases usable : settings.check = .ok ()
  · rw [complaints_of_usable usable, if_neg fun both => both.1 usable, Event.count_nil]
  · obtain ⟨error, failed⟩ := exists_error_of_unusable usable
    rw [complaints_of_error failed, Event.count_cons, Event.count_nil, Nat.zero_add]
    exact if_congr (by rw [and_iff_right usable, eq_comm]; rfl) rfl rfl

end Settings

namespace Sampler

variable {sampler : Sampler}

/-- **Sampling is logged by one event**: the summary of the plot, or a complaint. -/
theorem events_sample (sampler : Sampler) (signal : Float → Float) :
    (sampler.sample signal).events =
      if sampler.settings.check = .ok () then [(sampler.sample signal).value.summary]
      else sampler.settings.complaints := by
  by_cases usable : sampler.settings.check = .ok ()
  · rw [if_pos usable, value_sample usable, sample]
    simp only [usable]
    rfl
  · obtain ⟨error, failed⟩ := Settings.exists_error_of_unusable usable
    rw [if_neg usable, Settings.complaints_of_error failed, sample]
    simp only [failed]
    rfl

/-- Sampling pulses is logged only if it fails. -/
theorem events_samplePulses (sampler : Sampler) (pulses : List Pulse) :
    (sampler.samplePulses pulses).events = sampler.settings.complaints := by
  by_cases usable : sampler.settings.check = .ok ()
  · rw [Settings.complaints_of_usable usable, samplePulses]
    simp only [usable]
    rfl
  · obtain ⟨error, failed⟩ := Settings.exists_error_of_unusable usable
    rw [Settings.complaints_of_error failed, samplePulses]
    simp only [failed]
    rfl

/-! ## Plots of formulas -/

instance (sampler : Sampler) (formula : String) : Decidable (sampler.Rejects formula) :=
  inferInstanceAs (Decidable (_ ∨ _ ∨ _))

/-- What the log of a plot tells about a formula. -/
structure IsPlotLog (sampler : Sampler) (formula : String) (logged : Logged Plot) : Prop where
  /-- A blank formula leaves no trace. -/
  blank : Text.isBlankText formula = true → logged.events = []
  /-- A reading that is abandoned is logged, and then the finding that ended it. -/
  abandoned : Text.isBlankText formula = false →
    ∀ finding, (parse formula sampler.limits).fatal? = some finding →
      logged.events = [(parse formula sampler.limits).event, .unreadable formula finding]
  /-- Any other reading is logged, then its findings in order, and then what was sampled or why
  nothing was. -/
  read : Text.isBlankText formula = false → (parse formula sampler.limits).isFatal = false →
    logged.events = (parse formula sampler.limits).event ::
      (parse formula sampler.limits).diagnostics.map .noted ++
        if sampler.settings.check = .ok () then [logged.value.summary]
        else sampler.settings.complaints
  /-- There is one error if there is nothing to plot although the formula is not blank. -/
  errors : Event.count .error logged.events =
    if Text.isBlankText formula = false ∧ sampler.Rejects formula then 1 else 0
  /-- There are no warnings. -/
  warnings : Event.count .warn logged.events = 0

theorem events_plot_of_blank {formula : String} (blank : Text.isBlankText formula = true) :
    (sampler.plot formula).events = [] := by
  rw [plot, blank]
  rfl

theorem events_plot_of_fatal {formula : String} (text : Text.isBlankText formula = false)
    {finding : Diagnostic} (fatal : (parse formula sampler.limits).fatal? = some finding) :
    (sampler.plot formula).events =
      [(parse formula sampler.limits).event, .unreadable formula finding] := by
  unfold plot
  rw [text]
  simp [fatal]

theorem events_plot_of_text {formula : String} (text : Text.isBlankText formula = false)
    (readable : (parse formula sampler.limits).isFatal = false) :
    (sampler.plot formula).events = (parse formula sampler.limits).event ::
      (parse formula sampler.limits).diagnostics.map .noted ++
        (sampler.sample (parse formula sampler.limits).expr.eval).events := by
  have none := fatal?_eq_none_iff.mpr readable
  unfold plot
  rw [text]
  simp [none]

/-- The log of sampling is counted as the complaints are. -/
theorem count_events_sample (sampler : Sampler) (signal : Float → Float) {level : Level}
    (loud : level ≠ .debug) :
    Event.count level (sampler.sample signal).events =
      Event.count level sampler.settings.complaints := by
  rw [events_sample]
  split
  · next usable =>
    rw [Settings.complaints_of_usable usable]
    simp [loud.symm]
  · rfl

/-- There is no warning, and one error where a formula that is not blank is rejected. -/
theorem count_events_plot (sampler : Sampler) (formula : String) {level : Level}
    (loud : level ≠ .debug) :
    Event.count level (sampler.plot formula).events =
      if (Text.isBlankText formula = false ∧ sampler.Rejects formula) ∧ level = .error then 1
      else 0 := by
  cases blank : Text.isBlankText formula with
  | true =>
    rw [events_plot_of_blank blank]
    simp
  | false =>
    cases readable : (parse formula sampler.limits).isFatal with
    | true =>
      have rejects : sampler.Rejects formula := .inr (.inl readable)
      have abandoned : (parse formula sampler.limits).fatal? ≠ none := by
        rw [ne_eq, fatal?_eq_none_iff, readable]
        decide
      obtain ⟨finding, fatal⟩ := Option.ne_none_iff_exists'.mp abandoned
      rw [events_plot_of_fatal blank fatal, Event.count_cons, Event.count_cons, Event.count_nil,
        Parsed.level_event, if_neg loud.symm, Nat.add_zero, Nat.zero_add]
      exact if_congr (by rw [and_iff_right ⟨rfl, rejects⟩, eq_comm]; rfl) rfl rfl
    | false =>
      have rejects : sampler.Rejects formula ↔ sampler.settings.check ≠ .ok () := by
        rw [Rejects, blank, readable]
        simp
      have noted : Event.count level
          ((parse formula sampler.limits).diagnostics.map Event.noted) = 0 := by
        rw [Event.count_map .debug fun _ => rfl, if_neg loud.symm]
      rw [events_plot_of_text blank readable, Event.count_append, Event.count_cons, noted,
        count_events_sample sampler _ loud, Settings.count_complaints, Parsed.level_event,
        if_neg loud.symm]
      simp [rejects]

theorem isPlotLog_plot (sampler : Sampler) (formula : String) :
    sampler.IsPlotLog formula (sampler.plot formula) where
  blank := events_plot_of_blank
  abandoned text _ fatal := events_plot_of_fatal text fatal
  read text readable := by
    rw [events_plot_of_text text readable, events_sample, value_plot_of_text text readable]
  errors := by
    rw [count_events_plot sampler formula (by decide)]
    simp
  warnings := by
    rw [count_events_plot sampler formula (by decide)]
    simp

end Sampler

/-! ## Sums of pulses -/

namespace ClosedForm

/-- The summands of a formula that are left out. -/
def dropped (formula : String) : List (List Char) :=
  (summands (Text.normalChars (expandBare formula.toList))).filter fun term =>
    (pulse? term).isNone

/-- The finding about a summand that is left out. -/
def rejection (term : List Char) : Diagnostic :=
  if (spelled? term).isSome then .degeneratePulse (String.ofList term)
  else .unrecognizedTerm (String.ofList term)

/-- A summand is read as a pulse, or there is its finding. -/
theorem ofSummand_eq (term : List Char) :
    ofSummand term = (pulse? term).elim (.error (rejection term)) .ok := by
  rw [pulse?_eq, ofSummand, rejection]
  cases spelled? term with
  | none => rfl
  | some pulse =>
    cases support : pulse.hasSupport <;> simp [Option.filter, support]

/-- **Each summand that is left out leaves one finding**, in the order of the summands. -/
theorem diagnostics_parseClosedForm (formula : String) :
    (parseClosedForm formula).diagnostics = (dropped formula).map rejection := by
  simp only [parseClosedForm, ofNormal, dropped, List.filterMap_map]
  rw [← List.filterMap_eq_map, List.filterMap_filter]
  congr 1
  funext term
  rw [Function.comp, ofSummand_eq]
  cases pulse? term <;> rfl

end ClosedForm

namespace Sampler

variable {sampler : Sampler}

instance (sampler : Sampler) (formula : String) : Decidable (sampler.RejectsClosedForm formula) :=
  inferInstanceAs (Decidable (_ ∨ _))

/-- What the log of a plot tells about a formula that is read as a sum of pulses. -/
structure IsClosedFormLog (sampler : Sampler) (formula : String) (logged : Logged Plot) : Prop where
  /-- A blank formula leaves no trace. -/
  blank : Text.isBlankText formula = true → logged.events = []
  /-- The summands that are left out are logged in order, then how many pulses and findings there
  are, and then why nothing was sampled if the settings cannot be used. -/
  read : Text.isBlankText formula = false → logged.events =
    (dropped formula).map (fun term => .dropped (rejection term)) ++
      .closedForm (parseClosedForm formula).normalized (parseClosedForm formula).pulses.length
        (parseClosedForm formula).diagnostics.length :: sampler.settings.complaints
  /-- There is one warning for each summand that is left out. -/
  warnings : Event.count .warn logged.events =
    if Text.isBlankText formula = false then (dropped formula).length else 0
  /-- There is one error if nothing is sampled although the formula is not blank. -/
  errors : Event.count .error logged.events =
    if Text.isBlankText formula = false ∧ sampler.RejectsClosedForm formula then 1 else 0

theorem events_plotClosedForm_of_blank {formula : String}
    (blank : Text.isBlankText formula = true) : (sampler.plotClosedForm formula).events = [] := by
  rw [plotClosedForm, blank]
  rfl

theorem events_plotClosedForm_of_text {formula : String}
    (text : Text.isBlankText formula = false) : (sampler.plotClosedForm formula).events =
      (dropped formula).map (fun term => .dropped (rejection term)) ++
        .closedForm (parseClosedForm formula).normalized (parseClosedForm formula).pulses.length
          (parseClosedForm formula).diagnostics.length :: sampler.settings.complaints := by
  have events : (parseClosedForm formula).events =
      (dropped formula).map (fun term => .dropped (rejection term)) ++
        [.closedForm (parseClosedForm formula).normalized (parseClosedForm formula).pulses.length
          (parseClosedForm formula).diagnostics.length] := by
    rw [ClosedForm.events, diagnostics_parseClosedForm, List.map_map]
    rfl
  rw [plotClosedForm, text, ← events_samplePulses, List.append_cons, ← events]
  rfl

/-- The warnings are about the summands that are left out, and the error is about the settings. -/
theorem count_events_plotClosedForm (sampler : Sampler) {formula : String} {level : Level}
    (text : Text.isBlankText formula = false) (loud : level ≠ .debug) :
    Event.count level (sampler.plotClosedForm formula).events =
      (if level = .warn then (dropped formula).length else 0) +
        if sampler.settings.check ≠ .ok () ∧ level = .error then 1 else 0 := by
  have counts : Event.count level
      ((dropped formula).map fun term => Event.dropped (rejection term)) =
        if level = .warn then (dropped formula).length else 0 := by
    rw [Event.count_map .warn fun _ => rfl]
    exact if_congr eq_comm rfl rfl
  rw [events_plotClosedForm_of_text text, Event.count_append, Event.count_cons, counts,
    Settings.count_complaints, Event.level_closedForm, if_neg loud.symm, Nat.add_zero]

theorem isClosedFormLog_plotClosedForm (sampler : Sampler) (formula : String) :
    sampler.IsClosedFormLog formula (sampler.plotClosedForm formula) where
  blank := events_plotClosedForm_of_blank
  read := events_plotClosedForm_of_text
  warnings := by
    cases text : Text.isBlankText formula with
    | true =>
      rw [events_plotClosedForm_of_blank text]
      simp
    | false =>
      rw [count_events_plotClosedForm sampler text (by decide)]
      simp
  errors := by
    cases text : Text.isBlankText formula with
    | true =>
      rw [events_plotClosedForm_of_blank text]
      simp
    | false =>
      rw [count_events_plotClosedForm sampler text (by decide)]
      simp [RejectsClosedForm, text]

/-- **The log tells of every failure once, and of nothing else as a failure**, for every sampler and
every formula. -/
theorem plots_are_logged (sampler : Sampler) (formula : String) :
    sampler.IsPlotLog formula (sampler.plot formula) ∧
      sampler.IsClosedFormLog formula (sampler.plotClosedForm formula) :=
  ⟨sampler.isPlotLog_plot formula, sampler.isClosedFormLog_plotClosedForm formula⟩

/-- That an operand is missing is noted, and that the grid has no step is an error. -/
example : ((({} : Sampler).withSearchSteps 0).plot "1+").events.map Event.level =
    [.debug, .debug, .error] := by decide +kernel

/-- A summand that is left out is warned of, before the sum is told. -/
example :
    let events := (({} : Sampler).plotClosedForm "rect((f)/2)+3*sinc(f)-tri((t)/1)").events
    (events.take 2).map (fun event => (event.level, event.message)) =
      [(.warn, "Unrecognized term: '+3*sinc(f-0)'"), (.debug,
        "closed form 'rect((f-0)/2)+3*sinc(f-0)-tri((t-0)/1)': 2 pulses, 1 rejected terms")] := by
  decide +kernel

end Sampler

end Waveform
