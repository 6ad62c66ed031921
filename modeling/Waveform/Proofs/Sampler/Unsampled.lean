import Waveform.Proofs.Sampler.AreaSign
import Waveform.Proofs.Sampler.Window
import Waveform.Sampler.PlotCodec

/-!
# Plots without samples

A formula that is not sampled has the plot without samples, whose area is the positive zero. A
signal that is finite at no place of the grid has no samples either, and is shown on the same
window. But its area is a sum without summands: the negative zero, which rounding keeps
(`roundTo_negZero`).

The two plots are equal by the equality of numbers, which does not tell zeros apart. What is written
of them differs by one character, in the label and in JSON: the second area has a sign
(`Sampler.plot_without_samples`).
-/

set_option autoImplicit false

namespace Waveform

open Binary64 Float.Model Float.Model.UnpackedFloat

/-! ## Sums without summands -/

/-- Under fewer than two samples the area is the negative zero. -/
theorem trapezoidArea_of_few {points : List Point} (few : points.length < 2) (step : Float) :
    trapezoidArea points step = -0.0 := by
  match points, few with
  | [], _ => rfl
  | [_], _ => rfl

/-- **Where there is a scale, rounding keeps the negative zero.** -/
theorem roundTo_negZero {places : UInt32} (scale : HasScale places) :
    roundTo (-0.0) places = -0.0 := by
  obtain ⟨_, positive⟩ := powerOfTen_pos scale
  unfold roundTo
  generalize powerOfTen places.toInt32.toInt = scale at positive ⊢
  obtain ⟨mantissa, exponent, canonical, _, same⟩ := exists_parts_of_pos positive
  have product : -0.0 * scale = -0.0 := by
    have stored : -0.0 * scale =
      ofParts (UnpackedFloat.mul .binary64 (parts (-0.0)) (parts scale)) := rfl
    rw [stored, same]
    exact ofParts_eq (by rw [parts_negZero]; rfl)
  have whole : roundHalfAway (-0.0) = -0.0 := by
    refine roundHalfAway_eq fun sign mantissa exponent some => ?_
    rw [parts_negZero]
    nofun
  have quotient : -0.0 / scale =
    ofParts (UnpackedFloat.div .binary64 (parts (-0.0)) (parts scale)) := rfl
  dsimp only
  rw [product, whole, quotient, same]
  exact ofParts_eq (by rw [parts_negZero]; rfl)

/-! ## Plots in words and in JSON -/

/-- The value of the last member stands by itself in the text of an object. -/
theorem Json.exists_membersChars (indent : Option ℕ) (members : List (Option String × Json))
    (name : Option String) : ∃ front, ∀ value, membersChars indent (members ++ [(name, value)]) =
      front ++ value.chars (indent.map (· + 1)) ++ lineBreak indent ++ ['\x7d'] := by
  induction members with
  | nil =>
    refine ⟨',' :: lineBreak (indent.map (· + 1)) ++ stringChars name ++ separator indent, ?_⟩
    intro value
    simp only [List.nil_append, membersChars, List.append_assoc]
  | cons member members ih =>
    obtain ⟨other, first⟩ := member
    obtain ⟨front, written⟩ := ih
    refine ⟨',' :: lineBreak (indent.map (· + 1)) ++ stringChars other ++ separator indent ++
      first.chars (indent.map (· + 1)) ++ front, fun value => ?_⟩
    simp only [List.cons_append, membersChars, written, List.append_assoc]

namespace Plot

/-- The area stands at the end of the text of a plot. -/
theorem exists_chars_toJson (points : List Point) (domain : Interval) (indent : Option ℕ) :
    ∃ front, ∀ area, (toJson ⟨points, domain, area⟩).chars indent =
      front ++ (Json.ofFloat area).chars (indent.map (· + 1)) ++ Json.lineBreak indent ++
        ['\x7d'] := by
  obtain ⟨front, written⟩ := Json.exists_membersChars indent
    [("domain_min", .ofFloat domain.lower), ("domain_max", .ofFloat domain.upper)] "area"
  refine ⟨'\x7b' :: Json.lineBreak (indent.map (· + 1)) ++ Json.stringChars "points" ++
    Json.separator indent ++ (Json.array (points.map Point.toJson)).chars (indent.map (· + 1)) ++
      front, fun area => ?_⟩
  have members := written (Json.ofFloat area)
  simp only [List.cons_append, List.nil_append] at members
  simp only [toJson, Json.ofMembers, List.map_cons, List.map_nil]
  rw [Json.chars, members]
  simp only [List.append_assoc]

/-- The plot without samples whose area is the negative zero. -/
def unsampled (domain : Interval) : Plot :=
  { empty domain with area := -0.0 }

theorem label_empty (domain : Interval) : (empty domain).label = "S(f) [Area: 0]" := by
  have zero : Decimal.plainText 0 = "0" := by decide +kernel
  change "S(f) [Area: " ++ Decimal.plainText 0 ++ "]" = _
  rw [zero]
  rfl

theorem label_unsampled (domain : Interval) : (unsampled domain).label = "S(f) [Area: -0]" := by
  have zero : Decimal.plainText (-0.0) = "-0" := by decide +kernel
  change "S(f) [Area: " ++ Decimal.plainText (-0.0) ++ "]" = _
  rw [zero]
  rfl

/-- The two plots without samples are written alike up to the sign of the area. -/
theorem exists_chars_unsampled (domain : Interval) (indent : Option ℕ) :
    ∃ front back, (unsampled domain).toJson.chars indent = front ++ '-' :: back ∧
      (empty domain).toJson.chars indent = front ++ back := by
  obtain ⟨front, written⟩ := exists_chars_toJson [] domain indent
  have negative : Json.ofFloat (-0.0) =
      .number { negative := true, whole := ['0'], fraction := ['0'] } := rfl
  have positive : Json.ofFloat 0 =
      .number { negative := false, whole := ['0'], fraction := ['0'] } := rfl
  refine ⟨front, "0.0".toList ++ Json.lineBreak indent ++ ['\x7d'], ?_, ?_⟩
  · refine (written (-0.0)).trans ?_
    rw [negative, Json.chars, List.append_assoc, List.append_assoc]
    rfl
  · refine (written 0).trans ?_
    rw [positive, Json.chars, List.append_assoc, List.append_assoc]
    rfl

end Plot

/-! ## Signals that are nowhere finite -/

namespace Sampler

variable {sampler : Sampler} {signal : Float → Float}

/-- Whether a signal is finite at no place of the grid over the search range. -/
def IsNowhereFinite (sampler : Sampler) (signal : Float → Float) : Prop :=
  let search := sampler.settings.search
  let steps := sampler.settings.searchSteps.toNat
  ∀ index ≤ steps, (signal (gridPlace search (gridStep search steps) index)).isFinite = false

/-- There are no samples exactly of these signals. -/
theorem points_searched_eq_nil_iff (some : 0 < sampler.settings.searchSteps.toNat) :
    (sampler.searched signal).points = [] ↔ sampler.IsNowhereFinite signal := by
  simp [searched, points_sampleGrid some, IsNowhereFinite, sampleAt?]

/-- Without samples a plot has the default window, and the negative zero for its area. -/
theorem signalPlot_of_isNowhereFinite (usable : sampler.settings.check = .ok ())
    (scale : HasScale sampler.settings.areaDigits) (nowhere : sampler.IsNowhereFinite signal) :
    sampler.signalPlot signal = .unsampled sampler.settings.defaultDomain := by
  have none := (points_searched_eq_nil_iff
    (Settings.check_eq_ok.mp usable).searchSteps.1).mpr nowhere
  have area : sampler.area (sampler.searched signal) = -0.0 := by
    rw [Sampler.area, none, trapezoidArea_of_few (by decide), roundTo_negZero scale]
  rw [signalPlot, none, area, Settings.detectDomain_of_nil rfl]
  rfl

theorem value_plot_of_isNowhereFinite {formula : String} (usable : sampler.settings.check = .ok ())
    (scale : HasScale sampler.settings.areaDigits) (text : Text.isBlankText formula = false)
    (readable : (parse formula sampler.limits).isFatal = false)
    (nowhere : sampler.IsNowhereFinite (parse formula sampler.limits).expr.eval) :
    (sampler.plot formula).value = .unsampled sampler.settings.defaultDomain := by
  rw [value_plot_of_text text readable, value_sample usable]
  exact signalPlot_of_isNowhereFinite usable scale nowhere

/-- **A plot of a signal that is nowhere finite is the one without samples but for the sign of its
area.** The two areas are equal as numbers, but the label and the JSON show the sign. -/
theorem plot_without_samples (sampler : Sampler) (formula : String)
    (usable : sampler.settings.check = .ok ()) (scale : HasScale sampler.settings.areaDigits)
    (text : Text.isBlankText formula = false)
    (readable : (parse formula sampler.limits).isFatal = false)
    (nowhere : sampler.IsNowhereFinite (parse formula sampler.limits).expr.eval) :
    let plot := (sampler.plot formula).value
    let blank := Plot.empty sampler.settings.defaultDomain
    plot = { blank with area := -0.0 } ∧ (plot.area == blank.area) = true ∧
      plot.label = "S(f) [Area: -0]" ∧ blank.label = "S(f) [Area: 0]" ∧
      ∀ indent, ∃ front back, plot.toJson.chars indent = front ++ '-' :: back ∧
        blank.toJson.chars indent = front ++ back := by
  intro plot blank
  have same : plot = .unsampled sampler.settings.defaultDomain :=
    value_plot_of_isNowhereFinite usable scale text readable nowhere
  have zeros : (-0.0 == (0 : Float)) = true := by decide +kernel
  rw [same]
  exact ⟨rfl, zeros, Plot.label_unsampled _, Plot.label_empty _, Plot.exists_chars_unsampled _⟩

/-- A constant that is not finite is nowhere finite. -/
theorem isNowhereFinite_of_asNumber? {e : Expr} {number : Float}
    (constant : e.asNumber? = some number) (infinite : number.isFinite = false) :
    sampler.IsNowhereFinite e.eval := by
  intro index _
  cases e with
  | number value =>
    cases constant
    exact infinite
  | _ => cases constant

/-- A point without digits is a constant that is a NaN. -/
theorem isNowhereFinite_point :
    ({} : Sampler).IsNowhereFinite (parse "." ({} : Sampler).limits).expr.eval := by
  have constant : ((parse "." ({} : Sampler).limits).expr.asNumber?.any fun number =>
      !number.isFinite) = true := by decide +kernel
  obtain ⟨number, same, infinite⟩ := (Option.any_eq_true _ _).mp constant
  exact isNowhereFinite_of_asNumber? same (by simpa using infinite)

theorem plot_without_samples_point :
    (({} : Sampler).plot ".").value.label = "S(f) [Area: -0]" ∧
      (({} : Sampler).plot "").value.label = "S(f) [Area: 0]" := by
  have blank : (({} : Sampler).plot "").value = .empty ({} : Settings).defaultDomain :=
    value_plot_of_rejects (.inl (by decide +kernel))
  obtain ⟨_, _, label, label', _⟩ := plot_without_samples {} "." (by decide +kernel) (by decide)
    (by decide +kernel) (by decide +kernel) isNowhereFinite_point
  exact ⟨label, blank ▸ label'⟩

/-- The default plot of a point without digits is not written like the blank one. -/
theorem not_plot_like_blank :
    ¬ ∀ (sampler : Sampler) (formula : String), sampler.settings.check = .ok () →
      sampler.settings.areaDigits = ({} : Settings).areaDigits →
      Text.isBlankText formula = false → (parse formula sampler.limits).isFatal = false →
      sampler.IsNowhereFinite (parse formula sampler.limits).expr.eval →
        (sampler.plot formula).value.label = (Plot.empty sampler.settings.defaultDomain).label ∧
          (sampler.plot formula).value.toJson.compact =
            (Plot.empty sampler.settings.defaultDomain).toJson.compact := by
  intro claim
  obtain ⟨label, _⟩ := claim {} "." (by decide +kernel) rfl (by decide +kernel) (by decide +kernel)
    isNowhereFinite_point
  rw [value_plot_of_isNowhereFinite (by decide +kernel) (by decide) (by decide +kernel)
    (by decide +kernel) isNowhereFinite_point, Plot.label_unsampled, Plot.label_empty] at label
  exact absurd label (by decide)

end Sampler

end Waveform
