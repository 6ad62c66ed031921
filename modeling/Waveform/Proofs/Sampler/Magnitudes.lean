import Waveform.Proofs.Sampler.Window

/-!
# Samplers see magnitudes only

A signal and its magnitude are sampled at the same places, count at the same samples, and have the
same area: each stage of sampling gives the same for samples without their signs. So the plot of the
magnitude is the plot of the signal without the signs (`Sampler.sample_abs`). Signals that agree up
to sign have one magnitude, and hence plots that differ in signs at most
(`Sampler.sample_of_agreeUpToSign`).
-/

set_option autoImplicit false

namespace Waveform

open Binary64

/-! ## Magnitudes of numbers -/

namespace Binary64

open Float.Model Float.Model.UnpackedFloat

@[simp]
theorem abs_abs (x : Float) : x.abs.abs = x.abs := by
  apply ext_parts
  rw [parts_abs, parts_abs]
  cases parts x <;> rfl

@[simp]
theorem abs_neg_eq (x : Float) : (-x).abs = x.abs := by
  apply ext_parts
  rw [parts_abs, parts_abs, parts_neg]
  cases parts x <;> rfl

theorem sign_eq_or_neg : ∀ sign other : Sign, other = sign ∨ other = -sign
  | .negative, .negative | .positive, .positive => .inl rfl
  | .negative, .positive | .positive, .negative => .inr rfl

theorem eq_or_neg_of_parts_abs {u v : UnpackedFloat} (same : u.abs = v.abs) :
    v = u ∨ v = u.neg := by
  cases u with
  | notANumber =>
    cases v with
    | notANumber => exact .inl rfl
    | infinity | zero | finite => cases same
  | infinity sign =>
    cases v with
    | infinity other => rcases sign_eq_or_neg sign other with rfl | rfl <;> simp [UnpackedFloat.neg]
    | notANumber | zero | finite => cases same
  | zero sign =>
    cases v with
    | zero other => rcases sign_eq_or_neg sign other with rfl | rfl <;> simp [UnpackedFloat.neg]
    | notANumber | infinity | finite => cases same
  | finite sign mantissa exponent =>
    cases v with
    | finite other =>
      cases same
      rcases sign_eq_or_neg sign other with rfl | rfl <;> simp [UnpackedFloat.neg]
    | notANumber | infinity | zero => cases same

/-- Numbers have one magnitude exactly when they agree up to sign. -/
theorem abs_eq_abs_iff {x y : Float} : x.abs = y.abs ↔ y = x ∨ y = -x := by
  constructor
  · intro same
    have same : (parts x).abs = (parts y).abs := by rw [← parts_abs, same, parts_abs]
    have sides := eq_or_neg_of_parts_abs same
    rw [← parts_neg] at sides
    exact sides.imp ext_parts ext_parts
  · rintro (rfl | rfl)
    · rfl
    · exact (abs_neg_eq x).symm

end Binary64

/-! ## Samples without their signs -/

/-- A sample without its sign. -/
def Point.magnitude (point : Point) : Point :=
  { point with y := point.y.abs }

/-- A plot whose samples have no signs. -/
def Plot.magnitudes (plot : Plot) : Plot :=
  { plot with points := plot.points.map Point.magnitude }

theorem sampleAt?_abs (signal : Float → Float) (x : Float) :
    sampleAt? (fun x => (signal x).abs) x = (sampleAt? signal x).map Point.magnitude := by
  unfold sampleAt?
  dsimp only
  rw [isFinite_abs]
  split <;> rfl

/-- The magnitude of a signal is finite where the signal is. -/
theorem sampleGrid_abs (signal : Float → Float) (range : Interval) (steps : ℕ) :
    sampleGrid (fun x => (signal x).abs) range steps =
      { points := (sampleGrid signal range steps).points.map Point.magnitude
        step := (sampleGrid signal range steps).step } := by
  unfold sampleGrid
  split
  · rfl
  · simp only [sampleAt?_abs, List.map_filterMap]

theorem gapArea_magnitude (step : Float) (left right : Point) :
    gapArea step left.magnitude right.magnitude = gapArea step left right := by
  simp only [gapArea, Point.magnitude, abs_abs]

/-- The area is that of the magnitudes. -/
theorem trapezoidArea_magnitude (points : List Point) (step : Float) :
    trapezoidArea (points.map Point.magnitude) step = trapezoidArea points step := by
  simp only [trapezoidArea, ← List.map_tail, List.zipWith_map, gapArea_magnitude]

namespace Settings

variable (settings : Settings)

/-- A sample counts by its magnitude. -/
theorem counting_magnitude (points : List Point) :
    settings.counting (points.map Point.magnitude) =
      (settings.counting points).map Point.magnitude := by
  simp only [counting, List.filter_map, Function.comp_def, Point.magnitude, isNegligible, abs_abs]

/-- The window is that of the magnitudes. -/
theorem detectDomain_magnitude (points : List Point) :
    settings.detectDomain (points.map Point.magnitude) = settings.detectDomain points := by
  have counted := settings.counting_magnitude points
  cases some : settings.counting points with
  | nil =>
    rw [some, List.map_nil] at counted
    rw [detectDomain_of_nil some, detectDomain_of_nil counted]
  | cons first rest =>
    rw [some, List.map_cons] at counted
    rw [detectDomain_of_cons some, detectDomain_of_cons counted, List.getLastD_map]
    rfl

end Settings

/-! ## Signals up to sign -/

/-- Whether two signals have the same values everywhere, up to sign. -/
def AgreeUpToSign (signal other : Float → Float) : Prop :=
  ∀ x, other x = signal x ∨ other x = -signal x

theorem AgreeUpToSign.abs_eq {signal other : Float → Float} (agree : AgreeUpToSign signal other) :
    (fun x => (other x).abs) = fun x => (signal x).abs :=
  funext fun x => (abs_eq_abs_iff.mpr (agree x)).symm

/-- A signal with its sign changed. -/
theorem agreeUpToSign_neg (e : Expr) : AgreeUpToSign e.eval (Expr.neg e).eval :=
  fun _ => .inr rfl

/-- Whether two plots are the same up to the signs of their samples. -/
structure Plot.AgreesUpToSign (plot other : Plot) : Prop where
  points : List.Forall₂ (fun point point' => point'.x = point.x ∧
    (point'.y = point.y ∨ point'.y = -point.y)) plot.points other.points
  domain : other.domain = plot.domain
  area : other.area = plot.area

/-- Plots that are the same without signs agree up to sign. -/
theorem Plot.AgreesUpToSign.of_magnitudes {plot other : Plot}
    (same : plot.magnitudes = other.magnitudes) :
    plot.AgreesUpToSign other := by
  obtain ⟨points, domain, area⟩ := plot
  obtain ⟨points', domain', area'⟩ := other
  obtain ⟨samples, rfl, rfl⟩ := Plot.mk.inj same
  refine ⟨?_, rfl, rfl⟩
  rw [← List.forall₂_eq_eq_eq, List.forall₂_map_left_iff, List.forall₂_map_right_iff] at samples
  refine samples.imp fun point point' same => ?_
  obtain ⟨places, heights⟩ := Point.mk.inj same
  exact ⟨places.symm, abs_eq_abs_iff.mp heights⟩

namespace Sampler

/-- **The plot of a magnitude** is that of the signal without the signs, and so is its log. -/
theorem sample_abs (sampler : Sampler) (signal : Float → Float) :
    sampler.sample (fun x => (signal x).abs) =
      { value := (sampler.sample signal).value.magnitudes
        events := (sampler.sample signal).events } := by
  unfold sample
  dsimp only
  cases sampler.settings.check with
  | error error => rfl
  | ok _ =>
    dsimp only
    rw [sampleGrid_abs]
    simp only [area, trapezoidArea_magnitude, Settings.detectDomain_magnitude, List.length_map]
    rfl

/-- **Signals that agree up to sign have plots that do**, whatever the settings are: the same number
of samples at the same places, the same up to sign, in the same window, with the same area. Their
logs do not differ at all. An expression with its sign changed is such a signal. -/
theorem sample_of_agreeUpToSign (sampler : Sampler) :
    (∀ signal other, AgreeUpToSign signal other →
      (sampler.sample signal).value.AgreesUpToSign (sampler.sample other).value ∧
        (sampler.sample other).events = (sampler.sample signal).events) ∧
      ∀ e : Expr,
        (sampler.sample e.eval).value.AgreesUpToSign (sampler.sample (Expr.neg e).eval).value := by
  have general (signal other : Float → Float) (agree : AgreeUpToSign signal other) :
      (sampler.sample signal).value.AgreesUpToSign (sampler.sample other).value ∧
        (sampler.sample other).events = (sampler.sample signal).events := by
    have same := sampler.sample_abs other
    rw [agree.abs_eq, sample_abs] at same
    obtain ⟨values, events⟩ := Logged.mk.inj same
    exact ⟨.of_magnitudes values, events.symm⟩
  exact ⟨general, fun e => (general _ _ (agreeUpToSign_neg e)).1⟩

/-- A triangle whose left half is turned around. -/
theorem sample_of_agreeUpToSign_turned :
    let sampler : Sampler := { settings := { search := ⟨-2, 2⟩, searchSteps := 4 } }
    let signal := fun x => Kernel.tri x 2
    let other := fun x => if x < 0 then -Kernel.tri x 2 else Kernel.tri x 2
    AgreeUpToSign signal other ∧
      (sampler.sample other).value.points.map Point.y = [-0.0, -0.5, 1, 0.5, 0] ∧
      (sampler.sample other).value.area = 2 ∧
      (sampler.sample signal).value.AgreesUpToSign (sampler.sample other).value := by
  intro sampler signal other
  have agree : AgreeUpToSign signal other := by
    intro x
    by_cases left : x < 0
    · exact .inr (if_pos left)
    · exact .inl (if_neg left)
  refine ⟨agree, ?_, ?_, (sampler.sample_of_agreeUpToSign.1 signal other agree).1⟩
  · decide +kernel
  · decide +kernel

end Sampler

end Waveform
