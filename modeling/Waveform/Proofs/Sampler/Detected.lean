import Waveform.Proofs.Sampler.Window

/-!
# The window is that of the signal

The window that is found among samples in order shows all of the signal, that is all samples above
the threshold, and only these decide where it is (`Settings.detectDomain_frames_signal`). Quiet
samples may be put in and left out anywhere without a change to the window.

Lists that differ in quiet samples are related by an induction over both (`DiffersQuietly`), which
leaves the same samples to count. The rest is the window around these.
-/

set_option autoImplicit false

namespace Waveform

open Binary64

/-- Two lists of samples that are the same apart from samples up to a threshold, which are put in or
left out at any places. -/
inductive DiffersQuietly (threshold : Float) : List Point → List Point → Prop where
  | nil : DiffersQuietly threshold [] []
  /-- Both lists have the sample. -/
  | keep {points others : List Point} (point : Point)
    (rest : DiffersQuietly threshold points others) :
      DiffersQuietly threshold (point :: points) (point :: others)
  /-- A quiet sample is put in. -/
  | insert {points others : List Point} {point : Point} (quiet : point.y.abs ≤ threshold)
      (rest : DiffersQuietly threshold points others) :
      DiffersQuietly threshold points (point :: others)
  /-- A quiet sample is left out. -/
  | erase {points others : List Point} {point : Point} (quiet : point.y.abs ≤ threshold)
      (rest : DiffersQuietly threshold points others) :
      DiffersQuietly threshold (point :: points) others

namespace Settings

variable {settings : Settings}

/-! ## Samples that count -/

theorem isNegligible_iff {y : Float} :
    settings.isNegligible y = true ↔ y.abs ≤ settings.threshold :=
  decide_eq_true_iff

/-- A number counts when it is above the threshold. -/
theorem isNegligible_eq_false_iff (usable : settings.IsUsable) {y : Float}
    (number : y.isNaN = false) :
    settings.isNegligible y = false ↔ settings.threshold < y.abs := by
  have threshold := isNaN_of_isFinite usable.threshold.1
  rw [← isNaN_abs] at number
  rw [lt_iff_not_le threshold number, ← isNegligible_iff, Bool.not_eq_true]

theorem counting_cons_of_quiet {point : Point} (quiet : point.y.abs ≤ settings.threshold)
    (points : List Point) : settings.counting (point :: points) = settings.counting points := by
  have negligible := isNegligible_iff.mpr quiet
  simp [counting, negligible]

end Settings

/-- Lists that differ in quiet samples have the same ones that count. -/
theorem DiffersQuietly.counting_eq {settings : Settings} {points others : List Point}
    (differs : DiffersQuietly settings.threshold points others) :
    settings.counting points = settings.counting others := by
  induction differs with
  | nil => rfl
  | keep point _ ih =>
    unfold Settings.counting at ih ⊢
    rw [List.filter_cons, List.filter_cons, ih]
  | insert quiet _ ih => rw [Settings.counting_cons_of_quiet quiet, ih]
  | erase quiet _ ih => rw [Settings.counting_cons_of_quiet quiet, ih]

namespace Settings

variable {settings : Settings} {points others : List Point}

/-- **The window depends only on the samples that count.** -/
theorem detectDomain_congr (same : settings.counting points = settings.counting others) :
    settings.detectDomain points = settings.detectDomain others := by
  cases some : settings.counting points with
  | nil => rw [detectDomain_of_nil some, detectDomain_of_nil (same ▸ some)]
  | cons first rest => rw [detectDomain_of_cons some, detectDomain_of_cons (same ▸ some)]

/-- Samples in order are finite distances apart if the first and the last one are. -/
theorem isFinite_sub_of_mem (finite : ∀ point ∈ points, point.x.isFinite = true)
    (order : points.Pairwise fun left right => left.x ≤ right.x)
    (spread : ∀ first ∈ points.head?, ∀ last ∈ points.getLast?,
      (last.x - first.x).isFinite = true) :
    ∀ left ∈ points, ∀ right ∈ points, (right.x - left.x).isFinite = true := by
  intro left member right member'
  cases points with
  | nil => cases member
  | cons first rest =>
    have numbers (point : Point) (member : point ∈ first :: rest) : point.x ≤ point.x :=
      le_refl (isNaN_of_isFinite (finite point member))
    have between := between_of_pairwise order numbers
    obtain ⟨above, below⟩ := between left member
    obtain ⟨above', below'⟩ := between right member'
    have last : (first :: rest).getLast? = some (rest.getLastD first) := by
      rw [List.getLast?_cons, List.getLastD_eq_getLast?]
    exact isFinite_sub_of_between (spread first rfl _ last) above below above' below'

/-- **The window that is found shows all of the signal and depends on nothing else.** For samples in
order, of which the first and the last one are a finite distance apart, it is the default window if
no magnitude is above the threshold. Its bounds are in order, and all samples above the threshold
lie between them. Samples up to the threshold may be put in and left out anywhere. -/
theorem detectDomain_frames_signal (settings : Settings) (points : List Point)
    (usable : settings.check = .ok ()) (finite : ∀ point ∈ points, point.x.isFinite = true)
    (order : points.Pairwise fun left right => left.x ≤ right.x)
    (spread : ∀ first ∈ points.head?, ∀ last ∈ points.getLast?, (last.x - first.x).isFinite = true)
    (numbers : ∀ point ∈ points, point.y.isNaN = false) :
    let domain := settings.detectDomain points
    ((∀ point ∈ points, point.y.abs ≤ settings.threshold) → domain = settings.defaultDomain) ∧
      domain.lower ≤ domain.upper ∧
      (∀ point ∈ points, settings.threshold < point.y.abs →
        domain.lower ≤ point.x ∧ point.x ≤ domain.upper) ∧
      ∀ others, DiffersQuietly settings.threshold points others →
        settings.detectDomain others = domain := by
  intro domain
  have inRange := check_eq_ok.mp usable
  obtain ⟨ordered, covers⟩ :=
    detectDomain_covers inRange order (isFinite_sub_of_mem finite order spread)
  refine ⟨?_, ordered, ?_, ?_⟩
  · intro quiet
    exact detectDomain_of_nil (counting_eq_nil.mpr fun point member =>
      isNegligible_iff.mpr (quiet point member))
  · intro point member loud
    exact covers point member
      ((isNegligible_eq_false_iff inRange (numbers point member)).mpr loud)
  · intro others differs
    exact (detectDomain_congr differs.counting_eq).symm

/-- Two samples of four count, and they alone have the same window. -/
theorem detectDomain_frames_signal_four :
    let points : List Point := [⟨0, 0⟩, ⟨1, 3⟩, ⟨2, 1e-5⟩, ⟨4, -2⟩]
    let domain := Settings.detectDomain {} points
    domain.lower ≤ 1 ∧ 4 ≤ domain.upper ∧ Settings.detectDomain {} [⟨1, 3⟩, ⟨4, -2⟩] = domain := by
  intro points domain
  have framed := detectDomain_frames_signal {} points (by decide +kernel) (by decide +kernel)
    (by decide +kernel) (by decide +kernel) (by decide +kernel)
  obtain ⟨_, _, covers, depends⟩ := framed
  refine ⟨(covers ⟨1, 3⟩ (by simp [points]) (by decide +kernel)).1,
    (covers ⟨4, -2⟩ (by simp [points]) (by decide +kernel)).2, depends _ ?_⟩
  have quiet {y : Float} (le : y.abs ≤ 1e-4) : y.abs ≤ ({} : Settings).threshold := le
  exact .erase (quiet (by decide +kernel))
    (.keep _ (.erase (quiet (by decide +kernel)) (.keep _ .nil)))

end Settings

end Waveform
