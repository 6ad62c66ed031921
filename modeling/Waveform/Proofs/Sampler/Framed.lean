import Waveform.Proofs.Float.Monotone
import Waveform.Proofs.Pulse.Kernels
import Waveform.Proofs.Sampler.Hull

/-!
# The window of pulses shows all of them

The window of a sum of pulses shows the origin and every pulse that has support, from its left to
its right edge, and nothing else matters: the order of the pulses does not, and neither do pulses
without support (`Settings.closedFormDomain_frames_pulses`).

Both parts come from the order of intervals by inclusion (`Interval.Covers`). The hull is the least
interval that covers the origin and the edges of the pulses, so it depends on which pulses there are
only. Padding keeps the order. Neither needs finite bounds: edges and paddings beyond the greatest
number are infinite, and an infinite width scaled by zero gives way to the least padding.
-/

set_option autoImplicit false

namespace Waveform

open Binary64

/-! ## The lesser and the greater number in order -/

section Extremes

variable {a a' b c : Float}

theorem lesser_le_right (number : b.isNaN = false) : lesser a b ≤ b := by
  unfold lesser
  split
  · exact le_refl number
  · next number' =>
    have number' := Bool.eq_false_of_not_eq_true number'
    split
    · exact le_refl number
    · next notLess =>
      by_contra notLe
      exact notLess ((lt_iff_not_le number number').mpr notLe)

theorem le_lesser (left : c ≤ a) (right : c ≤ b) : c ≤ lesser a b := by
  rcases lesser_eq_or a b with same | same
  · rwa [same]
  · rwa [same]

/-- A NaN is not counted among what is to be bounded. -/
theorem greater_le (left : a.isNaN = false → a ≤ c) (right : b ≤ c) : greater a b ≤ c := by
  unfold greater
  split
  · exact right
  · next number =>
    split
    · exact right
    · exact left (Bool.eq_false_of_not_eq_true number)

theorem greater_le_greater (le : a ≤ a') (number : b.isNaN = false) : greater a b ≤ greater a' b :=
  greater_le (fun _ => le_trans le (le_greater_left (isNaN_of_le le).2)) (le_greater_right number)

end Extremes

/-! ## Intervals in each other -/

namespace Interval

/-- Whether an interval reaches at least as far as another one on both sides. -/
structure Covers (outer inner : Interval) : Prop where
  lower : outer.lower ≤ inner.lower
  upper : inner.upper ≤ outer.upper

/-- Whether the bounds are numbers, an infinity among them. -/
structure HasBounds (interval : Interval) : Prop where
  lower : interval.lower.isNaN = false
  upper : interval.upper.isNaN = false

/-- The origin alone. -/
def origin : Interval := ⟨0, 0⟩

/-- The least interval around two others. -/
def join (first second : Interval) : Interval :=
  ⟨lesser first.lower second.lower, greater first.upper second.upper⟩

variable {outer first second : Interval}

namespace Covers

theorem trans (covers : outer.Covers first) (covers' : first.Covers second) : outer.Covers second :=
  ⟨le_trans covers.lower covers'.lower, le_trans covers'.upper covers.upper⟩

/-- Intervals that cover each other have the same bounds, zeros of both signs included. -/
theorem antisymm (covers : first.Covers second) (covers' : second.Covers first) :
    (first.lower == second.lower) = true ∧ (first.upper == second.upper) = true :=
  ⟨beq_of_le_of_le covers.lower covers'.lower, beq_of_le_of_le covers'.upper covers.upper⟩

theorem hasBounds (covers : outer.Covers first) : outer.HasBounds :=
  ⟨(isNaN_of_le covers.lower).1, (isNaN_of_le covers.upper).2⟩

theorem join (covers : outer.Covers first) (covers' : outer.Covers second) :
    outer.Covers (first.join second) :=
  ⟨le_lesser covers.lower covers'.lower,
    greater_le (fun _ => covers.upper) covers'.upper⟩

end Covers

theorem covers_origin_iff : outer.Covers .origin ↔ outer.lower ≤ 0 ∧ 0 ≤ outer.upper :=
  ⟨fun covers => ⟨covers.lower, covers.upper⟩, fun bounds => ⟨bounds.1, bounds.2⟩⟩

theorem join_covers_left (bounds : first.HasBounds) : (first.join second).Covers first :=
  ⟨lesser_le_left bounds.lower, le_greater_left bounds.upper⟩

theorem join_covers_right (bounds : second.HasBounds) : (first.join second).Covers second :=
  ⟨lesser_le_right bounds.lower, le_greater_right bounds.upper⟩

end Interval

/-! ## Edges of pulses -/

namespace Pulse

/-- The interval between the edges of a pulse. -/
def edges (pulse : Pulse) : Interval :=
  ⟨pulse.extent.1, pulse.extent.2⟩

theorem isFinite_halfWidth (shape : Shape) {width : Float} (finite : width.isFinite = true) :
    (shape.halfWidth width).isFinite = true := by
  cases shape with
  | rect =>
    have two : value 2 = 2 := value_ofNat (by norm_num : 2 < 2 ^ 53)
    have rounds := roundsTo_div (y := 2) finite (by decide) (by rw [two]; norm_num)
    rw [two] at rounds
    have low := value_le_greatest (-width)
    have high := value_le_greatest width
    rw [value_neg] at low
    exact rounds.isFinite (abs_le.mpr ⟨by linarith, by linarith⟩)
  | tri => exact finite

/-- A pulse with support around a finite center has edges. -/
theorem hasBounds_edges {pulse : Pulse} (support : pulse.hasSupport = true)
    (finite : pulse.center.isFinite = true) : pulse.edges.HasBounds := by
  have reach := isFinite_halfWidth pulse.shape (isFinite_width support)
  exact ⟨(roundsTo_sub finite reach).isNaN, (roundsTo_add finite reach).isNaN⟩

end Pulse

namespace Settings

/-! ## The hull is the least interval around all pulses -/

section Hull

variable {start : Interval} {pulses : List Pulse}

theorem hullFrom_cons (start : Interval) (pulse : Pulse) (pulses : List Pulse) :
    hullFrom start (pulse :: pulses) = hullFrom (start.join pulse.edges) pulses :=
  rfl

theorem hullFrom_covers (bounds : start.HasBounds)
    (edges : ∀ pulse ∈ pulses, pulse.edges.HasBounds) :
    (hullFrom start pulses).Covers start ∧
      ∀ pulse ∈ pulses, (hullFrom start pulses).Covers pulse.edges := by
  induction pulses generalizing start with
  | nil =>
    exact ⟨⟨le_refl bounds.lower, le_refl bounds.upper⟩,
      fun pulse member => (List.not_mem_nil member).elim⟩
  | cons pulse pulses ih =>
    obtain ⟨first, edges⟩ := List.forall_mem_cons.mp edges
    have covers : (start.join pulse.edges).Covers start := Interval.join_covers_left bounds
    obtain ⟨outer, others⟩ := ih covers.hasBounds edges
    rw [hullFrom_cons]
    refine ⟨outer.trans covers, List.forall_mem_cons.mpr ⟨?_, others⟩⟩
    exact outer.trans (Interval.join_covers_right first)

theorem covers_hullFrom {outer : Interval} (covers : outer.Covers start)
    (edges : ∀ pulse ∈ pulses, outer.Covers pulse.edges) :
    outer.Covers (hullFrom start pulses) := by
  induction pulses generalizing start with
  | nil => exact covers
  | cons pulse pulses ih =>
    obtain ⟨first, edges⟩ := List.forall_mem_cons.mp edges
    rw [hullFrom_cons]
    exact ih (covers.join first) edges

theorem hull_eq (pulses : List Pulse) : hull pulses = hullFrom .origin pulses :=
  rfl

theorem hull_covers (edges : ∀ pulse ∈ pulses, pulse.edges.HasBounds) :
    (hull pulses).Covers .origin ∧ ∀ pulse ∈ pulses, (hull pulses).Covers pulse.edges := by
  rw [hull_eq]
  exact hullFrom_covers ⟨rfl, rfl⟩ edges

/-- **The hull of pulses covers the hull of some of them.** -/
theorem hull_covers_hull {some : List Pulse} (edges : ∀ pulse ∈ pulses, pulse.edges.HasBounds)
    (among : some ⊆ pulses) : (hull pulses).Covers (hull some) := by
  obtain ⟨origin, covers⟩ := hull_covers edges
  rw [hull_eq some]
  exact covers_hullFrom origin fun pulse member => covers pulse (among member)

end Hull

/-! ## Padding keeps the order -/

theorem padded_eq (settings : Settings) (around : Interval) : settings.padded around =
    ⟨around.lower - settings.closedFormPadding (around.upper - around.lower),
      around.upper + settings.closedFormPadding (around.upper - around.lower)⟩ :=
  rfl

section Padding

variable {settings : Settings} (usable : settings.IsUsable)

include usable

theorem zero_le_closedFormPadding (span : Float) : 0 ≤ settings.closedFormPadding span :=
  le_trans usable.closedFormMinPadding.2 (minPadding_le usable span)

/-- A width that is scaled by zero gives a zero, or a NaN where it is infinite. -/
theorem mul_le_of_ratio_eq_zero (zero : value settings.closedFormPaddingRatio = 0) {span : Float}
    (nonneg : 0 ≤ span) (number : (span * settings.closedFormPaddingRatio).isNaN = false) :
    span * settings.closedFormPaddingRatio ≤ 0 := by
  have ratio := usable.closedFormPaddingRatio.1
  rcases zero_le_iff.mp nonneg with ⟨finite, _⟩ | infinite
  · refine (roundsTo_mul finite ratio).le_of_le_value isFinite_zero ?_
    rw [zero, value_zero, mul_zero]
  · obtain ⟨sign, same⟩ := exists_parts_of_zero ratio zero
    have nan := parts_zero_mul_infinity same infinite
    rw [Binary64.mul_comm] at nan
    change (parts (span * settings.closedFormPaddingRatio)).isNaN = false at number
    rw [nan] at number
    cases number

/-- **A wider interval has a wider padding.** -/
theorem closedFormPadding_mono {span wider : Float} (nonneg : 0 ≤ span) (le : span ≤ wider) :
    settings.closedFormPadding span ≤ settings.closedFormPadding wider := by
  obtain ⟨finite, ratio⟩ := usable.closedFormPaddingRatio
  have least := isNaN_of_isFinite usable.closedFormMinPadding.1
  rcases ((zero_le_iff_value finite).mp ratio).eq_or_lt with zero | positive
  · refine le_trans (greater_le ?_ (le_refl least)) (minPadding_le usable wider)
    intro number
    exact le_trans (mul_le_of_ratio_eq_zero usable zero.symm nonneg number)
      usable.closedFormMinPadding.2
  · exact greater_le_greater (mul_le_mul_right finite positive nonneg le) least

/-- The window around an interval with the origin covers it. -/
theorem padded_covers {around : Interval} (origin : around.Covers .origin) :
    (settings.padded around).Covers around := by
  obtain ⟨lower, upper⟩ := Interval.covers_origin_iff.mp origin
  have nonneg := zero_le_closedFormPadding usable (around.upper - around.lower)
  rw [padded_eq]
  exact ⟨Binary64.sub_le_self lower nonneg, Binary64.le_add_self upper nonneg⟩

/-- **The window around a wider interval covers that around a narrower one.** -/
theorem padded_covers_padded {outer inner : Interval} (covers : outer.Covers inner)
    (origin : inner.Covers .origin) : (settings.padded outer).Covers (settings.padded inner) := by
  obtain ⟨lower, upper⟩ := Interval.covers_origin_iff.mp origin
  have below := zero_le_neg_iff.mpr lower
  have span : 0 ≤ inner.upper - inner.lower := by
    rw [Binary64.sub_eq_add_neg]
    exact Binary64.add_nonneg upper below
  have wider : inner.upper - inner.lower ≤ outer.upper - outer.lower := by
    rw [Binary64.sub_eq_add_neg, Binary64.sub_eq_add_neg]
    exact Binary64.add_le_add upper covers.upper below (Binary64.neg_le_neg_iff.mpr covers.lower)
  have padding := closedFormPadding_mono usable span wider
  have nonneg := zero_le_closedFormPadding usable (inner.upper - inner.lower)
  rw [padded_eq, padded_eq]
  exact ⟨Binary64.sub_le_sub lower covers.lower nonneg padding,
    Binary64.add_le_add upper covers.upper nonneg padding⟩

end Padding

end Settings

/-! ## Windows of pulses -/

/-- Two lists of pulses that are the same apart from the order and from pulses without support. -/
inductive Rearranges : List Pulse → List Pulse → Prop where
  | reorder {pulses others : List Pulse} (perm : pulses.Perm others) : Rearranges pulses others
  /-- A pulse without support is put in. -/
  | insert {front back : List Pulse} {pulse : Pulse} (idle : pulse.hasSupport = false) :
      Rearranges (front ++ back) (front ++ pulse :: back)
  /-- A pulse without support is left out. -/
  | erase {front back : List Pulse} {pulse : Pulse} (idle : pulse.hasSupport = false) :
      Rearranges (front ++ pulse :: back) (front ++ back)
  | trans {pulses others last : List Pulse} (first : Rearranges pulses others)
      (second : Rearranges others last) : Rearranges pulses last

theorem filter_hasSupport_of_idle {pulse : Pulse} (idle : pulse.hasSupport = false)
    (front back : List Pulse) : (front ++ pulse :: back).filter Pulse.hasSupport =
      (front ++ back).filter Pulse.hasSupport := by
  simp [idle]

/-- Lists that are rearranged have the same pulses with support. -/
theorem Rearranges.perm_supported {pulses others : List Pulse} (same : Rearranges pulses others) :
    (pulses.filter Pulse.hasSupport).Perm (others.filter Pulse.hasSupport) := by
  induction same with
  | reorder perm => exact perm.filter Pulse.hasSupport
  | insert idle => rw [filter_hasSupport_of_idle idle]
  | erase idle => rw [filter_hasSupport_of_idle idle]
  | trans _ _ ih ih' => exact ih.trans ih'

namespace Settings

variable {settings : Settings} {pulses others : List Pulse}

theorem closedFormDomain_of_nil (none : pulses.filter Pulse.hasSupport = []) :
    settings.closedFormDomain pulses = settings.closedFormDefaultDomain := by
  simp only [closedFormDomain, none]

theorem closedFormDomain_of_ne_nil (some : pulses.filter Pulse.hasSupport ≠ []) :
    settings.closedFormDomain pulses =
      settings.padded (hull (pulses.filter Pulse.hasSupport)) := by
  unfold closedFormDomain
  split
  · next none => exact absurd none some
  · rfl

theorem hasBounds_of_mem_supported (finite : ∀ pulse ∈ pulses, pulse.center.isFinite = true) :
    ∀ pulse ∈ pulses.filter Pulse.hasSupport, pulse.edges.HasBounds := by
  intro pulse member
  obtain ⟨among, support⟩ := List.mem_filter.mp member
  exact Pulse.hasBounds_edges support (finite pulse among)

/-- **The window is that of the pulses with support.** The window of other pulses covers it if all
of these are among them. -/
theorem closedFormDomain_covers (usable : settings.IsUsable)
    (edges : ∀ pulse ∈ pulses.filter Pulse.hasSupport, pulse.edges.HasBounds)
    (some : others.filter Pulse.hasSupport ≠ [])
    (among : others.filter Pulse.hasSupport ⊆ pulses.filter Pulse.hasSupport) :
    (settings.closedFormDomain pulses).Covers (settings.closedFormDomain others) := by
  have some' : pulses.filter Pulse.hasSupport ≠ [] := by
    intro none
    rw [none] at among
    exact some (List.subset_nil.mp among)
  rw [closedFormDomain_of_ne_nil some, closedFormDomain_of_ne_nil some']
  exact padded_covers_padded usable (hull_covers_hull edges among)
    (hull_covers fun pulse member => edges pulse (among member)).1

/-- **The window of pulses shows all of them and depends on nothing else.** For pulses around finite
centers it is the default window if none of them has support. Otherwise it shows the origin and
every pulse that has support from edge to edge, even where these or the padding are infinite. Its
bounds stay equal when the pulses are reordered and when pulses without support are put in or left
out. -/
theorem closedFormDomain_frames_pulses (settings : Settings) (pulses : List Pulse)
    (usable : settings.check = .ok ()) (finite : ∀ pulse ∈ pulses, pulse.center.isFinite = true) :
    let domain := settings.closedFormDomain pulses
    ((∀ pulse ∈ pulses, pulse.hasSupport = false) → domain = settings.closedFormDefaultDomain) ∧
      (∀ pulse ∈ pulses, pulse.hasSupport = true →
        domain.lower ≤ 0 ∧ 0 ≤ domain.upper ∧
          domain.lower ≤ pulse.extent.1 ∧ pulse.extent.2 ≤ domain.upper) ∧
      ∀ others, Rearranges pulses others →
        ((settings.closedFormDomain others).lower == domain.lower) = true ∧
          ((settings.closedFormDomain others).upper == domain.upper) = true := by
  intro domain
  have inRange := check_eq_ok.mp usable
  have edges := hasBounds_of_mem_supported finite
  refine ⟨?_, ?_, ?_⟩
  · intro idle
    refine closedFormDomain_of_nil (List.filter_eq_nil_iff.mpr fun pulse member => ?_)
    rw [idle pulse member]
    exact Bool.false_ne_true
  · intro pulse member support
    have supported : pulse ∈ pulses.filter Pulse.hasSupport := List.mem_filter.mpr ⟨member, support⟩
    obtain ⟨origin, covers⟩ := hull_covers edges
    have padded := padded_covers inRange origin
    rw [← closedFormDomain_of_ne_nil (List.ne_nil_of_mem supported)] at padded
    obtain ⟨lower, upper⟩ := Interval.covers_origin_iff.mp (padded.trans origin)
    have shown := padded.trans (covers pulse supported)
    exact ⟨lower, upper, shown.lower, shown.upper⟩
  · intro others same
    have perm := same.perm_supported
    by_cases none : pulses.filter Pulse.hasSupport = []
    · have none' : others.filter Pulse.hasSupport = [] := by
        rw [none] at perm
        exact List.nil_perm.mp perm
      have window : domain = settings.closedFormDefaultDomain := closedFormDomain_of_nil none
      obtain ⟨lower, upper, _⟩ := inRange.closedFormDefaultDomain
      rw [closedFormDomain_of_nil none', window]
      exact ⟨beq_self (isNaN_of_isFinite lower), beq_self (isNaN_of_isFinite upper)⟩
    · have edges' : ∀ pulse ∈ others.filter Pulse.hasSupport, pulse.edges.HasBounds :=
        fun pulse member => edges pulse (perm.mem_iff.mpr member)
      have none' : others.filter Pulse.hasSupport ≠ [] := fun none' => by
        rw [none'] at perm
        exact none (List.perm_nil.mp perm)
      have covers := closedFormDomain_covers inRange edges' none perm.subset
      have covered := closedFormDomain_covers inRange edges none' perm.symm.subset
      exact covers.antisymm covered

/-- The greatest widths and centers leave room for the edges of all pulses, and the window is the
same without the rectangle that has none. -/
theorem closedFormDomain_frames_pulses_wide :
    let wide : Pulse := ⟨1, .tri, -1e308, 1.7e308⟩
    let idle : Pulse := ⟨1, .rect, 5, -2⟩
    let narrow : Pulse := ⟨2, .rect, 3, 4⟩
    let domain := Settings.closedFormDomain {} [wide, idle, narrow]
    (domain.lower ≤ wide.extent.1 ∧ wide.extent.2 ≤ domain.upper) ∧
      ((Settings.closedFormDomain {} [narrow, wide]).lower == domain.lower) = true := by
  intro wide idle narrow domain
  obtain ⟨_, shows, depends⟩ :=
    closedFormDomain_frames_pulses {} [wide, idle, narrow] (by decide +kernel) (by decide +kernel)
  obtain ⟨_, _, edges⟩ := shows wide (by simp) (by decide +kernel)
  have erased : Rearranges ([wide] ++ idle :: [narrow]) ([wide] ++ [narrow]) :=
    .erase (by decide +kernel)
  have swapped : Rearranges [wide, narrow] [narrow, wide] := .reorder (.swap narrow wide [])
  exact ⟨edges, (depends [narrow, wide] (erased.trans swapped)).1⟩

end Settings

end Waveform
