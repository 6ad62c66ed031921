import Waveform.Proofs.Float.Monotone
import Waveform.Proofs.Sampler.Plotted

/-!
# Windows around samples

The window around samples in order covers all that count, and its bounds are in order, as long as
the distance of the outer samples is finite (`Settings.around_covers`). The padding may be
infinite. If that distance is a NaN, so are both bounds.

That the distance is finite follows from the grid alone when its last place is a finite distance
away from the lower bound. A search range without a finite width has no such grid: all its places
are infinite or a NaN, and the window has bounds only if nothing counts. Even with a finite width
the last place may be too far away, and then the samples decide
(`Settings.detectDomain_ordered_iff`).
-/

set_option autoImplicit false

namespace Waveform

open Binary64 Float.Model Float.Model.UnpackedFloat

namespace Settings

/-- The window around samples between two places. -/
def around (settings : Settings) (first last : Float) : Interval :=
  let padding := settings.padding (last - first)
  ⟨first - padding, last + padding⟩

/-- The samples that count. -/
def counting (settings : Settings) (points : List Point) : List Point :=
  points.filter fun point => !settings.isNegligible point.y

variable {settings : Settings}

theorem counting_eq_nil {points : List Point} :
    settings.counting points = [] ↔ ∀ point ∈ points, settings.isNegligible point.y = true := by
  simp [counting]

theorem detectDomain_of_nil {points : List Point} (none : settings.counting points = []) :
    settings.detectDomain points = settings.defaultDomain := by
  unfold counting at none
  simp only [detectDomain, none]

theorem detectDomain_of_cons {points rest : List Point} {first : Point}
    (some : settings.counting points = first :: rest) :
    settings.detectDomain points = settings.around first.x (rest.getLastD first).x := by
  unfold counting at some
  simp only [detectDomain, some]
  rfl

section Around

variable {first last : Float}

theorem zero_le_padding (usable : settings.IsUsable) {span : Float} (finite : span.isFinite = true)
    (nonneg : 0 ≤ value span) : 0 ≤ settings.padding span := by
  unfold padding
  split
  · exact usable.narrowPadding.2
  · obtain ⟨ratio, nonneg'⟩ := usable.paddingRatio
    have nonneg' := (zero_le_iff_value ratio).mp nonneg'
    exact zero_le_of_rounds (roundsTo_mul finite ratio) (mul_nonneg nonneg nonneg')

/-- **The window around samples in order covers these**, if their distance is finite. -/
theorem around_covers (usable : settings.IsUsable) (order : first ≤ last)
    (finite : (last - first).isFinite = true) :
    (settings.around first last).lower ≤ first ∧ last ≤ (settings.around first last).upper := by
  obtain ⟨lastFinite, firstFinite⟩ := isFinite_of_sub finite
  have order := (le_iff_value firstFinite lastFinite).mp order
  have nonneg := zero_le_of_rounds (roundsTo_sub lastFinite firstFinite) (sub_nonneg.mpr order)
  have padding := zero_le_padding usable finite ((zero_le_iff_value finite).mp nonneg)
  exact ⟨sub_le_of_nonneg firstFinite padding, Binary64.le_add_of_nonneg lastFinite padding⟩

/-- Without a distance there is no padding. -/
theorem parts_padding_of_nan {span : Float} (nan : parts span = .notANumber) :
    parts (settings.padding span) = .notANumber := by
  unfold padding
  split
  · next less =>
    have number := (isNaN_of_lt less).1
    change (parts span).isNaN = false at number
    rw [nan] at number
    cases number
  · exact parts_mul_of_nan nan

/-- Without a padding there is no lower bound. -/
theorem not_ordered_around (nan : parts (settings.padding (last - first)) = .notANumber) :
    ¬ (settings.around first last).lower ≤ (settings.around first last).upper := by
  intro ordered
  have number : (parts (settings.around first last).lower).isNaN = false := (isNaN_of_le ordered).1
  have bound : parts (settings.around first last).lower = .notANumber := parts_sub_of_nan nan
  rw [bound] at number
  cases number

/-- The padding of an infinite distance is infinite as well, or a NaN if there is none in
proportion. -/
theorem parts_padding_of_infinity (usable : settings.IsUsable) {span : Float}
    (infinite : parts span = .infinity .positive) :
    parts (settings.padding span) =
      if 0 < settings.paddingRatio then .infinity .positive else .notANumber := by
  obtain ⟨ratio, nonneg⟩ := usable.paddingRatio
  have wide : ¬ span < settings.narrowSpan := by
    intro less
    obtain ⟨number, number'⟩ := isNaN_of_lt less
    exact (lt_iff_not_le number number').mp less (le_infinity number' infinite)
  rw [padding, if_neg wide, Binary64.mul_comm]
  split
  · next positive =>
    obtain ⟨_, _, _, _, same⟩ := exists_parts_of_pos ((zero_lt_iff_value ratio).mp positive)
    exact parts_mul_infinity same infinite
  · next none =>
    rw [zero_lt_iff_value ratio] at none
    have zero := le_antisymm (not_lt.mp none) ((zero_le_iff_value ratio).mp nonneg)
    obtain ⟨_, same⟩ := exists_parts_of_zero ratio zero
    exact parts_zero_mul_infinity same infinite

/-- **Samples in order have a window with bounds** exactly if they start at a finite place and end a
finite distance behind it, or are padded in proportion to their distance. -/
theorem around_ordered_iff (usable : settings.IsUsable) {bound : Float}
    (finite : bound.isFinite = true) (above : bound ≤ first) (order : first ≤ last) :
    (settings.around first last).lower ≤ (settings.around first last).upper ↔
      first.isFinite = true ∧ ((last - first).isFinite = true ∨ 0 < settings.paddingRatio) := by
  rcases isFinite_or_infinity_of_le finite above with starts | infinite
  · by_cases near : (last - first).isFinite = true
    · obtain ⟨low, high⟩ := around_covers usable order near
      exact iff_of_true (le_trans low (le_trans order high)) ⟨starts, .inl near⟩
    · have far : parts (last - first) = .infinity .positive :=
        parts_sub_of_le starts order (Bool.eq_false_of_not_eq_true near)
      have padding := parts_padding_of_infinity usable far
      by_cases ratio : 0 < settings.paddingRatio
      · rw [if_pos ratio] at padding
        have low : parts (settings.around first last).lower = .infinity .negative :=
          parts_sub_infinity starts padding
        have high : parts (settings.around first last).upper = .infinity .positive := by
          rcases isFinite_or_infinity_of_le starts order with ends | infinite
          · exact parts_add_infinity ends padding
          · exact parts_infinity_add_infinity infinite padding
        exact iff_of_true (infinity_le low (isNaN_of_infinity high)) ⟨starts, .inr ratio⟩
      · rw [if_neg ratio] at padding
        exact iff_of_false (not_ordered_around padding) fun ⟨_, either⟩ => either.elim near ratio
  · have infinite' : parts last = .infinity .positive := by
      refine (isFinite_or_infinity_of_le finite (le_trans above order)).resolve_left fun ends => ?_
      have starts : (parts first).isFinite = true := isFinite_of_between above order finite ends
      rw [infinite] at starts
      cases starts
    have nan : parts (last - first) = .notANumber := parts_infinity_sub_infinity infinite' infinite
    refine iff_of_false (not_ordered_around (parts_padding_of_nan nan)) fun ⟨starts, _⟩ => ?_
    change (parts first).isFinite = true at starts
    rw [infinite] at starts
    cases starts

end Around

/-- The samples in order lie between the first and the last of them. -/
theorem between_of_pairwise {first : Point} {rest : List Point}
    (order : (first :: rest).Pairwise fun left right => left.x ≤ right.x)
    (numbers : ∀ point ∈ first :: rest, point.x ≤ point.x) :
    ∀ point ∈ first :: rest, first.x ≤ point.x ∧ point.x ≤ (rest.getLastD first).x := by
  induction rest generalizing first with
  | nil =>
    intro point member
    obtain rfl := List.mem_singleton.mp member
    exact ⟨numbers _ member, numbers _ member⟩
  | cons next rest ih =>
    obtain ⟨after, order⟩ := List.pairwise_cons.mp order
    obtain ⟨number, numbers⟩ := List.forall_mem_cons.mp numbers
    have between := ih order numbers
    have next_le := after next List.mem_cons_self
    rw [List.getLastD_cons]
    refine List.forall_mem_cons.mpr ⟨⟨number, ?_⟩, ?_⟩
    · exact le_trans next_le (between next List.mem_cons_self).2
    · intro point member
      exact ⟨after point member, (between point member).2⟩

/-- **The window around samples in order covers all that count**, and its bounds are in order. -/
theorem detectDomain_covers (usable : settings.IsUsable) {points : List Point}
    (order : points.Pairwise fun left right => left.x ≤ right.x)
    (finite : ∀ left ∈ points, ∀ right ∈ points, (right.x - left.x).isFinite = true) :
    let domain := settings.detectDomain points
    domain.lower ≤ domain.upper ∧ ∀ point ∈ points, settings.isNegligible point.y = false →
      domain.lower ≤ point.x ∧ point.x ≤ domain.upper := by
  intro domain
  cases some : settings.counting points with
  | nil =>
    have window : domain = settings.defaultDomain := detectDomain_of_nil some
    rw [window]
    refine ⟨usable.defaultDomain.2.2, ?_⟩
    intro point member counts
    rw [counting_eq_nil.mp some point member] at counts
    cases counts
  | cons first rest =>
    have window : domain = settings.around first.x (rest.getLastD first).x :=
      detectDomain_of_cons some
    have sublist : (first :: rest).Sublist points := by
      rw [← some]
      exact List.filter_sublist
    have numbers (point : Point) (member : point ∈ first :: rest) : point.x ≤ point.x := by
      have number :=
        isFinite_of_sub (finite point (sublist.subset member) point (sublist.subset member))
      exact le_refl (isNaN_of_isFinite number.1)
    have between := between_of_pairwise (order.sublist sublist) numbers
    have last : rest.getLastD first ∈ points := sublist.subset List.getLastD_mem_cons
    have outer := (between first List.mem_cons_self).2
    have covers := around_covers usable outer
      (finite first (sublist.subset List.mem_cons_self) _ last)
    rw [← window] at covers
    refine ⟨le_trans covers.1 (le_trans outer covers.2), ?_⟩
    intro point member counts
    have counted : point ∈ first :: rest := by
      rw [← some, counting, List.mem_filter, counts]
      exact ⟨member, rfl⟩
    obtain ⟨above, below⟩ := between point counted
    exact ⟨le_trans covers.1 above, le_trans below covers.2⟩

/-- Whether the samples that count, if any does, start at a finite place, and end a finite distance
behind it or are padded in proportion to their distance. -/
def IsSurroundable (settings : Settings) (points : List Point) : Prop :=
  ∀ first rest, settings.counting points = first :: rest → first.x.isFinite = true ∧
    (((rest.getLastD first).x - first.x).isFinite = true ∨ 0 < settings.paddingRatio)

/-- **When the window around samples in order has bounds.** Only the distances may be infinite here,
since all samples stand from some finite place on. -/
theorem detectDomain_ordered_iff (usable : settings.IsUsable) {points : List Point} {bound : Float}
    (finite : bound.isFinite = true) (above : ∀ point ∈ points, bound ≤ point.x)
    (order : points.Pairwise fun left right => left.x ≤ right.x) :
    let domain := settings.detectDomain points
    domain.lower ≤ domain.upper ↔ settings.IsSurroundable points := by
  intro domain
  unfold IsSurroundable
  cases some : settings.counting points with
  | nil =>
    have window : domain = settings.defaultDomain := detectDomain_of_nil some
    rw [window]
    exact iff_of_true usable.defaultDomain.2.2 nofun
  | cons first rest =>
    have window : domain = settings.around first.x (rest.getLastD first).x :=
      detectDomain_of_cons some
    have sublist : (first :: rest).Sublist points := by
      rw [← some]
      exact List.filter_sublist
    have number (point : Point) (member : point ∈ first :: rest) : point.x ≤ point.x :=
      le_refl (isNaN_of_le (above point (sublist.subset member))).2
    have outer := (between_of_pairwise (order.sublist sublist) number first List.mem_cons_self).2
    have low := above first (sublist.subset List.mem_cons_self)
    rw [window, around_ordered_iff usable finite low outer]
    constructor
    · rintro bounds _ _ ⟨⟩
      exact bounds
    · intro bounds
      exact bounds first rest rfl

/-- Without distances between the samples there is a window only if none of them counts. -/
theorem detectDomain_of_nan (usable : settings.IsUsable) {points : List Point}
    (nan : ∀ left ∈ points, ∀ right ∈ points, parts (right.x - left.x) = .notANumber) :
    let domain := settings.detectDomain points
    domain.lower ≤ domain.upper ↔ ∀ point ∈ points, settings.isNegligible point.y = true := by
  intro domain
  rw [← counting_eq_nil]
  cases some : settings.counting points with
  | nil =>
    have window : domain = settings.defaultDomain := detectDomain_of_nil some
    rw [window]
    exact iff_of_true usable.defaultDomain.2.2 rfl
  | cons first rest =>
    have window : domain = settings.around first.x (rest.getLastD first).x :=
      detectDomain_of_cons some
    have subset : first :: rest ⊆ points := by
      rw [← some]
      exact List.filter_sublist.subset
    have far := nan first (subset List.mem_cons_self) _ (subset List.getLastD_mem_cons)
    rw [window]
    exact iff_of_false (not_ordered_around (parts_padding_of_nan far)) (List.cons_ne_nil first rest)

end Settings

/-! ## Distances on a grid -/

section Distance

variable {range : Interval} {steps : ℕ}

/-- Whether the last place of a grid is a finite distance away from the lower bound. -/
def Spreads (range : Interval) (steps : ℕ) : Prop :=
  (gridPlace range (gridStep range steps) steps - range.lower).isFinite = true

/-- **A grid between bounds that are not near the end of all numbers spreads** over a finite
distance. -/
theorem spreads_of_reach_le (finite : range.lower.isFinite = true)
    (finite' : range.upper.isFinite = true) (order : value range.lower < value range.upper)
    (some : 0 < steps) (few : steps < 2 ^ 53) (near : 4 * range.reach ≤ value greatest) :
    Spreads range steps := by
  obtain ⟨_, _⟩ := abs_le.mp range.abs_lower_le
  obtain ⟨_, _⟩ := abs_le.mp range.abs_upper_le
  have spanned : range.IsSpanned :=
    ⟨order, (roundsTo_sub finite' finite).isFinite (abs_le.mpr ⟨by linarith, by linarith⟩)⟩
  have width := spanned.width_le
  have together := (abs_le.mp (abs_mul_gridStep_sub_le spanned some few)).2
  have least := mul_half_leastPositive_le few
  -- The steps together are a little more than half of the greatest number at most.
  have shift := roundsTo_shift spanned some few le_rfl
  have step := (isWithin_gridStep spanned some few).low_le
  have nonneg : 0 ≤ steps * value (gridStep range steps) := by positivity
  have shiftFinite := shift.isFinite (by rw [abs_of_nonneg nonneg]; linarith)
  obtain ⟨_, _⟩ := abs_le.mp (abs_shift_sub_le spanned some few le_rfl shiftFinite)
  have size : |value range.lower + value (Float.ofNat steps * gridStep range steps)| ≤
      value greatest := abs_le.mpr ⟨by linarith, by linarith⟩
  have last := (roundsTo_add finite shiftFinite).isFinite size
  obtain ⟨_, _⟩ := abs_le.mp (abs_add_sub_le last)
  exact (roundsTo_sub last finite).isFinite (abs_le.mpr ⟨by linarith, by linarith⟩)

section Overflow

variable (finite : range.lower.isFinite = true) (finite' : range.upper.isFinite = true)
  (order : value range.lower < value range.upper) (some : 0 < steps) (few : steps < 2 ^ 53)
  (overflow : (range.upper - range.lower).isFinite = false)

include finite finite' order some few overflow

/-- A range that is too wide has no finite step. -/
theorem parts_gridStep : parts (gridStep range steps) = .infinity .positive := by
  have width := (roundsTo_sub finite' finite).parts_eq_infinity (sub_pos.mpr order) overflow
  have count : 0 < value (Float.ofNat steps) := by
    rw [value_ofNat few]
    exact_mod_cast some
  obtain ⟨_, _, _, _, count⟩ := exists_parts_of_pos count
  exact parts_infinity_div width count

/-- The first place of a range that is too wide is a NaN. -/
theorem parts_gridPlace_zero : parts (gridPlace range (gridStep range steps) 0) = .notANumber :=
  parts_add_of_nan (parts_zero_mul_infinity parts_zero
    (parts_gridStep finite finite' order some few overflow))

/-- The places of a range that is too wide are a NaN and the infinity. -/
theorem parts_gridPlace {index : ℕ} (le : index ≤ steps) :
    parts (gridPlace range (gridStep range steps) index) = .notANumber ∨
      parts (gridPlace range (gridStep range steps) index) = .infinity .positive := by
  rcases Nat.eq_zero_or_pos index with rfl | positive
  · exact .inl (parts_gridPlace_zero finite finite' order some few overflow)
  · have count : 0 < value (Float.ofNat index) := by
      rw [value_ofNat (le.trans_lt few)]
      exact_mod_cast positive
    obtain ⟨_, _, _, _, count⟩ := exists_parts_of_pos count
    exact .inr (parts_add_infinity finite (parts_mul_infinity count
      (parts_gridStep finite finite' order some few overflow)))

/-- No two places of a range that is too wide have a distance. -/
theorem parts_gridPlace_sub {first second : ℕ} (le : first ≤ steps) (le' : second ≤ steps) :
    parts (gridPlace range (gridStep range steps) second -
      gridPlace range (gridStep range steps) first) = .notANumber := by
  rcases parts_gridPlace finite finite' order some few overflow le' with nan' | infinite'
  · exact parts_sub_of_nan_left nan'
  · rcases parts_gridPlace finite finite' order some few overflow le with nan | infinite
    · exact parts_sub_of_nan nan
    · exact parts_infinity_sub_infinity infinite' infinite

end Overflow

/-- A grid whose last place is a finite distance away has a finite width. -/
theorem Spreads.isSpanned (spreads : Spreads range steps) (some : 0 < steps) (few : steps < 2 ^ 53)
    (finite : range.upper.isFinite = true) (order : value range.lower < value range.upper) :
    range.IsSpanned := by
  refine ⟨order, ?_⟩
  by_contra overflow
  have overflow := Bool.eq_false_of_not_eq_true overflow
  obtain ⟨last, lower⟩ := isFinite_of_sub spreads
  have step := (isFinite_of_mul (isFinite_of_add last).2).2
  have infinite := parts_gridStep lower finite order some few overflow
  change (parts (gridStep range steps)).isFinite = true at step
  rw [infinite] at step
  cases step

/-- Then all places are finite distances apart. -/
theorem Spreads.isFinite_sub (spreads : Spreads range steps) (spanned : range.IsSpanned)
    (some : 0 < steps) (few : steps < 2 ^ 53) {first second : ℕ} (le : first ≤ steps)
    (le' : second ≤ steps) :
    (gridPlace range (gridStep range steps) second -
      gridPlace range (gridStep range steps) first).isFinite = true := by
  have last : steps ≤ steps := Nat.le_refl steps
  exact isFinite_sub_of_between spreads (lower_le_gridPlace spanned some few le)
    (gridPlace_le spanned some few le last) (lower_le_gridPlace spanned some few le')
    (gridPlace_le spanned some few le' last)

end Distance

/-! ## Windows of plots -/

/-- **The window of a plot has its bounds in order** when the grid of the search range spreads over
a finite distance, as it does between bounds up to a quarter of the greatest number. When the width
of the search range is not finite, the window has its bounds in order only if no sample counts. When
that width is finite, the last place may still be an infinity or an infinite distance away, and then
it depends on the samples that count whether the window has its bounds in order. -/
theorem Sampler.plot_domain_ordered (sampler : Sampler) (formula : String)
    (usable : sampler.settings.check = .ok ()) :
    let settings := sampler.settings
    let plot := (sampler.plot formula).value
    (4 * settings.search.reach ≤ value greatest →
        Spreads settings.search settings.searchSteps.toNat) ∧
      (Spreads settings.search settings.searchSteps.toNat →
        plot.domain.lower ≤ plot.domain.upper) ∧
      ((settings.search.upper - settings.search.lower).isFinite = false →
        (plot.domain.lower ≤ plot.domain.upper ↔
          ∀ point ∈ plot.points, settings.isNegligible point.y = true)) ∧
      ((settings.search.upper - settings.search.lower).isFinite = true →
        (plot.domain.lower ≤ plot.domain.upper ↔ settings.IsSurroundable plot.points)) := by
  intro settings plot
  have inRange := Settings.check_eq_ok.mp usable
  have some := inRange.searchSteps.1
  have few := inRange.searchSteps_lt
  have order := inRange.search_lt
  obtain ⟨lower, upper, _⟩ := inRange.search
  refine ⟨spreads_of_reach_le lower upper order some few, ?_⟩
  rcases sampler.value_plot usable formula with plotted | ⟨signal, plotted⟩
  · have same : plot = .empty settings.defaultDomain := plotted
    have ordered := inRange.defaultDomain.2.2
    rw [same]
    refine ⟨fun _ => ordered, fun _ => ?_, fun _ => iff_of_true ordered nofun⟩
    exact iff_of_true ordered fun _ member => (List.not_mem_nil member).elim
  · have same : plot = sampler.signalPlot signal := plotted
    rw [same]
    have ordered (spanned : settings.search.IsSpanned) : (sampler.signalPlot signal).points.Pairwise
        fun left right => left.x ≤ right.x :=
      pairwise_sampleGrid fun first second less le => gridPlace_le spanned some few less.le le
    refine ⟨?_, ?_, ?_⟩
    · intro spreads
      have spanned := spreads.isSpanned some few upper order
      refine (Settings.detectDomain_covers inRange (ordered spanned) ?_).1
      exact forall₂_mem_sampleGrid (fun x x' => (x' - x).isFinite = true) some
        fun first le second le' => spreads.isFinite_sub spanned some few le le'
    · intro overflow
      refine Settings.detectDomain_of_nan inRange ?_
      exact forall₂_mem_sampleGrid (fun x x' => parts (x' - x) = .notANumber) some
        fun first le second le' => parts_gridPlace_sub lower upper order some few overflow le le'
    · intro width
      have spanned : settings.search.IsSpanned := ⟨order, width⟩
      refine Settings.detectDomain_ordered_iff inRange lower ?_ (ordered spanned)
      exact forall_mem_sampleGrid (settings.search.lower ≤ ·) some
        fun index le => lower_le_gridPlace spanned some few le

theorem Sampler.plot_domain_ordered_rect :
    let domain := (({} : Sampler).plot "rect(f)").value.domain
    domain.lower ≤ domain.upper :=
  (Sampler.plot_domain_ordered {} "rect(f)" (by decide +kernel)).2.1
    (by unfold Spreads; decide +kernel)

/-- The search range from `-10 ^ 308` to `10 ^ 308`, in one step. -/
def wideSampler : Sampler :=
  (({} : Sampler).withSearch ⟨-1e308, 1e308⟩).withSearchSteps 1

/-- The width of such a search range overflows, so the window of a constant has no bounds. -/
theorem not_plot_domain_ordered :
    ¬ ∀ (sampler : Sampler) (formula : String), sampler.settings.check = .ok () →
      (sampler.plot formula).value.domain.lower ≤ (sampler.plot formula).value.domain.upper := by
  intro claim
  exact absurd (claim wideSampler "1" (by decide +kernel)) (by decide +kernel)

/-- The search range from zero to the greatest number, in three steps. These are a little longer
together, so the last place is the infinity though the width is finite. -/
def tallSampler : Sampler :=
  (({} : Sampler).withSearch ⟨0, greatest⟩).withSearchSteps 3

/-- What is only seen at the infinity has a window without bounds there, and a constant one from
infinity to infinity. -/
example :
    let search := tallSampler.settings.search
    let hidden := (tallSampler.plot "1 - rect(f) - rect(f/f - 1)").value
    let constant := (tallSampler.plot "1").value
    tallSampler.settings.check = .ok () ∧ (search.upper - search.lower).isFinite = true ∧
      hidden.domain.lower.isNaN = true ∧ constant.domain.lower ≤ constant.domain.upper := by
  decide +kernel

end Waveform
