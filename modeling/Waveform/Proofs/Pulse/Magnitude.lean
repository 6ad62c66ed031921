import Waveform.Proofs.Float.Zeros
import Waveform.Proofs.Pulse.Kernels
import Waveform.Proofs.Pulse.Spelled

/-!
# The magnitude of sums of pulses

A pulse is at most as large as its amplitude, wherever it is taken. So a sum of pulses is finite
everywhere when the sum of the magnitudes of their amplitudes is, taken in the same order. An
amplitude that is not finite, on the other hand, leaves the sum finite nowhere, not even outside
of the pulse.

Where finite amplitudes add up to an infinity, it matters which pulses are seen at a place, that is
are not zero there (`Pulse.AddsUpAt`). One that is seen alone is finite, and several are as long as
no sum on the way overflows. Rectangles above zero do overflow when their amplitudes do.
-/

set_option autoImplicit false

namespace Waveform

open Binary64 Float.Model Float.Model.UnpackedFloat

/-! ## Kernels -/

namespace Pulse

variable {pulse : Pulse} {x : Float}

/-- **The kernel of a pulse with support lies within zero and one**, also at infinities and at
NaN. -/
theorem isWithin_kernel (support : pulse.hasSupport = true) (x : Float) :
    IsWithin 0 1 (pulse.shape.kernel x pulse.width) := by
  have zero : IsWithin 0 1 (0 : Float) := ⟨isFinite_zero, by simp, by simp⟩
  have one : IsWithin 0 1 (1 : Float) := ⟨isFinite_one, by simp, by simp⟩
  cases pulse.shape with
  | rect =>
    change IsWithin 0 1 (Kernel.rect x pulse.width)
    unfold Kernel.rect
    split
    · exact one
    · exact zero
  | tri =>
    change IsWithin 0 1 (Kernel.tri x pulse.width)
    unfold Kernel.tri
    split
    · next inside =>
      have width := width_pos support
      have size := isWithin_of_abs_le (isFinite_width support) inside
      have finite : x.abs.isFinite = true := by rw [isFinite_abs, size.finite]
      have quotient := roundsTo_div finite (isFinite_width support) width.ne'
      rw [value_abs] at quotient
      have ratio := quotient.isWithin_one (div_nonneg (abs_nonneg _) width.le)
        ((div_le_one₀ width).mpr (abs_le.mpr ⟨size.low_le, size.le_high⟩))
      have rest := roundsTo_sub isFinite_one ratio.finite
      rw [value_one] at rest
      exact rest.isWithin_one (by linarith [ratio.le_high]) (by linarith [ratio.low_le])
    · exact zero

/-- **A pulse is at most as large as its amplitude.** -/
theorem isWithin_valueAt (support : pulse.hasSupport = true)
    (finite : pulse.amplitude.isFinite = true) (x : Float) :
    IsWithin (-|value pulse.amplitude|) |value pulse.amplitude| (pulse.valueAt x) := by
  obtain ⟨kernelFinite, low, high⟩ := isWithin_kernel support (x - pulse.center)
  rw [← value_abs]
  have finite' : pulse.amplitude.abs.isFinite = true := by rwa [isFinite_abs]
  refine (roundsTo_mul finite kernelFinite).isWithin_of_abs_le (roundsTo_value finite') finite' ?_
  rw [value_abs, abs_mul, abs_of_nonneg low]
  exact mul_le_of_le_one_right (abs_nonneg _) high

theorem valueAt_of_kernel_zero (finite : pulse.amplitude.isFinite = true)
    (zero : (pulse.shape.kernel (x - pulse.center) pulse.width == 0) = true) :
    (pulse.valueAt x == 0) = true := by
  obtain ⟨sign, same⟩ := beq_zero_iff.mp zero
  have product := roundsTo_mul finite (congrArg UnpackedFloat.isFinite same)
  rw [value_of_parts_zero same, mul_zero] at product
  exact beq_zero_of_rounds product

theorem valueAt_of_kernel_one (one : pulse.shape.kernel (x - pulse.center) pulse.width = 1) :
    pulse.valueAt x = pulse.amplitude := by
  rw [valueAt, one, Binary64.mul_comm, Binary64.one_mul]

/-! ## Sums -/

/-- The sum of the magnitudes of the amplitudes, in the order of the pulses. -/
def totalAmplitude (pulses : List Pulse) : Float :=
  (pulses.map (·.amplitude.abs)).foldl (· + ·) (-0.0)

end Pulse

/-- A sum is finite only if all of its items are. -/
theorem Binary64.isFinite_of_foldl_add {items : List Float} {start : Float}
    (finite : (items.foldl (· + ·) start).isFinite = true) :
    start.isFinite = true ∧ ∀ item ∈ items, item.isFinite = true := by
  induction items generalizing start with
  | nil => exact ⟨finite, fun item member => (List.not_mem_nil member).elim⟩
  | cons item items ih =>
    obtain ⟨sum, rest⟩ := ih finite
    obtain ⟨first, second⟩ := isFinite_of_add sum
    exact ⟨first, List.forall_mem_cons.mpr ⟨second, rest⟩⟩

/-- A sum of zeros is a zero. -/
theorem Binary64.isWithin_foldl_zero {items : List Float} {start : Float}
    (within : IsWithin 0 0 start) (zeros : ∀ item ∈ items, IsWithin 0 0 item) :
    IsWithin 0 0 (items.foldl (· + ·) start) := by
  induction items generalizing start with
  | nil => exact within
  | cons item items ih =>
    obtain ⟨zero, zeros⟩ := List.forall_mem_cons.mp zeros
    have none : value start + value item = 0 := by
      linarith [within.low_le, within.le_high, zero.low_le, zero.le_high]
    have rounds := roundsTo_add within.finite zero.finite
    rw [none] at rounds
    exact ih rounds.isWithin_zero zeros

namespace Pulse

/-- What the sum of the pulses adds to a number is bounded by what the sum of the magnitudes
adds to a bound of that number. -/
theorem isWithin_foldl {pulses : List Pulse} (support : ∀ pulse ∈ pulses, pulse.hasSupport = true)
    (x : Float) {start bound : Float} (within : IsWithin (-value bound) (value bound) start)
    (finite : ((pulses.map (·.amplitude.abs)).foldl (· + ·) bound).isFinite = true) :
    IsWithin (-value ((pulses.map (·.amplitude.abs)).foldl (· + ·) bound))
      (value ((pulses.map (·.amplitude.abs)).foldl (· + ·) bound))
      ((pulses.map (·.valueAt x)).foldl (· + ·) start) := by
  induction pulses generalizing start bound with
  | nil => exact within
  | cons pulse pulses ih =>
    obtain ⟨support, supports⟩ := List.forall_mem_cons.mp support
    have finite : ((pulses.map (·.amplitude.abs)).foldl (· + ·)
        (bound + pulse.amplitude.abs)).isFinite = true := finite
    have sumFinite := (isFinite_of_foldl_add finite).1
    obtain ⟨boundFinite, amplitudeFinite⟩ := isFinite_of_add sumFinite
    have added := isWithin_valueAt support (by rwa [isFinite_abs] at amplitudeFinite) x
    refine ih supports ?_ finite
    -- Both sums are rounded, and rounding keeps their order.
    have sum := roundsTo_add within.finite added.finite
    have boundSum := roundsTo_add boundFinite amplitudeFinite
    refine sum.isWithin_of_abs_le boundSum sumFinite ?_
    rw [value_abs]
    have low := added.low_le
    have high := added.le_high
    exact abs_le.mpr ⟨by linarith [within.low_le], by linarith [within.le_high]⟩

/-- A sum of pulses is at most as large as the sum of the magnitudes of their amplitudes. -/
theorem isWithin_sumAt {pulses : List Pulse} (support : ∀ pulse ∈ pulses, pulse.hasSupport = true)
    (finite : (totalAmplitude pulses).isFinite = true) (x : Float) :
    IsWithin (-value (totalAmplitude pulses)) (value (totalAmplitude pulses)) (sumAt pulses x) := by
  refine isWithin_foldl support x ?_ finite
  have zero : value (-0.0) = 0 := value_of_parts_zero parts_negZero
  have start := (RoundsTo.of_zero parts_negZero).isWithin_zero
  rwa [zero, neg_zero]

/-- Where an amplitude is not finite, the sum is not. -/
theorem not_isFinite_sumAt {pulses : List Pulse} {pulse : Pulse} (member : pulse ∈ pulses)
    (infinite : pulse.amplitude.isFinite = false) (x : Float) :
    (sumAt pulses x).isFinite = false := by
  by_contra finite
  have finite := Bool.eq_true_of_not_eq_false finite
  have values := (isFinite_of_foldl_add finite).2
  have value := values (pulse.valueAt x) (List.mem_map_of_mem member)
  rw [(isFinite_of_mul value).1] at infinite
  cases infinite

/-- A kernel is zero at a NaN. -/
theorem kernel_of_isNaN (shape : Shape) {x : Float} (nan : x.isNaN = true) (width : Float) :
    shape.kernel x width = 0 := by
  refine Shape.kernel_of_outside fun inside => ?_
  rw [← isNaN_abs, (isNaN_of_le inside).1] at nan
  cases nan

/-- Pulses with finite amplitudes add up to a zero at a NaN. -/
theorem isFinite_sumAt_of_isNaN {pulses : List Pulse}
    (finite : ∀ pulse ∈ pulses, pulse.amplitude.isFinite = true) {x : Float}
    (nan : parts x = .notANumber) : (sumAt pulses x).isFinite = true := by
  have zeros : ∀ item ∈ pulses.map (·.valueAt x), IsWithin 0 0 item := by
    refine List.forall_mem_map.mpr ?_
    intro pulse member
    have distance : (x - pulse.center).isNaN = true := by
      change (parts (x - pulse.center)).isNaN = true
      rw [parts_sub_of_nan_left nan]
      rfl
    have rounds := roundsTo_mul (finite pulse member) isFinite_zero
    rw [value_zero, Rat.mul_zero] at rounds
    rw [valueAt, kernel_of_isNaN pulse.shape distance]
    exact rounds.isWithin_zero
  exact (isWithin_foldl_zero (RoundsTo.of_zero parts_negZero).isWithin_zero zeros).finite

/-! ## Pulses that are seen -/

/-- The pulses that are not zero at a place. -/
def seenAt (pulses : List Pulse) (x : Float) : List Pulse :=
  pulses.filter fun pulse => !(pulse.valueAt x == 0)

variable {pulse : Pulse} {pulses : List Pulse} {x : Float}

/-- What is not seen adds at most the sign of a zero. -/
theorem sameButForZeros_sumAt (pulses : List Pulse) (x : Float) :
    SameButForZeros (sumAt pulses x) (sumAt (seenAt pulses x) x) := by
  have seen : (seenAt pulses x).map (·.valueAt x) =
      (pulses.map (·.valueAt x)).filter fun value => !(value == 0) := by
    rw [List.filter_map]
    rfl
  unfold sumAt
  rw [seen]
  exact .foldl_filter _ (.inl rfl)

/-- A sum is finite exactly if no sum on the way to it overflows. -/
theorem isFinite_sumAt_iff : (sumAt pulses x).isFinite = true ↔
    ∀ front, front <+: pulses → (sumAt front x).isFinite = true := by
  constructor
  · rintro finite _ ⟨back, rfl⟩
    rw [sumAt, List.map_append, List.foldl_append] at finite
    exact (isFinite_of_foldl_add finite).1
  · intro fronts
    exact fronts pulses (List.prefix_refl pulses)

/-- A rectangle that is seen has the height of its amplitude. -/
theorem valueAt_of_rect (rect : pulse.shape = .rect) (finite : pulse.amplitude.isFinite = true)
    (seen : (pulse.valueAt x == 0) = false) : pulse.valueAt x = pulse.amplitude := by
  refine valueAt_of_kernel_one ?_
  by_cases inside : (x - pulse.center).abs ≤ pulse.shape.reach pulse.width
  · rw [rect] at inside ⊢
    exact if_pos inside
  · have zero : (pulse.shape.kernel (x - pulse.center) pulse.width == 0) = true := by
      rw [Shape.kernel_of_outside inside]
      rfl
    rw [valueAt_of_kernel_zero finite zero] at seen
    cases seen

/-- How pulses add up at a place, by those that are seen there. -/
structure AddsUpAt (pulses : List Pulse) (x : Float) : Prop where
  /-- The value is at most the sum of the magnitudes of their amplitudes, if that is finite. -/
  bounded : (totalAmplitude (seenAt pulses x)).isFinite = true → (sumAt pulses x).isFinite = true ∧
    |value (sumAt pulses x)| ≤ value (totalAmplitude (seenAt pulses x))
  /-- Pulses that do not overlap there have a finite value. -/
  alone : (seenAt pulses x).length ≤ 1 → (sumAt pulses x).isFinite = true
  /-- Pulses that overlap have one if no sum on the way overflows. -/
  overlapping : (sumAt pulses x).isFinite = true ↔
    ∀ front, front <+: seenAt pulses x → (sumAt front x).isFinite = true
  /-- For rectangles above zero this means that the sum of their amplitudes is finite. -/
  rectangles : (∀ pulse ∈ seenAt pulses x, pulse.shape = .rect ∧ 0 < pulse.amplitude) →
    (sumAt pulses x).isFinite = (totalAmplitude (seenAt pulses x)).isFinite

/-- **Pulses with support and finite amplitudes add up** by those that are seen. -/
theorem addsUpAt (support : ∀ pulse ∈ pulses, pulse.hasSupport = true)
    (finite : ∀ pulse ∈ pulses, pulse.amplitude.isFinite = true) (x : Float) :
    AddsUpAt pulses x := by
  have same := sameButForZeros_sumAt pulses x
  have among (pulse : Pulse) (member : pulse ∈ seenAt pulses x) : pulse ∈ pulses :=
    (List.mem_filter.mp member).1
  refine ⟨fun total => ?_, fun few => ?_, ?_, fun positive => ?_⟩
  · have within := isWithin_sumAt (fun pulse member => support pulse (among pulse member)) total x
    rw [same.isFinite_eq, same.value_eq]
    exact ⟨within.finite, abs_le.mpr ⟨within.low_le, within.le_high⟩⟩
  · rw [same.isFinite_eq]
    cases seen : seenAt pulses x with
    | nil => exact congrArg UnpackedFloat.isFinite parts_negZero
    | cons pulse more =>
      obtain rfl : more = [] := List.eq_nil_of_length_eq_zero (by simpa [seen] using few)
      have member := among pulse (by rw [seen]; exact List.mem_singleton_self pulse)
      have value : sumAt [pulse] x = pulse.valueAt x := negZero_add _
      rw [value]
      exact (isWithin_valueAt (support pulse member) (finite pulse member) x).finite
  · rw [same.isFinite_eq, isFinite_sumAt_iff]
  · have heights :
        (seenAt pulses x).map (·.valueAt x) = (seenAt pulses x).map (·.amplitude.abs) := by
      refine List.map_congr_left fun pulse member => ?_
      obtain ⟨rect, above⟩ := positive pulse member
      have finite := finite pulse (among pulse member)
      have seen : (pulse.valueAt x == 0) = false := by simpa using (List.mem_filter.mp member).2
      rw [valueAt_of_rect rect finite seen,
        Binary64.abs_of_pos ((zero_lt_iff_value finite).mp above)]
    rw [same.isFinite_eq, sumAt, heights, totalAmplitude]

/-- Two rectangles of the height `10 ^ 308` overflow where they overlap, and only there. -/
example :
    let pulses : List Pulse := [⟨1e308, .rect, 0, 2⟩, ⟨1e308, .rect, 1, 2⟩]
    (sumAt pulses 0.5).isFinite = false ∧ (sumAt pulses (-0.5)).isFinite = true ∧
      (sumAt pulses 5).isFinite = true := by
  decide +kernel

end Pulse

namespace ClosedForm

/-- The pulses of a formula have support. -/
theorem hasSupport_of_mem {formula : String} {pulse : Pulse}
    (member : pulse ∈ (parseClosedForm formula).pulses) : pulse.hasSupport = true := by
  obtain ⟨reading, among, read⟩ := List.mem_filterMap.mp member
  obtain ⟨term, _, rfl⟩ := List.mem_map.mp among
  cases same : Pulse.ofSummand term with
  | error finding =>
    rw [same] at read
    cases read
  | ok other =>
    rw [same] at read
    cases read
    obtain ⟨_, _, _, support⟩ := exists_of_ofSummand same
    exact support

end ClosedForm

/-- **A sum of pulses that a formula spells is finite everywhere** if the sum of the magnitudes
of the amplitudes is, and then it is at most as large. It is finite nowhere if one of the
amplitudes is not. In between, if all amplitudes are finite but their sum may not be, it depends on
the pulses that are seen at a place. -/
theorem parseClosedForm_valueAt_isFinite (formula : String) (x : Float) :
    ((Pulse.totalAmplitude (parseClosedForm formula).pulses).isFinite = true →
      ((parseClosedForm formula).valueAt x).isFinite = true ∧
        |value ((parseClosedForm formula).valueAt x)| ≤
          value (Pulse.totalAmplitude (parseClosedForm formula).pulses)) ∧
    ((∃ pulse ∈ (parseClosedForm formula).pulses, pulse.amplitude.isFinite = false) →
      ((parseClosedForm formula).valueAt x).isFinite = false) ∧
    ((∀ pulse ∈ (parseClosedForm formula).pulses, pulse.amplitude.isFinite = true) →
      Pulse.AddsUpAt (parseClosedForm formula).pulses x) := by
  refine ⟨?_, ?_, fun finite => Pulse.addsUpAt (fun _ => ClosedForm.hasSupport_of_mem) finite x⟩
  · intro finite
    have within :=
      Pulse.isWithin_sumAt (fun _ member => ClosedForm.hasSupport_of_mem member) finite x
    exact ⟨within.finite, abs_le.mpr ⟨within.low_le, within.le_high⟩⟩
  · rintro ⟨pulse, member, infinite⟩
    exact Pulse.not_isFinite_sumAt member infinite x

theorem parseClosedForm_valueAt_isFinite_two_pulses :
    ((parseClosedForm "2*tri((f-3)/4)-rect((f)/2)").valueAt 2.5).isFinite = true :=
  ((parseClosedForm_valueAt_isFinite "2*tri((f-3)/4)-rect((f)/2)" 2.5).1 (by decide +kernel)).1

/-- The text `10…0*rect((f)/2)`, which spells a rectangle of the height `10 ^ 309`. -/
def highRectangle : List Char :=
  '1' :: (List.replicate 309 '0' ++ ['*', 'r', 'e', 'c', 't', '(', '(', 'f', ')', '/', '2', ')'])

/-- The height is beyond all finite numbers. -/
theorem any_highRectangle :
    (parseClosedForm (String.ofList highRectangle)).pulses.any (!·.amplitude.isFinite) = true := by
  rw [parseClosedForm, String.toList_ofList]
  decide +kernel

/-- An amplitude beyond all finite numbers leaves no finite value even at `5`, which lies outside
of the rectangle. -/
theorem exists_valueAt_not_isFinite :
    ¬ ∀ (formula : String) (x : Float), x.isFinite = true →
      ((parseClosedForm formula).valueAt x).isFinite = true := by
  intro claim
  obtain ⟨pulse, member, infinite⟩ := List.any_eq_true.mp any_highRectangle
  have infinite : pulse.amplitude.isFinite = false := by simpa using infinite
  have none := Pulse.not_isFinite_sumAt member infinite 5
  have finite := claim (String.ofList highRectangle) 5 (by decide)
  rw [ClosedForm.valueAt, none] at finite
  cases finite

end Waveform
