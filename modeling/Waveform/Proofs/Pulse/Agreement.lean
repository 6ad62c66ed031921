import Waveform.Proofs.Pulse.Expanded
import Waveform.Proofs.Pulse.Kernels

/-!
# Formulas read in two ways

A formula that is read as pulses is a formula of the grammar too: each pulse is a call of its
shape at the shifted variable, divided by the width. The value of the phrase at every `x` is
the sum of the pulses at `x`, bit for bit (`parse_eval_eq_valueAt`).

There is one exception. A sign `+` in front of the whole formula belongs to the first pulse,
and to nothing in the grammar.
-/

set_option autoImplicit false

namespace Waveform.Pulse

open Formula Binary64

/-- Whether a pulse has an extent whose edges are found exactly. -/
structure IsExact (pulse : Pulse) : Prop where
  support : pulse.hasSupport = true
  wide : pulse.shape = .rect → leastWidth ≤ pulse.width

namespace Spelling

variable (spelling : Spelling)

/-! ## Spellings as phrases -/

/-- The variable with its offset. -/
def shifted : Phrase .sum :=
  match spelling.offset with
  | none => .single (.single (.plain (.letter spelling.letter spelling.known)))
  | some (op, number) =>
    .link (.single (.single (.plain (.letter spelling.letter spelling.known)))) op.val op.property
      (.single (.plain (.literal number)))

/-- The call of the shape at the shifted variable, divided by the width. -/
def call : Phrase .primary :=
  .call spelling.shape.function
    (.single (.link (.single (.plain (.group spelling.shifted))) .div rfl
      (.plain (.literal spelling.width))))

/-- The amplitude and the call, the first of them an operand as given. -/
def factors (first : Phrase .primary → Phrase .operand) : Phrase .product :=
  match spelling.amplitude with
  | none => .single (first spelling.call)
  | some number => .link (.single (first (.literal number))) .mul rfl (.plain spelling.call)

/-- The phrase of a spelling without its sign. -/
def unsigned : Phrase .product :=
  spelling.factors .plain

/-- The phrase of a spelling with the sign `-`. -/
def negated : Phrase .product :=
  spelling.factors fun only => .minus (.plain only)

theorem chars_shifted :
    spelling.shifted.chars = spelling.letter :: offsetChars spelling.offset := by
  unfold shifted
  split
  · next same =>
    rw [same]
    rfl
  · next same =>
    rw [same]
    rfl

theorem chars_call : spelling.call.chars = spelling.shape.name.toList ++
    '(' :: '(' :: spelling.letter :: offsetChars spelling.offset ++ ')' :: spelling.backChars := by
  simp [call, Phrase.chars, chars_shifted, Shape.name_function, backChars, BinaryOp.symbol]

theorem chars_unsigned :
    spelling.chars = signChars spelling.sign ++ spelling.unsigned.chars := by
  unfold unsigned factors
  split
  · next same =>
    simp [Phrase.chars, chars_call, chars, frontChars, amplitudeChars, same]
  · next same =>
    simp [Phrase.chars, chars_call, chars, frontChars, amplitudeChars, same, BinaryOp.symbol]

theorem chars_negated : spelling.negated.chars = '-' :: spelling.unsigned.chars := by
  unfold negated unsigned factors
  split <;> rfl

/-! ## Values -/

theorem abs_value_shifted (x : Float) :
    (spelling.shifted.value x).abs = (x - spelling.pulse.center).abs := by
  change _ = (x - (0 - offsetValue spelling.offset)).abs
  rw [abs_sub_zero_sub]
  unfold shifted
  split
  · next same =>
    rw [same]
    exact (abs_add_zero parts_zero x).symm
  · next op number same =>
    rw [same]
    obtain ⟨op, additive⟩ := op
    cases op with
    | add =>
      change (x + number.value).abs = (x + 1 * number.value).abs
      rw [Binary64.one_mul]
    | sub =>
      change (x - number.value).abs = (x + -1 * number.value).abs
      rw [Binary64.neg_one_mul, Binary64.sub_eq_add_neg]
    | mul | div => cases additive

/-- The call of an exact pulse has the value of the pulse without its amplitude. -/
theorem value_call (exact : spelling.pulse.IsExact) (x : Float) :
    spelling.call.value x =
      spelling.shape.kernel (x - spelling.pulse.center) spelling.width.value :=
  eval_div exact.support exact.wide (spelling.abs_value_shifted x)

/-- A pulse has the value of its factors, if the first of them takes over what the sign
stands for. -/
theorem valueAt_factors (exact : spelling.pulse.IsExact) {first : Phrase .primary → Phrase .operand}
    {x : Float} (scales : ∀ only, (first only).value x = signFactor spelling.sign * only.value x) :
    spelling.pulse.valueAt x = (spelling.factors first).value x := by
  change signedAmplitude spelling.sign spelling.amplitude *
    spelling.shape.kernel (x - spelling.pulse.center) spelling.width.value = _
  rw [← spelling.value_call exact]
  unfold factors
  split
  · next same =>
    rw [same, signedAmplitude, Option.elim_none]
    exact (scales _).symm
  · next number same =>
    rw [same, signedAmplitude, Option.elim_some]
    exact congrArg (· * _) (scales (.literal number)).symm

/-- A pulse without a sign, or with the sign `+`, has the value of its phrase. -/
theorem valueAt_unsigned (exact : spelling.pulse.IsExact) (plus : signFactor spelling.sign = 1)
    (x : Float) : spelling.pulse.valueAt x = spelling.unsigned.value x := by
  apply spelling.valueAt_factors exact
  intro only
  rw [plus, Binary64.one_mul]
  rfl

/-- A pulse with the sign `-` has the value of its phrase with the sign in front. -/
theorem valueAt_negated (exact : spelling.pulse.IsExact) (minus : signFactor spelling.sign = -1)
    (x : Float) : spelling.pulse.valueAt x = spelling.negated.value x := by
  apply spelling.valueAt_factors exact
  intro only
  rw [minus, Binary64.neg_one_mul]
  rfl

theorem value_negated (x : Float) : spelling.negated.value x = -spelling.unsigned.value x := by
  unfold negated unsigned factors
  split
  · rfl
  · exact Binary64.neg_mul _ _

/-- Joining a phrase by the sign of a spelling adds the pulse. -/
theorem apply_sign {op : AdditiveOp} (exact : spelling.pulse.IsExact)
    (sign : spelling.sign = some op) (before x : Float) :
    op.val.apply before (spelling.unsigned.value x) = before + spelling.pulse.valueAt x := by
  obtain ⟨op, additive⟩ := op
  cases op with
  | add =>
    rw [spelling.valueAt_unsigned exact (by rw [sign]; rfl)]
    rfl
  | sub =>
    rw [spelling.valueAt_negated exact (by rw [sign]; rfl), value_negated,
      ← Binary64.sub_eq_add_neg]
    rfl
  | mul | div => cases additive

end Spelling

/-! ## Sums -/

/-- Spellings with signs continue a sum, and their pulses are added to its value. -/
theorem exists_continued (before : Phrase .sum) {later : List Spelling}
    (exact : ∀ spelling ∈ later, spelling.pulse.IsExact)
    (signed : ∀ spelling ∈ later, spelling.sign ≠ none) :
    ∃ phrase : Phrase .sum, phrase.chars = before.chars ++ (later.map Spelling.chars).flatten ∧
      ∀ x, phrase.value x =
        ((later.map Spelling.pulse).map (·.valueAt x)).foldl (· + ·) (before.value x) := by
  induction later generalizing before with
  | nil => exact ⟨before, (List.append_nil _).symm, fun x => rfl⟩
  | cons spelling later ih =>
    obtain ⟨exact, exacts⟩ := List.forall_mem_cons.mp exact
    obtain ⟨some, signs⟩ := List.forall_mem_cons.mp signed
    obtain ⟨op, sign⟩ := Option.ne_none_iff_exists'.mp some
    obtain ⟨phrase, chars, value⟩ :=
      ih (.link before op.val op.property spelling.unsigned) exacts signs
    refine ⟨phrase, ?_, ?_⟩
    · have link : (Phrase.link before op.val op.property spelling.unsigned).chars =
          before.chars ++ op.val.symbol :: spelling.unsigned.chars := rfl
      rw [chars, link, List.map_cons, List.flatten_cons, spelling.chars_unsigned, sign, signChars,
        Option.elim_some]
      simp
    · intro x
      rw [value, List.map_cons, List.map_cons, List.foldl_cons]
      congr 1
      exact spelling.apply_sign exact sign _ x

/-- A row of spellings, all but the first with a sign and that without `+`, is a phrase with
the value of the sum of the pulses. -/
theorem exists_phrase {first : Spelling} {later : List Spelling}
    (exact : ∀ spelling ∈ first :: later, spelling.pulse.IsExact)
    (signed : ∀ spelling ∈ later, spelling.sign ≠ none)
    (notPlus : (first.chars ++ (later.map Spelling.chars).flatten).head? ≠ some '+') :
    ∃ phrase : Phrase .sum, phrase.chars = ((first :: later).map Spelling.chars).flatten ∧
      ∀ x, phrase.value x = sumAt ((first :: later).map Spelling.pulse) x := by
  obtain ⟨exact, exacts⟩ := List.forall_mem_cons.mp exact
  obtain ⟨start, chars, value⟩ : ∃ start : Phrase .product, start.chars = first.chars ∧
      ∀ x, start.value x = first.pulse.valueAt x := by
    cases sign : first.sign with
    | none =>
      refine ⟨first.unsigned, ?_, fun x =>
        (first.valueAt_unsigned exact (by rw [sign]; rfl) x).symm⟩
      rw [first.chars_unsigned, sign]
      rfl
    | some op =>
      obtain ⟨op, additive⟩ := op
      cases op with
      | add =>
        refine absurd ?_ notPlus
        rw [first.chars_unsigned, sign]
        rfl
      | sub =>
        refine ⟨first.negated, ?_, fun x =>
          (first.valueAt_negated exact (by rw [sign]; rfl) x).symm⟩
        rw [first.chars_negated, first.chars_unsigned, sign]
        rfl
      | mul | div => cases additive
  obtain ⟨phrase, chars', value'⟩ := exists_continued (.single start) exacts signed
  refine ⟨phrase, ?_, ?_⟩
  · rw [chars', List.map_cons, List.flatten_cons, ← chars]
    rfl
  · intro x
    rw [value', sumAt, List.map_cons, List.map_cons, List.foldl_cons, Binary64.negZero_add, ← value]
    rfl

end Waveform.Pulse

namespace Waveform

open Formula

/-- **A formula that is read as pulses without findings is read without findings as an
expression too, and the two have the same value everywhere**, unless the formula starts with
the sign `+` or a rectangle is too narrow to be halved. -/
theorem parse_eval_eq_valueAt {text : String}
    (nonempty : (parseClosedForm text).pulses ≠ [])
    (clean : (parseClosedForm text).diagnostics = [])
    (notPlus : (normalize text).toList.head? ≠ some '+')
    (wide : ∀ pulse ∈ (parseClosedForm text).pulses,
      pulse.shape = .rect → Pulse.leastWidth ≤ pulse.width) :
    ∃ depth nodes, ∀ limits : Limits, depth ≤ limits.depth → nodes ≤ limits.nodes →
      (parse text limits).diagnostics = [] ∧
        ∀ x, (parse text limits).expr.eval x = (parseClosedForm text).valueAt x := by
  obtain ⟨spellings, long, pulses, supports, signs⟩ := ClosedForm.exists_spellings clean
  have expands := ClosedForm.expands_normalChars text.toList
  rw [long] at expands
  obtain ⟨likes, short, samePulses, sameSigns⟩ := expands.exists_spellings
  have pulses : (parseClosedForm text).pulses = likes.map Pulse.Spelling.pulse :=
    pulses.trans samePulses.symm
  have exact : ∀ like ∈ likes, like.pulse.IsExact := by
    intro like member
    have pulse : like.pulse ∈ (parseClosedForm text).pulses := by
      rw [pulses]
      exact List.mem_map_of_mem member
    exact ⟨supports _ pulse, wide _ pulse⟩
  have signed : ∀ like ∈ likes.tail, like.sign ≠ none := by
    have each : ∀ sign ∈ likes.tail.map Pulse.Spelling.sign, sign ≠ none := by
      rw [List.map_tail, sameSigns, ← List.map_tail]
      exact List.forall_mem_map.mpr signs
    exact fun like member => each _ (List.mem_map_of_mem member)
  rw [normalize, String.toList_ofList, short] at notPlus
  cases likes with
  | nil => exact absurd pulses nonempty
  | cons first later =>
    obtain ⟨phrase, chars, value⟩ := Pulse.exists_phrase exact signed notPlus
    refine ⟨phrase.nesting, phrase.charge, ?_⟩
    intro limits depth nodes
    have derives : phrase.Derives (Text.normalChars text.toList) limits :=
      ⟨chars.trans short.symm, depth, nodes⟩
    rw [parse_eq, readAll_of_derives derives]
    refine ⟨rfl, ?_⟩
    intro x
    rw [phrase.eval_tree, value, ← pulses]
    rfl

theorem parse_eval_eq_valueAt_two_pulses :
    let text := "-2.5*Rect((F)/.5) - tri((t + 1.) / 3)"
    (parseClosedForm text).pulses ≠ [] ∧ (parseClosedForm text).diagnostics = [] ∧
      (normalize text).toList.head? ≠ some '+' ∧
      (∀ pulse ∈ (parseClosedForm text).pulses,
        pulse.shape = .rect → Pulse.leastWidth ≤ pulse.width) ∧
      ∃ depth nodes, ∀ limits : Limits, depth ≤ limits.depth → nodes ≤ limits.nodes →
        (parse text limits).diagnostics = [] ∧
          ∀ x, (parse text limits).expr.eval x = (parseClosedForm text).valueAt x := by
  intro text
  have nonempty : (parseClosedForm text).pulses ≠ [] := by decide +kernel
  have clean : (parseClosedForm text).diagnostics = [] := by decide +kernel
  have notPlus : (normalize text).toList.head? ≠ some '+' := by decide +kernel
  have wide : ∀ pulse ∈ (parseClosedForm text).pulses,
      pulse.shape = .rect → Pulse.leastWidth ≤ pulse.width := by decide +kernel
  exact ⟨nonempty, clean, notPlus, wide, parse_eval_eq_valueAt nonempty clean notPlus wide⟩

end Waveform
