import Waveform.Proofs.Float.Value
import Waveform.Proofs.Pulse.Spelled

/-!
# Which summands are pulses

A summand is read as a pulse exactly when it is spelled like one and its width is a positive finite
number. What is spelled differently is unrecognized, and what is spelled like a pulse with another
width is degenerate; either finding names the whole summand (`ofSummand_reads_spellings`).

The pulse that is read is the one that the spelling describes (`Spelling.pulse_eq_described`). Its
numbers are computed from the signs by products and differences with one and zero, and these
computations are exact: a number only takes on its sign, and no center is the negative zero.
-/

set_option autoImplicit false

namespace Waveform.Pulse

open Formula Binary64 Float.Model

/-! ## Signs -/

/-- A number with a sign in front of it. -/
def AdditiveOp.signed (op : AdditiveOp) (x : Float) : Float :=
  match op.val with
  | .sub => -x
  | _ => x

/-- The factor of a sign gives a number that sign. -/
theorem AdditiveOp.factor_mul (op : AdditiveOp) (x : Float) : op.factor * x = op.signed x := by
  obtain ⟨op, additive⟩ := op
  cases op with
  | add => exact Binary64.one_mul x
  | sub => exact Binary64.neg_one_mul x
  | mul | div => cases additive

/-- The factor of a sign is one with that sign. -/
theorem AdditiveOp.factor_eq (op : AdditiveOp) : op.factor = op.signed 1 := by
  obtain ⟨op, additive⟩ := op
  cases op with
  | add | sub => rfl
  | mul | div => cases additive

/-- With a sign, only a zero becomes a zero. -/
theorem AdditiveOp.exists_parts_signed_iff (op : AdditiveOp) {x : Float} :
    (∃ sign, parts (op.signed x) = .zero sign) ↔ ∃ sign, parts x = .zero sign := by
  obtain ⟨op, additive⟩ := op
  cases op with
  | add => rfl
  | sub =>
    change (∃ sign, parts (-x) = .zero sign) ↔ _
    rw [parts_neg]
    cases parts x <;> simp [UnpackedFloat.neg]
  | mul | div => cases additive

/-! ## Described pulses -/

namespace Spelling

/-- The pulse that a spelling describes. Its amplitude is the number in front of the `*`, or one,
with the sign that starts the spelling. Its center is the offset with the other sign, and the
positive zero if there is no offset or the offset is a zero. Its width is the number behind the
`/`. -/
def described (spelling : Spelling) : Pulse where
  amplitude :=
    let magnitude := spelling.amplitude.elim 1 Literal.value
    spelling.sign.elim magnitude fun op => op.signed magnitude
  shape := spelling.shape
  center := spelling.offset.elim 0 fun (op, number) =>
    if number.value == 0 then 0 else -op.signed number.value
  width := spelling.width.value

theorem signedAmplitude_eq (sign : Option AdditiveOp) (amplitude : Option Literal) :
    signedAmplitude sign amplitude =
      sign.elim (amplitude.elim 1 Literal.value) fun op =>
        op.signed (amplitude.elim 1 Literal.value) := by
  cases amplitude with
  | none =>
    cases sign with
    | none => rfl
    | some op => exact op.factor_eq
  | some number =>
    cases sign with
    | none => exact Binary64.one_mul number.value
    | some op => exact op.factor_mul number.value

theorem zero_sub_offsetValue (offset : Option (AdditiveOp × Literal)) :
    0 - offsetValue offset = offset.elim 0 fun (op, number) =>
      if number.value == 0 then 0 else -op.signed number.value := by
  cases offset with
  | none => exact Binary64.zero_sub_zero parts_zero
  | some offset =>
    obtain ⟨op, number⟩ := offset
    change 0 - op.factor * number.value = if number.value == 0 then 0 else -op.signed number.value
    have same : (op.signed number.value == 0) = (number.value == 0) := by
      rw [Bool.eq_iff_iff, beq_zero_iff, beq_zero_iff, op.exists_parts_signed_iff]
    rw [op.factor_mul, zero_sub_eq, same]

/-- **The pulse that is read is the one that is described.** -/
theorem pulse_eq_described (spelling : Spelling) : spelling.pulse = spelling.described := by
  unfold pulse described
  rw [signedAmplitude_eq, zero_sub_offsetValue]

end Spelling

/-! ## Summands -/

/-- What is spelled like a pulse is read as that pulse, or degenerate. -/
theorem ofSummand_chars (spelling : Spelling) : ofSummand spelling.chars =
    if 0 < spelling.width.value ∧ spelling.width.value.isFinite = true then .ok spelling.described
    else .error (.degeneratePulse (String.ofList spelling.chars)) := by
  have support : spelling.described.hasSupport = true ↔
      0 < spelling.width.value ∧ spelling.width.value.isFinite = true := by
    rw [hasSupport, Bool.and_eq_true, decide_eq_true_eq]
    rfl
  simp only [ofSummand, spelled?_chars, support, spelling.pulse_eq_described]

/-- What is spelled differently is unrecognized. -/
theorem ofSummand_of_not_spelled {term : List Char}
    (other : ∀ spelling : Spelling, spelling.chars ≠ term) :
    ofSummand term = .error (.unrecognizedTerm (String.ofList term)) := by
  have none : spelled? term = none := by
    rw [Option.eq_none_iff_forall_ne_some]
    intro pulse found
    obtain ⟨spelling, same, _⟩ := exists_of_spelled? found
    exact other spelling same.symm
  rw [ofSummand, none]

/-- **A summand is recognized exactly when it is a spelling**, and then it is the pulse that the
spelling describes if the width is a positive finite number, and degenerate otherwise. A finding
names the whole summand. The numbers in a spelling are the floating-point numbers nearest to their
decimals. -/
theorem ofSummand_reads_spellings (term : List Char) :
    ((∃ spelling : Spelling, spelling.chars = term) ↔
        ∀ text, ofSummand term ≠ .error (.unrecognizedTerm text)) ∧
      (∀ spelling : Spelling, spelling.chars = term → ofSummand term =
        if 0 < spelling.width.value ∧ spelling.width.value.isFinite = true then
          .ok spelling.described
        else .error (.degeneratePulse (String.ofList term))) ∧
      (∀ finding, ofSummand term = .error finding → finding.text? = some (String.ofList term)) ∧
      ∀ literal : Literal, IsRounded literal.decimal literal.value := by
  by_cases spelled : ∃ spelling : Spelling, spelling.chars = term
  · obtain ⟨spelling, rfl⟩ := spelled
    have read := ofSummand_chars spelling
    refine ⟨iff_of_true ⟨spelling, rfl⟩ ?_, ?_, ?_, Literal.value_isRounded⟩
    · intro text
      rw [read]
      split <;> nofun
    · intro other same
      rw [← same, ofSummand_chars other]
    · intro finding found
      rw [read] at found
      split at found
      · cases found
      · cases found
        rfl
  · have read := ofSummand_of_not_spelled (not_exists.mp spelled)
    refine ⟨iff_of_false spelled ?_, ?_, ?_, Literal.value_isRounded⟩
    · intro known
      exact known _ read
    · intro spelling same
      exact absurd ⟨spelling, same⟩ spelled
    · intro finding found
      rw [read] at found
      cases found
      rfl

/-- A summand with all its parts. -/
theorem ofSummand_reads_spellings_shifted :
    let two : Literal := ⟨['2'], some [], by simp, by simp, by simp⟩
    let half : Literal := ⟨[], some ['5'], by simp, by simp, by simp⟩
    let four : Literal := .ofDigit '4' rfl
    let spelling : Spelling :=
      ⟨some ⟨.sub, rfl⟩, some two, .tri, 't', .inr rfl, some (⟨.add, rfl⟩, half), four⟩
    let term := "-2.*tri((t+.5)/4)".toList
    spelling.chars = term ∧ (0 < four.value ∧ four.value.isFinite = true) ∧
      ofSummand term = .ok spelling.described := by
  intro two half four spelling term
  have same : spelling.chars = term := by decide
  have support : 0 < four.value ∧ four.value.isFinite = true := by decide +kernel
  have read := (ofSummand_reads_spellings term).2.1 spelling same
  exact ⟨same, support, read.trans (if_pos support)⟩

end Waveform.Pulse
