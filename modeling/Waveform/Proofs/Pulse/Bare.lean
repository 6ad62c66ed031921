import Waveform.Proofs.Pulse.Operands
import Waveform.Proofs.Text.Settled

/-!
# Bare variables are a matter of spelling

The offset zero is written into the bare variables of a formula before it is brought into normal
form, so that a blank or a line break inside of the parentheses keeps it out. That makes no
difference: the formula, its normal form, and the normal form without any offset written into it
are all recognized alike (`parseClosedForm_agrees`). They have the same pulses, and leave findings
of the same kinds in the same order. Only the texts that the findings name differ.

All three are expansions of the normal form (`Expands`). An expansion has as many summands, each an
expansion of the other's, and a summand is recognized as what it is expanded to
(`Expands.rejection?_eq`).
-/

set_option autoImplicit false

namespace Waveform.ClosedForm

open Pulse

/-- Whether two readings recognize the same: the same pulses, and in the same order findings of the
same kinds. -/
structure Agrees (first second : ClosedForm) : Prop where
  pulses : first.pulses = second.pulses
  kinds : first.diagnostics.map Diagnostic.kind = second.diagnostics.map Diagnostic.kind

theorem Agrees.symm {first second : ClosedForm} (agrees : first.Agrees second) :
    second.Agrees first :=
  ⟨agrees.pulses.symm, agrees.kinds.symm⟩

theorem Agrees.trans {first second third : ClosedForm} (left : first.Agrees second)
    (right : second.Agrees third) : first.Agrees third :=
  ⟨left.pulses.trans right.pulses, left.kinds.trans right.kinds⟩

/-- What kind of finding a summand leaves, if it is no pulse. -/
def rejection? (term : List Char) : Option Diagnostic.Kind :=
  match ofSummand term with
  | .ok _ => none
  | .error finding => some finding.kind

/-- A finding about a summand says that it is spelled like no pulse, or like one without support. -/
theorem rejection?_eq (term : List Char) : rejection? term =
    (spelled? term).elim (some .unrecognizedTerm) fun pulse =>
      if pulse.hasSupport then none else some .degeneratePulse := by
  unfold rejection? ofSummand
  cases spelled? term with
  | none => rfl
  | some pulse =>
    dsimp only [Option.elim_some]
    cases pulse.hasSupport <;> rfl

/-- The findings about a formula in normal form are those about its summands. -/
theorem kinds_ofNormal (text : List Char) :
    (ofNormal text).diagnostics.map Diagnostic.kind = (summands text).filterMap rejection? := by
  simp only [ofNormal, List.filterMap_map, List.map_filterMap]
  congr 1
  funext term
  rw [Function.comp, rejection?]
  cases ofSummand term <;> rfl

/-- Written offsets do not change why a summand is rejected. -/
theorem Expands.rejection?_eq {short long : List Char} (expands : Expands short long) :
    rejection? long = rejection? short := by
  rw [ClosedForm.rejection?_eq, ClosedForm.rejection?_eq, expands.spelled?_eq]

/-- **A formula is recognized as what it is expanded to.** -/
theorem Expands.agrees {short long : List Char} (expands : Expands short long) :
    (ofNormal long).Agrees (ofNormal short) where
  pulses := expands.pulses_eq
  kinds := by
    rw [kinds_ofNormal, kinds_ofNormal]
    exact filterMap_of_forall₂ Expands.rejection?_eq expands.forall₂_summands

end Waveform.ClosedForm

namespace Waveform

open ClosedForm

/-- A formula is recognized as its normal form is without any offset written into it. -/
theorem agrees_ofNormal (formula : String) :
    (parseClosedForm formula).Agrees (.ofNormal (Text.normalChars formula.toList)) :=
  (expands_normalChars formula.toList).agrees

/-- **Writing offsets into bare variables never changes what is recognized.** A formula, its normal
form, and the summands of its normal form as they stand give the same pulses, and as many findings
of the same kinds in the same order. -/
theorem parseClosedForm_agrees (formula : String) :
    (parseClosedForm formula).Agrees (parseClosedForm (normalize formula)) ∧
      (parseClosedForm formula).Agrees (.ofNormal (normalize formula).toList) ∧
      (parseClosedForm (normalize formula)).Agrees (.ofNormal (normalize formula).toList) := by
  have normal : (normalize formula).toList = Text.normalChars formula.toList :=
    String.toList_ofList
  have raw : (parseClosedForm formula).Agrees (.ofNormal (normalize formula).toList) := by
    rw [normal]
    exact agrees_ofNormal formula
  have again : (parseClosedForm (normalize formula)).Agrees
      (.ofNormal (normalize formula).toList) := by
    have settled : Text.normalChars (normalize formula).toList = (normalize formula).toList := by
      rw [normal, Text.normalChars_normalChars]
    have agrees := agrees_ofNormal (normalize formula)
    rwa [settled] at agrees
  exact ⟨raw.trans again.symm, raw, again⟩

/-- Of a blank inside of the parentheses only the text of the finding tells. -/
example : (parseClosedForm "2*Rect((F)/2)-sinc((f))+tri(( t)/0)").diagnostics =
      [.unrecognizedTerm "-sinc((f-0))", .degeneratePulse "+tri((t)/0)"] ∧
    (parseClosedForm (normalize "2*Rect((F)/2)-sinc((f))+tri(( t)/0)")).diagnostics =
      [.unrecognizedTerm "-sinc((f-0))", .degeneratePulse "+tri((t-0)/0)"] := by
  decide +kernel

end Waveform
