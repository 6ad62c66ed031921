import Waveform.Pulse.Spelling
import Waveform.Pulse.Summand
import Waveform.Text.Normal

/-!
# Sums of pulses

A formula in closed form is a sum of pulses, of which each summand is read by itself.
Summands that are no pulses are left out and noted. The width of a pulse is what the
variable is divided by, so `rect((f)/4)` is four wide.

A variable without an offset may be written `(f)`; it is read as `(f-0)`.
-/

set_option autoImplicit false

namespace Waveform

/-- A formula read as a sum of pulses, both lists in the order of the summands. -/
structure ClosedForm where
  pulses : List Pulse
  diagnostics : List Diagnostic
  normalized : String

namespace ClosedForm

/-- Writes the offset zero into each `(f)` and `(t)`, of either case. -/
def expandBare : List Char → List Char
  | '(' :: 'f' :: ')' :: rest => '(' :: 'f' :: '-' :: '0' :: ')' :: expandBare rest
  | '(' :: 'F' :: ')' :: rest => '(' :: 'f' :: '-' :: '0' :: ')' :: expandBare rest
  | '(' :: 't' :: ')' :: rest => '(' :: 't' :: '-' :: '0' :: ')' :: expandBare rest
  | '(' :: 'T' :: ')' :: rest => '(' :: 't' :: '-' :: '0' :: ')' :: expandBare rest
  | c :: rest => c :: expandBare rest
  | [] => []

/-- Reads a formula in normal form as a sum of pulses. -/
def ofNormal (text : List Char) : ClosedForm :=
  let readings := (Pulse.summands text).map Pulse.ofSummand
  { pulses := readings.filterMap fun reading =>
      match reading with
      | .ok pulse => some pulse
      | .error _ => none
    diagnostics := readings.filterMap fun reading =>
      match reading with
      | .ok _ => none
      | .error finding => some finding
    normalized := String.ofList text }

/-- The value of the sum of the pulses. -/
def valueAt (form : ClosedForm) (x : Float) : Float :=
  Pulse.sumAt form.pulses x

end ClosedForm

/-- Reads a formula as a sum of pulses. -/
def parseClosedForm (formula : String) : ClosedForm :=
  .ofNormal (Text.normalChars (ClosedForm.expandBare formula.toList))

end Waveform
