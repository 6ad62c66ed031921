/-!
# Places in a formula

A span is a stretch of the normal form of a formula, from the byte where it starts
up to the byte before which it ends. Bytes are counted from zero here and from one
in messages.
-/

set_option autoImplicit false

namespace Waveform

/-- The bytes from `start` up to, and without, `stop`. -/
structure Span where
  start : Nat
  stop : Nat
  deriving DecidableEq, Repr

namespace Span

/-- The span of the one byte at a place. -/
def single (place : Nat) : Span := ⟨place, place + 1⟩

/-- Whether the span has a byte. -/
def isValid (span : Span) : Bool :=
  span.start < span.stop

/-- The words that say where the span is, with a space in front; an empty span has
none. -/
def words (span : Span) : String :=
  if span.stop ≤ span.start then ""
  else if span.stop - span.start = 1 then " at position " ++ toString (span.start + 1)
  else " at positions " ++ toString (span.start + 1) ++ "-" ++ toString span.stop

/-- The span of one byte has that byte. -/
theorem isValid_single (place : Nat) : (Span.single place).isValid = true := by
  simp [isValid, Span.single]

end Span

end Waveform
