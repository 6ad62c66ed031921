import Waveform.Decimal.Numeral
import Waveform.Expr.Basic
import Waveform.Formula.Cursor

/-!
# Numbers in a formula

A number is a run of digits and points. Its value is that of the longest decimal at
the start of the run, whole digits with or without a point and digits after it, so
`1.2.3` is read as `1.2`. A decimal without a digit is a NaN, which blanks every
sample that it reaches. A run that is more than its decimal, or has no digit in it,
is noted.
-/

set_option autoImplicit false

namespace Waveform.Formula

/-- Whether a character belongs to runs of digits and points. -/
def isNumeric (c : Char) : Bool :=
  c.isDigit || c == '.'

/-- A run of digits and points, cut behind its longest decimal. -/
structure NumberRun where
  whole : List Char
  fraction : List Char
  beyond : List Char
  deriving DecidableEq, Repr

namespace NumberRun

/-- Cuts a run behind its longest decimal. -/
def ofChars (run : List Char) : NumberRun :=
  let whole := run.takeWhile Char.isDigit
  match run.dropWhile Char.isDigit with
  | '.' :: rest => ⟨whole, rest.takeWhile Char.isDigit, rest.dropWhile Char.isDigit⟩
  | rest => ⟨whole, [], rest⟩

/-- Whether the decimal has a digit. -/
def hasDigit (run : NumberRun) : Bool :=
  !(run.whole.isEmpty && run.fraction.isEmpty)

/-- Whether the whole run is a number. -/
def isNumber (run : NumberRun) : Bool :=
  run.hasDigit && run.beyond.isEmpty

/-- The value of the decimal. -/
def value (run : NumberRun) : Float :=
  if run.hasDigit then
    Decimal.Numeral.nearest { negative := false, whole := run.whole, fraction := run.fraction }
  else 0 / 0

end NumberRun

/-- Reads the run of digits and points at the cursor. -/
def readNumber (cursor : Cursor) : Expr × Cursor :=
  let (chars, behind) := cursor.takeWhile isNumeric
  let run := NumberRun.ofChars chars
  let behind :=
    if run.isNumber then behind
    else behind.note (.invalidNumber (String.ofList chars) ⟨cursor.position, behind.position⟩)
  (.number run.value, behind)

end Waveform.Formula
