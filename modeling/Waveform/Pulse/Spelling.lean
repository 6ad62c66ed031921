import Waveform.Diagnostic
import Waveform.Formula.Number
import Waveform.Pulse.Basic

/-!
# Pulses as formulas write them

A pulse is written as an optional sign, an optional number with `*`, the name of its
shape, and in parentheses the shifted variable divided by the width, as in
`-2*tri((f-3)/4)`. The variable is `f` or `t`, in parentheses of its own and with the
center taken off; numbers have no sign. Nothing may follow.

Each function takes one such part off the text and gives what it means with the text
behind it, or nothing where the text does not start with that part.
-/

set_option autoImplicit false

namespace Waveform.Pulse

/-- The factor of an optional sign. -/
def takeSign : List Char → Float × List Char
  | '-' :: rest => (-1, rest)
  | '+' :: rest => (1, rest)
  | rest => (1, rest)

/-- A number without a sign: digits with or without a point and more digits, at least
one digit in all. -/
def takeNumber? (text : List Char) : Option (Float × List Char) :=
  let run := Formula.NumberRun.ofChars text
  if run.hasDigit then some (run.value, run.beyond) else none

/-- An amplitude up to its `*`. A sign alone stands for plus or minus one. -/
def takeAmplitude? (text : List Char) : Option (Float × List Char) :=
  let (sign, rest) := takeSign text
  match takeNumber? rest with
  | some (number, '*' :: behind) => some (sign * number, behind)
  | some _ => none
  | none => some (sign, rest)

/-- The name of a shape. -/
def takeShape? : List Char → Option (Shape × List Char)
  | 'r' :: 'e' :: 'c' :: 't' :: rest => some (.rect, rest)
  | 't' :: 'r' :: 'i' :: rest => some (.tri, rest)
  | _ => none

/-- What is added to the variable: a signed number, or zero. -/
def takeOffset? : List Char → Option (Float × List Char)
  | c :: rest =>
    if c = '+' || c = '-' then do
      let (number, behind) ← takeNumber? rest
      return ((takeSign [c]).1 * number, behind)
    else some (0, c :: rest)
  | [] => some (0, [])

/-- The shifted variable in parentheses, which gives the center of the pulse: minus the
offset, and never a negative zero. -/
def takeCenter? : List Char → Option (Float × List Char)
  | '(' :: v :: rest =>
    if v = 'f' || v = 't' then
      match takeOffset? rest with
      | some (offset, ')' :: behind) => some (0 - offset, behind)
      | _ => none
    else none
  | _ => none

/-- The width behind its `/`. -/
def takeWidth? : List Char → Option (Float × List Char)
  | '/' :: rest => takeNumber? rest
  | _ => none

/-- The argument of a shape in its parentheses, up to the end of the text. -/
def readArgument? : List Char → Option (Float × Float)
  | '(' :: rest => do
    let (center, rest) ← takeCenter? rest
    let (width, rest) ← takeWidth? rest
    guard (rest == [')'])
    return (center, width)
  | _ => none

/-- The pulse that a text spells. -/
def spelled? (text : List Char) : Option Pulse := do
  let (amplitude, rest) ← takeAmplitude? text
  let (shape, rest) ← takeShape? rest
  let (center, width) ← readArgument? rest
  return { amplitude, shape, center, width }

/-- The pulse that a summand stands for, unless it spells none or one that is zero
everywhere. -/
def ofSummand (term : List Char) : Except Diagnostic Pulse :=
  match spelled? term with
  | none => .error (.unrecognizedTerm (String.ofList term))
  | some pulse =>
    if pulse.hasSupport then .ok pulse
    else .error (.degeneratePulse (String.ofList term))

end Waveform.Pulse
