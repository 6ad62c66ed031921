/-!
# Decimal numerals

A numeral is the written form of a number: a sign, whole digits, digits after a
point and a power of ten. It is kept as the digits stand, so that a reader may
turn it into a number by a rule of its own. The rule given here takes the
floating-point number nearest to the value, ties going to the even neighbour.
-/

set_option autoImplicit false

namespace Waveform.Decimal

/-- The value of a decimal digit. -/
def digitValue (c : Char) : Nat :=
  c.toNat - '0'.toNat

/-- The number that a run of digits spells, the first digit being the highest. -/
def digitsValue (digits : List Char) : Nat :=
  digits.foldl (fun value c => 10 * value + digitValue c) 0

/-- A power of ten as written. -/
structure Exponent where
  negative : Bool
  digits : List Char
  deriving DecidableEq, Repr

/-- The power that an exponent stands for. -/
def Exponent.value (exponent : Exponent) : Int :=
  if exponent.negative then -(digitsValue exponent.digits) else digitsValue exponent.digits

/-- A number as written. A numeral without digits after the point has no point. -/
structure Numeral where
  negative : Bool
  whole : List Char
  fraction : List Char := []
  exponent : Option Exponent := none
  deriving DecidableEq, Repr

namespace Numeral

/-- The power of ten that the whole and the fraction digits together, read as one
number, are multiplied by. -/
def scale (numeral : Numeral) : Int :=
  (numeral.exponent.elim 0 Exponent.value) - numeral.fraction.length

/-- The digits of a numeral as one number. -/
def significand (numeral : Numeral) : Nat :=
  digitsValue (numeral.whole ++ numeral.fraction)

/-- The nearest floating-point number; what lies beyond the largest one is an
infinity, and what lies below half the smallest one a zero. -/
def nearest (numeral : Numeral) : Float :=
  let power := numeral.scale
  let magnitude := Float.ofScientific numeral.significand (power < 0) power.natAbs
  if numeral.negative then -magnitude else magnitude

/-- The characters of a numeral. An exponent is written with its sign. -/
def chars (numeral : Numeral) : List Char :=
  (if numeral.negative then ['-'] else []) ++ numeral.whole ++
    (if numeral.fraction.isEmpty then [] else '.' :: numeral.fraction) ++
    (match numeral.exponent with
      | some exponent => 'e' :: (if exponent.negative then '-' else '+') :: exponent.digits
      | none => [])

end Numeral

end Waveform.Decimal
