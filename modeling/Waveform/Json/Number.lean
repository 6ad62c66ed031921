import Waveform.Json.Basic

/-!
# Numbers from JSON

A numeral becomes a floating-point number in two steps. The digits from the left are
gathered into a significand as long as it fits a 64-bit word; the digits that do not fit
count by their place alone. The significand is rounded to a floating-point number and
multiplied or divided by a power of ten. This is exact for numbers of up to fifteen
digits and a small exponent, and close for all others.
-/

set_option autoImplicit false

namespace Waveform.Json

open Decimal

/-- The greatest power of ten that is a floating-point number. -/
def maxPower : Nat := 308

/-- Appends digits to a significand as long as it fits a word, and gives the number of
those that do not. -/
def gatherDigits : Nat → List Char → Nat × Nat
  | significand, [] => (significand, 0)
  | significand, c :: digits =>
    let next := 10 * significand + digitValue c
    if next < UInt64.size then gatherDigits next digits else (significand, digits.length + 1)

/-- A number divided by ten to a power, in steps that a floating-point number can take.
A zero stays as it is. -/
def divideByPower (value : Float) (power : Nat) : Float :=
  if power ≤ maxPower then value / Float.ofScientific 1 false power
  else if value == 0 then value
  else divideByPower (value / Float.ofScientific 1 false maxPower) (power - maxPower)
termination_by power
decreasing_by simp only [maxPower] at *; omega

/-- A number multiplied by ten to a power, unless that exceeds all numbers. -/
def multiplyByPower? (value : Float) (power : Nat) : Option Float :=
  if power ≤ maxPower then
    let product := value * Float.ofScientific 1 false power
    if product.isInf then none else some product
  else if value == 0 then some value
  else none

/-- The magnitude of a numeral, unless it exceeds all numbers. -/
def magnitude? (numeral : Numeral) : Option Float :=
  let (whole, left) := gatherDigits 0 numeral.whole
  let (significand, unread) := gatherDigits whole numeral.fraction
  let places : Nat := numeral.fraction.length - unread
  let power : Int := (numeral.exponent.elim 0 Exponent.value) + left - places
  let value := Float.ofNat significand
  if power < 0 then some (divideByPower value power.natAbs)
  else multiplyByPower? value power.natAbs

/-- The number that a numeral stands for. -/
def numeralFloat? (numeral : Numeral) : Option Float :=
  (magnitude? numeral).map fun magnitude => if numeral.negative then -magnitude else magnitude

/-- The floating-point number that a value is. -/
def float? : Json → Option Float
  | .number numeral => numeralFloat? numeral
  | _ => none

/-- The whole number below a bound that a value is: one without a sign, a point and an
exponent. -/
def natBelow? (bound : Nat) : Json → Option Nat
  | .number ⟨false, whole, [], none⟩ =>
    let value := digitsValue whole
    if value < bound then some value else none
  | _ => none

end Waveform.Json
