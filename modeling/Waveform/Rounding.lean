/-!
# Rounding to decimal places

Areas are reported to a number of decimal places: the value is scaled by a power
of ten, rounded to a whole number with halves going away from zero, and scaled
back. Whole numbers are found in exact arithmetic, from the mantissa and the
exponent of the value; the scaling is ordinary floating-point arithmetic.
-/

set_option autoImplicit false

namespace Waveform

/-- The nearest whole number, a half going away from zero. The sign stays, also
on a zero; infinities and NaN are left alone. -/
def roundHalfAway (x : Float) : Float :=
  match x.toModel.unpack with
  | .finite sign mantissa exponent _ =>
    if 0 ≤ exponent then x
    else
      let places := (-exponent).toNat
      let whole := Float.ofNat ((mantissa + 1 <<< (places - 1)) >>> places)
      match sign with
      | .negative => -whole
      | .positive => whole
  | _ => x

/-- The whole number that a value is equal to, if it is one. -/
def wholeNumber? (x : Float) : Option Int :=
  match x.toModel.unpack with
  | .zero _ => some 0
  | .finite sign mantissa exponent _ =>
    let places := (-exponent).toNat
    if (mantissa >>> places) <<< places = mantissa then
      let whole := (mantissa <<< exponent.toNat) >>> places
      match sign with
      | .negative => some (-(whole : Int))
      | .positive => some (whole : Int)
    else none
  | _ => none

/-- `start * base ^ count` by repeated squaring, the lowest binary digit of the
count first. -/
def powerBySquaring (start base : Float) (count : Nat) : Float :=
  let product := if count % 2 = 1 then start * base else start
  if count / 2 = 0 then product else powerBySquaring product (base * base) (count / 2)
termination_by count

/-- Ten to a whole power; a negative power is the reciprocal of the positive one. -/
def powerOfTen (power : Int) : Float :=
  let magnitude := powerBySquaring 1 10 power.natAbs
  if power < 0 then 1 / magnitude else magnitude

/-- The value rounded to a number of decimal places. The count is read as a signed
word, and a negative one rounds to tens, hundreds and so on. -/
def roundTo (x : Float) (places : UInt32) : Float :=
  let scale := powerOfTen places.toInt32.toInt
  roundHalfAway (x * scale) / scale

end Waveform
