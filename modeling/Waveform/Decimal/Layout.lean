import Waveform.Decimal.Numeral
import Waveform.Decimal.Shortest

/-!
# How numbers are written

Numbers are written with the digits of their shortest decimal. A layout says which
of them have an exponent and whether a whole number shows a digit after the point.
There are two: messages and formulas never use an exponent and write whole numbers
as such, while JSON numbers far from one have an exponent and all others a point.
-/

set_option autoImplicit false

namespace Waveform.Decimal

/-- The decisions of a format for finite numbers. -/
structure Layout where
  /-- Which of two equally near shortest decimals is written. -/
  tie : Tie
  /-- The powers of ten of the first digit, lowest and highest, between which no
  exponent is written; `none` if an exponent never is. -/
  positional : Option (Int × Int)
  /-- Whether a number without an exponent has at least one digit after the point. -/
  pointAlways : Bool

namespace Layout

/-- Numbers in messages and formulas: of two decimals the greater, never an exponent,
and no point in whole numbers. -/
def plain : Layout := ⟨.up, none, false⟩

/-- Numbers in JSON: of two decimals the even one, an exponent below `0.00001` and
from `10000000000000000` on, and otherwise always a point. -/
def json : Layout := ⟨.toEven, some (-5, 15), true⟩

/-- Whether numbers whose first digit has the given power of ten are written without
an exponent. -/
def isPositional (layout : Layout) (power : Int) : Bool :=
  match layout.positional with
  | some (low, high) => low ≤ power && power ≤ high
  | none => true

/-- Digits written out in place, padded with zeros to reach the point. -/
def place (layout : Layout) (negative : Bool) (value : Digits) : Numeral :=
  let digits := value.digits
  let before := value.point.toNat
  if value.point ≤ 0 then
    { negative, whole := ['0'], fraction := List.replicate (-value.point).toNat '0' ++ digits }
  else if before < digits.length then
    { negative, whole := digits.take before, fraction := digits.drop before }
  else
    { negative
      whole := digits ++ List.replicate (before - digits.length) '0'
      fraction := if layout.pointAlways then ['0'] else [] }

/-- Digits written with one of them before the point and an exponent. -/
def scientific (negative : Bool) (value : Digits) : Numeral :=
  let power := value.point - 1
  { negative
    whole := value.digits.take 1
    fraction := value.digits.drop 1
    exponent := some ⟨power < 0, Nat.toDigits 10 power.natAbs⟩ }

/-- The written form of a number; infinities and NaN have none. -/
def numeral? (layout : Layout) (x : Float) : Option Numeral :=
  match x.toModel.unpack with
  | .zero sign => some (layout.place (sign matches .negative) ⟨['0'], 1⟩)
  | .finite sign mantissa exponent _ =>
    let negative := sign matches .negative
    let value := shortest layout.tie mantissa exponent
    if layout.isPositional (value.point - 1) then some (layout.place negative value)
    else some (scientific negative value)
  | _ => none

end Layout

/-- A number as messages show it. -/
def plainText (x : Float) : String :=
  match Layout.plain.numeral? x with
  | some numeral => String.ofList numeral.chars
  | none => if x.isNaN then "NaN" else if x < 0 then "-inf" else "inf"

end Waveform.Decimal
