/-!
# The shortest decimal of a floating-point number

Among the decimals that read back as a floating-point number, the shortest one has
the fewest digits, and is nearest to the number among those. A number is an integer
times a power of two, so it and the two ends of the interval that rounds to it are
integers over one power of ten, and all comparisons are exact.

A grid is the set of multiples of `10 ^ drop`. Grids are tried from the coarsest
that the number reaches down to the finest, on which the number itself lies; on each
grid only the two neighbours of the number can be nearest.
-/

set_option autoImplicit false

namespace Waveform.Decimal

/-- Which of two equally near decimals is taken. -/
inductive Tie where
  | toEven
  | up
  deriving DecidableEq, Repr

/-- A positive number and the ends of the interval of reals that round to it, as
integers over the power of ten `scale`. The ends belong to the interval when
`closed` holds. -/
structure Neighbourhood where
  lower : Nat
  value : Nat
  upper : Nat
  closed : Bool
  scale : Int
  deriving Repr

/-- The least mantissa of a number with all its 53 binary digits. -/
def leastMantissa : Nat := 1 <<< 52

/-- The exponent of the smallest numbers. -/
def leastExponent : Int := -1074

/-- The neighbourhood of `mantissa * 2 ^ exponent`. The interval reaches half way to
each neighbour; below a power of two the neighbour is only half as far away. -/
def Neighbourhood.ofBinary (mantissa : Nat) (exponent : Int) : Neighbourhood :=
  let quarter := exponent - 2
  let unit := Nat.pow 5 (-quarter).toNat <<< quarter.toNat
  let below := if mantissa = leastMantissa ∧ leastExponent < exponent then 1 else 2
  { lower := (4 * mantissa - below) * unit
    value := 4 * mantissa * unit
    upper := (4 * mantissa + 2) * unit
    closed := mantissa % 2 == 0
    scale := min quarter 0 }

namespace Neighbourhood

/-- Whether a point, over the same power of ten, rounds to the number. -/
def contains (near : Neighbourhood) (point : Nat) : Bool :=
  if near.closed then near.lower ≤ point && point ≤ near.upper
  else near.lower < point && point < near.upper

/-- The multiple of `unit`, counted in units, that rounds to the number and is
nearest to it. -/
def onGrid? (near : Neighbourhood) (tie : Tie) (unit : Nat) : Option Nat :=
  let below := near.value / unit
  let above := below + 1
  match near.contains (below * unit), near.contains (above * unit) with
  | true, true =>
    let fromBelow := near.value - below * unit
    let toAbove := above * unit - near.value
    if fromBelow < toAbove then some below
    else if toAbove < fromBelow then some above
    else
      match tie with
      | .toEven => some (if below % 2 = 0 then below else above)
      | .up => some above
  | true, false => some below
  | false, true => some above
  | false, false => none

/-- The nearest point on the coarsest grid that has one, and the power of ten of
that grid, trying the power `drop` first. -/
def search (near : Neighbourhood) (tie : Tie) : Nat → Nat × Nat
  | 0 => (near.value, 0)
  | drop + 1 =>
    match near.onGrid? tie (Nat.pow 10 (drop + 1)) with
    | some point => (point, drop + 1)
    | none => near.search tie drop

end Neighbourhood

/-- The value `0.d₁d₂… * 10 ^ point`, with no zero at the end of the digits. -/
structure Digits where
  digits : List Char
  point : Int
  deriving DecidableEq, Repr

/-- The shortest decimal that reads back as `mantissa * 2 ^ exponent`. -/
def shortest (tie : Tie) (mantissa : Nat) (exponent : Int) : Digits :=
  let near := Neighbourhood.ofBinary mantissa exponent
  let (point, drop) := near.search tie ((Nat.toDigits 10 near.value).length - 1)
  let digits := Nat.toDigits 10 point
  { digits := (digits.reverse.dropWhile (· == '0')).reverse
    point := digits.length + drop + near.scale }

end Waveform.Decimal
