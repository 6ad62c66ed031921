/-!
# Signal kernels

The elementary signals: pulses, bells, a step and an impulse, all functions of a
floating-point number. None of them fails. Except for `sinc`, `gauss` and `decay`, which
pass a NaN on, each gives an ordinary number at NaN too, because every comparison with
it is false.
-/

set_option autoImplicit false

namespace Waveform.Kernel

/-- The floating-point number nearest to the circle constant. -/
def pi : Float := 3.141592653589793

/-- Rectangular pulse: one where `|x| ≤ width / 2`, both edges included. -/
def rect (x width : Float) : Float :=
  if x.abs ≤ width * 0.5 then 1 else 0

/-- Triangular pulse of half-base `width` and height one. -/
def tri (x width : Float) : Float :=
  if x.abs ≤ width then 1 - x.abs / width else 0

/-- Below this magnitude the limit value of `sinc` is taken. -/
def sincLimit : Float := 1e-10

/-- Normalized sinc, `sin (π x) / (π x)`, which is one at the origin. -/
def sinc (x : Float) : Float :=
  if x.abs < sincLimit then 1
  else
    let angle := pi * x
    angle.sin / angle

/-- Gaussian bell `exp (-x²)`. -/
def gauss (x : Float) : Float :=
  (-(x * x)).exp

/-- Two-sided exponential decay `exp (-|x|)`. -/
def decay (x : Float) : Float :=
  (-x.abs).exp

/-- Unit step, a half at the origin. -/
def step (x : Float) : Float :=
  if 0 < x then 1 else if x < 0 then 0 else 0.5

/-- Box of half-width `radius` and unit area. -/
def impulse (x radius : Float) : Float :=
  if x.abs < radius then 1 / (radius + radius) else 0

/-- The half-width of the impulse that formulas know as `delta`. -/
def deltaRadius : Float := 0.1

/-- The impulse that formulas know as `delta`. -/
def delta (x : Float) : Float :=
  impulse x deltaRadius

end Waveform.Kernel
