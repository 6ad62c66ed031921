import Waveform.Kernel

/-!
# Pulses

A pulse is a rectangle or a triangle with an amplitude, a center and a width. It is
zero outside of its extent. It has support if its width is positive and finite.
-/

set_option autoImplicit false

namespace Waveform

/-- The shape of a pulse. -/
inductive Shape where
  | rect
  | tri
  deriving DecidableEq, Repr

namespace Shape

/-- The name of a shape in formulas and in JSON. -/
def name : Shape → String
  | .rect => "rect"
  | .tri => "tri"

/-- The distance from the center to the edge of a pulse: a rectangle is as wide as its
width says, a triangle twice that. -/
def halfWidth : Shape → Float → Float
  | .rect, width => width / 2
  | .tri, width => width

/-- The pulse of height one around the origin. -/
def kernel : Shape → Float → Float → Float
  | .rect, x, width => Kernel.rect x width
  | .tri, x, width => Kernel.tri x width

end Shape

/-- A pulse: `amplitude * shape (x - center)`, with a shape of the given width. -/
structure Pulse where
  amplitude : Float
  shape : Shape
  center : Float
  /-- The full width of a rectangle, half the base of a triangle. -/
  width : Float
  deriving DecidableEq

namespace Pulse

/-- The value of a pulse. -/
def valueAt (pulse : Pulse) (x : Float) : Float :=
  pulse.amplitude * pulse.shape.kernel (x - pulse.center) pulse.width

/-- Whether the width of a pulse leaves it an extent: whether it is positive and finite. -/
def hasSupport (pulse : Pulse) : Bool :=
  0 < pulse.width && pulse.width.isFinite

/-- The left and the right edge, in the wrong order where there is no support. -/
def extent (pulse : Pulse) : Float × Float :=
  let reach := pulse.shape.halfWidth pulse.width
  (pulse.center - reach, pulse.center + reach)

/-- The sum of pulses. It starts from the negative zero, the neutral element of
floating-point addition, and so is that zero where there are no pulses. -/
def sumAt (pulses : List Pulse) (x : Float) : Float :=
  (pulses.map (·.valueAt x)).foldl (· + ·) (-0.0)

end Pulse

end Waveform
