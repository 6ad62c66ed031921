import Waveform.Kernel

/-!
# Built-in functions

The functions that a formula may call, each of one argument. Inside a formula the
pulses `rect` and `tri` have width one.
-/

set_option autoImplicit false

namespace Waveform

/-- A function that formulas can call. -/
inductive Builtin where
  | rect
  | tri
  | sinc
  | gauss
  | exp
  | step
  | delta
  | sin
  | cos
  | tan
  | abs
  | sqrt
  deriving DecidableEq, Repr

namespace Builtin

/-- All functions, the signal kernels first. -/
def all : List Builtin :=
  [.rect, .tri, .sinc, .gauss, .exp, .step, .delta, .sin, .cos, .tan, .abs, .sqrt]

/-- The name by which a formula calls a function. -/
def name : Builtin → String
  | .rect => "rect"
  | .tri => "tri"
  | .sinc => "sinc"
  | .gauss => "gauss"
  | .exp => "exp"
  | .step => "step"
  | .delta => "delta"
  | .sin => "sin"
  | .cos => "cos"
  | .tan => "tan"
  | .abs => "abs"
  | .sqrt => "sqrt"

/-- What a function is, in a few words. -/
def summary : Builtin → String
  | .rect => "unit rectangular pulse, 1 on |x| <= 1/2"
  | .tri => "unit triangular pulse, 1 - |x| on |x| <= 1"
  | .sinc => "normalized sinc, sin(pi x)/(pi x)"
  | .gauss => "gaussian exp(-x^2)"
  | .exp => "two-sided decay exp(-|x|)"
  | .step => "heaviside step, 1/2 at the origin"
  | .delta => "finite impulse of half-width 0.1 and unit area"
  | .sin => "sine"
  | .cos => "cosine"
  | .tan => "tangent"
  | .abs => "absolute value"
  | .sqrt => "square root, NaN for negative input"

/-- The value of a function. -/
def eval : Builtin → Float → Float
  | .rect => (Kernel.rect · 1)
  | .tri => (Kernel.tri · 1)
  | .sinc => Kernel.sinc
  | .gauss => Kernel.gauss
  | .exp => Kernel.decay
  | .step => Kernel.step
  | .delta => Kernel.delta
  | .sin => Float.sin
  | .cos => Float.cos
  | .tan => Float.tan
  | .abs => Float.abs
  | .sqrt => Float.sqrt

/-- The function of a name. -/
def named? (name : String) : Option Builtin :=
  all.find? (·.name == name)

/-- Every function is listed. -/
theorem mem_all (f : Builtin) : f ∈ all := by
  cases f <;> decide

/-- Every function is found by its name. -/
theorem named?_name (f : Builtin) : named? f.name = some f := by
  cases f <;> decide

/-- A function that is found has the name asked for. -/
theorem name_eq_of_named? {name : String} {f : Builtin} (h : named? name = some f) :
    f.name = name := by
  simpa using List.find?_some h

end Builtin

end Waveform
