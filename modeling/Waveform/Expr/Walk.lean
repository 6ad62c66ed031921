import Waveform.Expr.Basic

/-!
# Walking an expression

A walk comes past the parts of an expression from the outside in and from the left
to the right, a part before what it is made of. At each part it changes a state and
decides whether to go inside.
-/

set_option autoImplicit false

namespace Waveform.Expr

variable {σ : Type}

mutual

/-- The state after a walk. `visit` gives the state after a part and tells whether to
go inside. -/
def walk (visit : σ → Expr → σ × Bool) (state : σ) : Expr → σ
  | .number value => (visit state (.number value)).1
  | .variable name => (visit state (.variable name)).1
  | .neg operand =>
    match visit state (.neg operand) with
    | (state, true) => walk visit state operand
    | (state, false) => state
  | .run head links =>
    match visit state (.run head links) with
    | (state, true) => walkLinks visit (walk visit state head) links
    | (state, false) => state
  | .call function argument =>
    match visit state (.call function argument) with
    | (state, true) => walk visit state argument
    | (state, false) => state

/-- The state after a walk through the operands of links. -/
def walkLinks (visit : σ → Expr → σ × Bool) (state : σ) : List (BinaryOp × Expr) → σ
  | [] => state
  | (_, operand) :: links => walkLinks visit (walk visit state operand) links

end

/-- The parts that a walk comes past, when it goes inside of those that `enter`
accepts. -/
def visits (enter : Expr → Bool) (e : Expr) : Array Expr :=
  walk (fun parts part => (parts.push part, enter part)) #[] e

/-- Whether an expression never reads the variable. The walk stops going inside once
it has come past one. -/
def isConstant (e : Expr) : Bool :=
  !walk (fun found part =>
    match part with
    | .variable _ => (true, false)
    | _ => (found, !found)) false e

end Waveform.Expr
