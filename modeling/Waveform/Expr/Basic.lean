import Waveform.Builtin

/-!
# Expressions

A formula stands for a function of one variable. Operators of one strength that
follow each other form one chain, which is read from the left: `a - b + c` is a
chain with the head `a` and two links. So the height of an expression does not grow
with the number of summands or factors.

`Expr.chain` keeps chains flat: a chain that would be the head of another of its
strength is continued instead.
-/

set_option autoImplicit false

namespace Waveform

/-- An operator between two operands. -/
inductive BinaryOp where
  | add
  | sub
  | mul
  | div
  deriving DecidableEq, Repr

namespace BinaryOp

/-- The character of an operator. -/
def symbol : BinaryOp → Char
  | .add => '+'
  | .sub => '-'
  | .mul => '*'
  | .div => '/'

/-- How strongly an operator binds. -/
def precedence : BinaryOp → Nat
  | .add | .sub => 10
  | .mul | .div => 20

/-- The value of an operator. -/
def apply : BinaryOp → Float → Float → Float
  | .add, left, right => left + right
  | .sub, left, right => left - right
  | .mul, left, right => left * right
  | .div, left, right => left / right

/-- The operator between summands that a character stands for. -/
def additive? : Char → Option BinaryOp
  | '+' => some .add
  | '-' => some .sub
  | _ => none

/-- The operator between factors that a character stands for. -/
def multiplicative? : Char → Option BinaryOp
  | '*' => some .mul
  | '/' => some .div
  | _ => none

end BinaryOp

/-- A function of one variable, as written in a formula. -/
inductive Expr where
  /-- A constant. -/
  | number (value : Float)
  /-- The variable, by the name it was given. -/
  | variable (name : Char)
  /-- The operand with its sign changed. -/
  | neg (operand : Expr)
  /-- The head combined with each link in turn. -/
  | run (head : Expr) (links : List (BinaryOp × Expr))
  /-- The value of a function at the argument. -/
  | call (function : Builtin) (argument : Expr)

namespace Expr

/-- What stands for whatever is not understood. -/
def zero : Expr := .number 0

/-- The precedence that the links of a chain have, told by the first; there is none
without a link. -/
def strength? : List (BinaryOp × Expr) → Option Nat
  | [] => none
  | (op, _) :: _ => some op.precedence

/-- The chain of a head and links of one precedence. No links leave the head as it
is, and a head that is a chain of the same precedence is continued. -/
def chain (head : Expr) (links : List (BinaryOp × Expr)) : Expr :=
  if links.isEmpty then head
  else
    match head with
    | .run first earlier =>
      if strength? earlier = strength? links then .run first (earlier ++ links)
      else .run head links
    | _ => .run head links

/-- Two operands joined by an operator. -/
def binary (left : Expr) (op : BinaryOp) (right : Expr) : Expr :=
  chain left [(op, right)]

/-- The constant that an expression is, if it is one. -/
def asNumber? : Expr → Option Float
  | .number value => some value
  | _ => none

/-- Whether an expression is the constant zero, of either sign. -/
def isZero (e : Expr) : Bool :=
  match e.asNumber? with
  | some value => value == 0
  | none => false

mutual

/-- The value at `x`. It is an infinity or a NaN where the arithmetic says so. -/
def eval (x : Float) : Expr → Float
  | .number value => value
  | .variable _ => x
  | .neg operand => -(eval x operand)
  | .run head links => evalLinks x (eval x head) links
  | .call function argument => function.eval (eval x argument)

/-- The value that links make of the value before them. -/
def evalLinks (x value : Float) : List (BinaryOp × Expr) → Float
  | [] => value
  | (op, operand) :: links => evalLinks x (op.apply value (eval x operand)) links

end

mutual

/-- How many constants, variables, signs, operators and calls an expression has. -/
def nodeCount : Expr → Nat
  | .number _ | .variable _ => 1
  | .neg operand => 1 + nodeCount operand
  | .run head links => nodeCount head + linksNodeCount links
  | .call _ argument => 1 + nodeCount argument

/-- The count over links: the operator and what belongs to the operand of each. -/
def linksNodeCount : List (BinaryOp × Expr) → Nat
  | [] => 0
  | (_, operand) :: links => 1 + nodeCount operand + linksNodeCount links

end

mutual

/-- The height of an expression; a constant and a variable have height one. -/
def depth : Expr → Nat
  | .number _ | .variable _ => 1
  | .neg operand => 1 + depth operand
  | .run head links => 1 + max (depth head) (linksDepth links)
  | .call _ argument => 1 + depth argument

/-- The greatest height of an operand. -/
def linksDepth : List (BinaryOp × Expr) → Nat
  | [] => 0
  | (_, operand) :: links => max (depth operand) (linksDepth links)

end

mutual

/-- Whether two expressions have one shape and equal parts. Constants are compared as
numbers, so a NaN differs from itself and the two zeros agree. -/
def same : Expr → Expr → Bool
  | .number a, .number b => a == b
  | .variable a, .variable b => a == b
  | .neg a, .neg b => same a b
  | .run a s, .run b t => same a b && sameLinks s t
  | .call f a, .call g b => f == g && same a b
  | _, _ => false

/-- Whether links agree one by one. -/
def sameLinks : List (BinaryOp × Expr) → List (BinaryOp × Expr) → Bool
  | [], [] => true
  | (o, a) :: s, (p, b) :: t => o == p && same a b && sameLinks s t
  | _, _ => false

end

instance : BEq Expr := ⟨same⟩

end Expr

end Waveform
