import Waveform.Decimal.Layout
import Waveform.Expr.Basic
import Waveform.Rounding

/-!
# Expressions as formulas

An expression is written as a formula that reads back as it, without spaces and with
no more parentheses than needed. How tightly a written expression holds together is a
number: the precedence of its operators for a chain, 25 for a sign, and 30 for what
nothing can break apart. An operand in front of a chain may be as loose as the chain
itself, one behind an operator has to be tighter.
-/

set_option autoImplicit false

namespace Waveform.Expr

/-- How tightly the links of a chain hold together. -/
def linksBinding (links : List (BinaryOp × Expr)) : Nat :=
  (strength? links).getD 30

/-- How tightly an expression holds together when it is written. -/
def binding : Expr → Nat
  | .run _ links => linksBinding links
  | .neg _ => 25
  | .number value => if value < 0 then 25 else 30
  | _ => 30

/-- A constant as a formula shows it: the circle constant by its name, a small whole
number as such, and any other by its shortest decimal. -/
def numberChars (value : Float) : List Char :=
  if value == Kernel.pi then ['p', 'i']
  else if value.isNaN then "NaN".toList
  else if value.isInf then (if 0 < value then "Infinity" else "-Infinity").toList
  else
    match wholeNumber? value with
    | some whole =>
      if value.abs < 1e10 then (toString whole).toList else (Decimal.plainText value).toList
    | none => (Decimal.plainText value).toList

/-- A written operand in front of a text, in parentheses when it is looser than
required. -/
def enclose (loose : Bool) (written : List Char → List Char) (rest : List Char) : List Char :=
  if loose then '(' :: written (')' :: rest) else written rest

mutual

/-- An expression written in front of a text. -/
def write : Expr → List Char → List Char
  | .number value, rest => numberChars value ++ rest
  | .variable name, rest => name :: rest
  | .neg operand, rest => '-' :: enclose (operand.binding < 25) (write operand) rest
  | .run head links, rest =>
    enclose (head.binding < linksBinding links) (write head)
      (writeLinks (linksBinding links + 1) links rest)
  | .call function argument, rest =>
    function.name.toList ++ '(' :: write argument (')' :: rest)

/-- Links whose operands have to bind at least as given, written in front of a text. -/
def writeLinks (level : Nat) : List (BinaryOp × Expr) → List Char → List Char
  | [], rest => rest
  | (op, operand) :: links, rest =>
    op.symbol :: enclose (operand.binding < level) (write operand) (writeLinks level links rest)

end

/-- The characters of an expression. -/
def chars (e : Expr) : List Char :=
  e.write []

/-- The formula of an expression. -/
def text (e : Expr) : String :=
  String.ofList e.chars

end Waveform.Expr
