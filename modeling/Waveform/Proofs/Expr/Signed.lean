import Waveform.Proofs.Expr.Written
import Waveform.Proofs.Float.Laws

/-!
# Signs of constants

Formulas have no literal for a negative number: what is written for one is a sign in front of a
literal. So an expression reads back with a sign in front of each negative constant
(`signed`). That changes neither its value (`eval_signed`) nor how tightly it holds together
(`binding_signed`), and it can be done on each side of an operator (`signed_binary`).
-/

set_option autoImplicit false

namespace Waveform.Expr

/-! ## Constants with a sign -/

mutual

/-- An expression with a sign in front of its negative constants, and these without it. -/
def signed : Expr → Expr
  | .number value => if value < 0 then .neg (.number (-value)) else .number value
  | .variable name => .variable name
  | .neg operand => .neg (signed operand)
  | .run head links => .run (signed head) (linksSigned links)
  | .call function argument => .call function (signed argument)

/-- Links with such signs in their operands. -/
def linksSigned : List (BinaryOp × Expr) → List (BinaryOp × Expr)
  | [] => []
  | (op, operand) :: links => (op, signed operand) :: linksSigned links

end

mutual

/-- **Signs in front of negative constants leave the value.** -/
theorem eval_signed (x : Float) : ∀ e : Expr, eval x e.signed = eval x e
  | .number value => by
    rw [signed]
    split
    · exact Binary64.neg_neg value
    · rfl
  | .variable _ => rfl
  | .neg operand => congrArg (- ·) (eval_signed x operand)
  | .run head links => by
    rw [signed, eval, eval, eval_signed x head, evalLinks_signed]
  | .call function argument => congrArg function.eval (eval_signed x argument)

theorem evalLinks_signed (x value : Float) : ∀ links : List (BinaryOp × Expr),
    evalLinks x value (linksSigned links) = evalLinks x value links
  | [] => rfl
  | (op, operand) :: links => by
    rw [linksSigned, evalLinks, evalLinks, eval_signed x operand, evalLinks_signed]

end

/-! ## Chains -/

@[simp]
theorem strength?_linksSigned (links : List (BinaryOp × Expr)) :
    strength? (linksSigned links) = strength? links := by
  cases links <;> rfl

theorem linksSigned_append (earlier later : List (BinaryOp × Expr)) :
    linksSigned (earlier ++ later) = linksSigned earlier ++ linksSigned later := by
  induction earlier with
  | nil => rfl
  | cons link earlier ih => rw [List.cons_append, linksSigned, ih, linksSigned, List.cons_append]

@[simp]
theorem runStrength?_signed (e : Expr) : runStrength? e.signed = runStrength? e := by
  cases e with
  | number value =>
    rw [signed]
    split <;> rfl
  | run head links => exact strength?_linksSigned links
  | _ => rfl

/-- A sign holds together as a negative constant does. -/
theorem binding_signed (e : Expr) : e.signed.binding = e.binding := by
  cases e with
  | number value =>
    rw [signed, binding]
    split
    · rfl
    · next unsigned => rw [binding, if_neg unsigned]
  | run head links => simp only [signed, binding, linksBinding, strength?_linksSigned]
  | _ => rfl

/-- Signs are put on the two sides of an operator. -/
theorem signed_binary (left : Expr) (op : BinaryOp) (right : Expr) :
    (binary left op right).signed = binary left.signed op right.signed := by
  have one : [(op, right)] ≠ [] := List.cons_ne_nil _ _
  have one' : [(op, right.signed)] ≠ [] := List.cons_ne_nil _ _
  by_cases continued : runStrength? left = some op.precedence
  · cases left with
    | run head links =>
      have continued' : strength? (linksSigned links) = some op.precedence :=
        (strength?_linksSigned links).trans continued
      have first : chain (.run head links) [(op, right)] = .run head (links ++ [(op, right)]) :=
        chain_of_same one continued
      have second : chain (.run head.signed (linksSigned links)) [(op, right.signed)] =
          .run head.signed (linksSigned links ++ [(op, right.signed)]) :=
        chain_of_same one' continued'
      rw [binary, binary, first, signed, linksSigned_append]
      exact second.symm
    | _ => cases continued
  · have continued' : runStrength? left.signed ≠ some op.precedence := by
      rwa [runStrength?_signed]
    rw [binary, binary, chain_of_other one continued, chain_of_other one' continued']
    rfl

/-! ## The constants of an expression -/

mutual

/-- The constants of an expression, from the left. -/
def constants : Expr → List Float
  | .number value => [value]
  | .variable _ => []
  | .neg operand => constants operand
  | .run head links => constants head ++ linksConstants links
  | .call _ argument => constants argument

/-- The constants in the operands of links. -/
def linksConstants : List (BinaryOp × Expr) → List Float
  | [] => []
  | (_, operand) :: links => constants operand ++ linksConstants links

end

theorem linksConstants_append (earlier later : List (BinaryOp × Expr)) :
    linksConstants (earlier ++ later) = linksConstants earlier ++ linksConstants later := by
  induction earlier with
  | nil => rfl
  | cons link earlier ih => simp only [List.cons_append, linksConstants, ih, List.append_assoc]

theorem constants_binary (left : Expr) (op : BinaryOp) (right : Expr) :
    (binary left op right).constants = left.constants ++ right.constants := by
  rcases binary_cases left op right with ⟨first, earlier, rfl, _, _, same⟩ | same
  · simp only [same, constants, linksConstants_append, linksConstants, List.append_nil,
      List.append_assoc]
  · simp only [same, constants, linksConstants, List.append_nil]

end Waveform.Expr
