import Waveform.Expr.Printer
import Waveform.Proofs.Expr.Chain
import Waveform.Proofs.Float.Order

/-!
# Written expressions

An expression is written in front of a text, so its own characters come first
(`write_eq`). A chain with one link more is written as the chain, the operator and the
operand, the two sides in parentheses where they are looser than required
(`chars_binary`). That holds whether the link continues a chain or starts one.
-/

set_option autoImplicit false

namespace Waveform.Expr

/-- A written operand, in parentheses when it is looser than required. -/
def enclosed (loose : Bool) (written : List Char) : List Char :=
  if loose then '(' :: written ++ [')'] else written

/-- The characters of links whose operands have to bind at least as given. -/
def linksChars (level : Nat) (links : List (BinaryOp × Expr)) : List Char :=
  writeLinks level links []

theorem enclose_eq {written : List Char → List Char}
    (appends : ∀ rest, written rest = written [] ++ rest) (loose : Bool) (rest : List Char) :
    enclose loose written rest = enclosed loose (written []) ++ rest := by
  cases loose with
  | true =>
    simp only [enclose, enclosed, if_true]
    rw [appends]
    simp
  | false =>
    simp only [enclose, enclosed, Bool.false_eq_true, if_false]
    exact appends rest

mutual

/-- An expression is written in front of a text. -/
theorem write_eq : ∀ (e : Expr) (rest : List Char), e.write rest = e.write [] ++ rest
  | .number value, rest => by simp [write]
  | .variable name, rest => by simp [write]
  | .neg operand, rest => by
    simp only [write]
    rw [enclose_eq (write_eq operand), enclose_eq (write_eq operand) _ []]
    simp
  | .run head links, rest => by
    simp only [write]
    rw [enclose_eq (write_eq head), enclose_eq (write_eq head) _ (writeLinks _ links []),
      writeLinks_eq _ links rest, List.append_assoc]
  | .call function argument, rest => by
    simp only [write]
    rw [write_eq argument, write_eq argument [')']]
    simp

theorem writeLinks_eq : ∀ (level : Nat) (links : List (BinaryOp × Expr)) (rest : List Char),
    writeLinks level links rest = writeLinks level links [] ++ rest
  | _, [], _ => rfl
  | level, (op, operand) :: links, rest => by
    simp only [writeLinks]
    rw [enclose_eq (write_eq operand), enclose_eq (write_eq operand) _ (writeLinks _ links []),
      writeLinks_eq level links rest]
    simp

end

theorem chars_neg (operand : Expr) :
    (neg operand).chars = '-' :: enclosed (operand.binding < 25) operand.chars := by
  have written := enclose_eq (write_eq operand) (operand.binding < 25) []
  rw [List.append_nil] at written
  exact congrArg _ written

theorem chars_call (function : Builtin) (argument : Expr) :
    (call function argument).chars = function.name.toList ++ '(' :: argument.chars ++ [')'] := by
  rw [chars, write, write_eq argument]
  simp [chars]

theorem chars_run (head : Expr) (links : List (BinaryOp × Expr)) :
    (run head links).chars = enclosed (head.binding < linksBinding links) head.chars ++
      linksChars (linksBinding links + 1) links :=
  enclose_eq (write_eq head) _ _

theorem linksChars_cons (level : Nat) (op : BinaryOp) (operand : Expr)
    (links : List (BinaryOp × Expr)) :
    linksChars level ((op, operand) :: links) =
      op.symbol :: enclosed (operand.binding < level) operand.chars ++ linksChars level links :=
  congrArg _ (enclose_eq (write_eq operand) _ _)

theorem linksChars_append (level : Nat) (earlier later : List (BinaryOp × Expr)) :
    linksChars level (earlier ++ later) = linksChars level earlier ++ linksChars level later := by
  induction earlier with
  | nil => rfl
  | cons link earlier ih =>
    obtain ⟨op, operand⟩ := link
    rw [List.cons_append, linksChars_cons, linksChars_cons, ih, List.append_assoc]

/-! ## Chains -/

section Binary

variable (left : Expr) (op : BinaryOp) (right : Expr)

/-- One more link continues a chain of its strength, and starts a chain behind anything
else. -/
theorem binary_cases :
    (∃ first earlier, left = run first earlier ∧ linksBinding earlier = op.precedence ∧
      earlier ≠ [] ∧ binary left op right = run first (earlier ++ [(op, right)])) ∨
    binary left op right = run left [(op, right)] := by
  by_cases continued : runStrength? left = some op.precedence
  · cases left with
    | run first earlier =>
      have strength : strength? earlier = some op.precedence := continued
      refine .inl ⟨first, earlier, rfl, ?_, ne_nil_of_strength? strength,
        chain_of_same (List.cons_ne_nil _ _) continued⟩
      rw [linksBinding, strength, Option.getD_some]
    | _ => cases continued
  · exact .inr (chain_of_other (List.cons_ne_nil _ _) continued)

theorem linksBinding_append {earlier later : List (BinaryOp × Expr)} (nonempty : earlier ≠ []) :
    linksBinding (earlier ++ later) = linksBinding earlier := by
  rw [linksBinding, strength?_append nonempty, linksBinding]

theorem binding_binary : (binary left op right).binding = op.precedence := by
  rcases binary_cases left op right with ⟨first, earlier, _, strength, nonempty, same⟩ | same
  · rw [same, binding, linksBinding_append nonempty, strength]
  · rw [same]
    rfl

/-- **A chain with one link more is written as its sides with the operator between.** -/
theorem chars_binary :
    (binary left op right).chars = enclosed (left.binding < op.precedence) left.chars ++
      op.symbol :: enclosed (right.binding < op.precedence + 1) right.chars := by
  rcases binary_cases left op right with ⟨first, earlier, rfl, strength, nonempty, same⟩ | same
  · have notLoose : decide ((run first earlier).binding < op.precedence) = false := by
      simp [binding, strength]
    rw [same, chars_run, linksBinding_append nonempty, linksChars_append, linksChars_cons,
      strength, notLoose]
    simp [enclosed, chars_run, strength, linksChars, writeLinks]
  · have strength : linksBinding [(op, right)] = op.precedence := rfl
    rw [same, chars_run, linksChars_cons, strength]
    simp [linksChars, writeLinks]

end Binary

/-- An expression holds together as the chains of a level do, as a sign does, or better. -/
theorem binding_cases : ∀ e : Expr,
    e.binding = 10 ∨ e.binding = 20 ∨ e.binding = 25 ∨ e.binding = 30
  | .number value => by
    rw [binding]
    split <;> simp
  | .variable _ => .inr (.inr (.inr rfl))
  | .neg _ => .inr (.inr (.inl rfl))
  | .run _ [] => .inr (.inr (.inr rfl))
  | .run _ ((.add, _) :: _) | .run _ ((.sub, _) :: _) => .inl rfl
  | .run _ ((.mul, _) :: _) | .run _ ((.div, _) :: _) => .inr (.inl rfl)
  | .call _ _ => .inr (.inr (.inr rfl))

/-! ## Constants -/

mutual

/-- Whether all constants of an expression are finite. -/
def isFinite : Expr → Bool
  | .number value => value.isFinite
  | .variable _ => true
  | .neg operand => isFinite operand
  | .run head links => isFinite head && linksFinite links
  | .call _ argument => isFinite argument

/-- Whether all constants in the operands of links are finite. -/
def linksFinite : List (BinaryOp × Expr) → Bool
  | [] => true
  | (_, operand) :: links => isFinite operand && linksFinite links

end

theorem linksFinite_append (earlier later : List (BinaryOp × Expr)) :
    linksFinite (earlier ++ later) = (linksFinite earlier && linksFinite later) := by
  induction earlier with
  | nil => rfl
  | cons link earlier ih => simp only [List.cons_append, linksFinite, ih, Bool.and_assoc]

theorem isFinite_binary (left : Expr) (op : BinaryOp) (right : Expr) :
    (binary left op right).isFinite = (left.isFinite && right.isFinite) := by
  rcases binary_cases left op right with ⟨first, earlier, rfl, _, _, same⟩ | same
  · simp only [same, isFinite, linksFinite_append, linksFinite, Bool.and_true, Bool.and_assoc]
  · simp only [same, isFinite, linksFinite, Bool.and_true]

mutual

/-- An expression equals itself, since no constant in it is a NaN. -/
theorem same_self : ∀ e : Expr, e.isFinite = true → same e e = true
  | .number _, finite => Binary64.beq_self (Binary64.isNaN_of_isFinite finite)
  | .variable _, _ => by simp [same]
  | .neg operand, finite => same_self operand finite
  | .run head links, finite => by
    obtain ⟨first, rest⟩ := Bool.and_eq_true_iff.mp finite
    exact Bool.and_eq_true_iff.mpr ⟨same_self head first, sameLinks_self links rest⟩
  | .call function argument, finite => by
    exact Bool.and_eq_true_iff.mpr ⟨beq_self_eq_true function, same_self argument finite⟩

theorem sameLinks_self : ∀ links : List (BinaryOp × Expr),
    linksFinite links = true → sameLinks links links = true
  | [], _ => rfl
  | (op, operand) :: links, finite => by
    obtain ⟨first, rest⟩ := Bool.and_eq_true_iff.mp finite
    simp [sameLinks, same_self operand first, sameLinks_self links rest]

end

end Waveform.Expr
