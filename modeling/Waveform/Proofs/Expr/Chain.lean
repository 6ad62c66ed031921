import Waveform.Expr.Basic

/-!
# Chains of operators

Links behind an expression either continue the chain that it is, when that has their
strength, or start a chain of which it is the head. In both cases links can be put
behind an expression one after the other (`chain_binary`), the value is what the links
make of the value of the head (`eval_chain`), no node is lost (`nodeCount_chain`), and
the height grows by one at most (`depth_chain_le`).
-/

set_option autoImplicit false

namespace Waveform.Expr

variable {links : List (BinaryOp × Expr)}

/-- The strength of the links that an expression ends in, if it is a chain. -/
def runStrength? : Expr → Option Nat
  | .run _ links => strength? links
  | _ => none

@[simp]
theorem chain_nil (head : Expr) : chain head [] = head := rfl

/-- A chain is continued by links of its strength. -/
theorem chain_of_same {first : Expr} {earlier : List (BinaryOp × Expr)} (nonempty : links ≠ [])
    (same : strength? earlier = strength? links) :
    chain (.run first earlier) links = .run first (earlier ++ links) := by
  have notNil : links.isEmpty = false := by simpa using nonempty
  simp only [chain, notNil, same, if_true, Bool.false_eq_true, if_false]

/-- Links start a chain behind anything else. -/
theorem chain_of_other {head : Expr} (nonempty : links ≠ [])
    (other : runStrength? head ≠ strength? links) : chain head links = .run head links := by
  have notNil : links.isEmpty = false := by simpa using nonempty
  unfold chain
  simp only [notNil, Bool.false_eq_true, if_false]
  split
  · exact if_neg other
  · rfl

theorem strength?_append {earlier : List (BinaryOp × Expr)} (nonempty : earlier ≠ []) :
    strength? (earlier ++ links) = strength? earlier := by
  cases earlier with
  | nil => exact absurd rfl nonempty
  | cons link earlier => rfl

theorem ne_nil_of_strength? {strength : Nat} (some : strength? links = some strength) :
    links ≠ [] := by
  rintro rfl
  cases some

/-- The first link can be put behind the head before the others. -/
theorem chain_binary (head : Expr) (op : BinaryOp) (operand : Expr)
    (fits : strength? links = none ∨ strength? links = some op.precedence) :
    chain (binary head op operand) links = chain head ((op, operand) :: links) := by
  rcases fits with none | same
  · cases links with
    | nil => rfl
    | cons link links => cases none
  have nonempty : links ≠ [] := ne_nil_of_strength? same
  by_cases continued : runStrength? head = some op.precedence
  · cases head with
    | run first earlier =>
      have earlierNonempty : earlier ≠ [] := ne_nil_of_strength? continued
      have one : binary (.run first earlier) op operand =
          .run first (earlier ++ [(op, operand)]) :=
        chain_of_same (List.cons_ne_nil _ _) continued
      have all : chain (.run first earlier) ((op, operand) :: links) =
          .run first (earlier ++ (op, operand) :: links) :=
        chain_of_same (List.cons_ne_nil _ _) continued
      have stays : strength? (earlier ++ [(op, operand)]) = strength? links :=
        (strength?_append earlierNonempty).trans (continued.trans same.symm)
      rw [one, all, chain_of_same nonempty stays, List.append_assoc]
      rfl
    | _ => cases continued
  · have one : binary head op operand = .run head [(op, operand)] :=
      chain_of_other (List.cons_ne_nil _ _) continued
    have all : chain head ((op, operand) :: links) = .run head ((op, operand) :: links) :=
      chain_of_other (List.cons_ne_nil _ _) continued
    have fits : strength? [(op, operand)] = strength? links := same.symm
    rw [one, all, chain_of_same nonempty fits]
    rfl

/-! ## Values -/

theorem evalLinks_append (x value : Float) (earlier later : List (BinaryOp × Expr)) :
    evalLinks x value (earlier ++ later) = evalLinks x (evalLinks x value earlier) later := by
  induction earlier generalizing value with
  | nil => rfl
  | cons link earlier ih => exact ih _

/-- The value of a chain is what its links make of the value of the head. -/
theorem eval_chain (x : Float) (head : Expr) (links : List (BinaryOp × Expr)) :
    eval x (chain head links) = evalLinks x (eval x head) links := by
  by_cases nonempty : links = []
  · subst nonempty
    rfl
  by_cases continued : runStrength? head = strength? links
  · cases head with
    | run first earlier =>
      rw [chain_of_same nonempty continued]
      exact evalLinks_append x _ earlier links
    | _ =>
      cases links with
      | nil => exact absurd rfl nonempty
      | cons => cases continued
  · rw [chain_of_other nonempty continued]
    rfl

theorem eval_binary (x : Float) (left : Expr) (op : BinaryOp) (right : Expr) :
    eval x (binary left op right) = op.apply (eval x left) (eval x right) :=
  eval_chain x left [(op, right)]

/-! ## Nodes -/

theorem linksNodeCount_append (earlier later : List (BinaryOp × Expr)) :
    linksNodeCount (earlier ++ later) = linksNodeCount earlier + linksNodeCount later := by
  induction earlier with
  | nil => simp [linksNodeCount]
  | cons link earlier ih => simp only [List.cons_append, linksNodeCount, ih]; omega

/-- A chain has the nodes of its head, and an operator and an operand for each link. -/
theorem nodeCount_chain (head : Expr) (links : List (BinaryOp × Expr)) :
    nodeCount (chain head links) = nodeCount head + linksNodeCount links := by
  by_cases nonempty : links = []
  · subst nonempty
    rfl
  by_cases continued : runStrength? head = strength? links
  · cases head with
    | run first earlier =>
      rw [chain_of_same nonempty continued]
      simp only [nodeCount, linksNodeCount_append]
      omega
    | _ =>
      cases links with
      | nil => exact absurd rfl nonempty
      | cons => cases continued
  · rw [chain_of_other nonempty continued]
    rfl

theorem nodeCount_binary (left : Expr) (op : BinaryOp) (right : Expr) :
    nodeCount (binary left op right) = nodeCount left + 1 + nodeCount right := by
  have count := nodeCount_chain left [(op, right)]
  simp only [linksNodeCount] at count
  exact count.trans (by omega)

/-! ## Height -/

theorem linksDepth_append (earlier later : List (BinaryOp × Expr)) :
    linksDepth (earlier ++ later) = max (linksDepth earlier) (linksDepth later) := by
  induction earlier with
  | nil => simp [linksDepth]
  | cons link earlier ih => simp only [List.cons_append, linksDepth, ih, Nat.max_assoc]

/-- A chain is at most one higher than the highest of its head and its operands. -/
theorem depth_chain_le (head : Expr) (links : List (BinaryOp × Expr)) :
    depth (chain head links) ≤ max (depth head) (linksDepth links) + 1 := by
  by_cases nonempty : links = []
  · subst nonempty
    rw [chain_nil]
    omega
  by_cases continued : runStrength? head = strength? links
  · cases head with
    | run first earlier =>
      rw [chain_of_same nonempty continued]
      simp only [depth, linksDepth_append]
      omega
    | _ =>
      cases links with
      | nil => exact absurd rfl nonempty
      | cons => cases continued
  · rw [chain_of_other nonempty continued, depth]
    omega

end Waveform.Expr
