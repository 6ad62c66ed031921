import Mathlib.Algebra.GroupWithZero.Nat
import Waveform.Proofs.Expr.Chain

/-!
# Flat expressions

An expression is flat if each chain in it has links, these have one strength, and what they are put
behind is no chain of that strength (`IsFlat`). Nothing in the type of expressions says so, but
`Expr.chain` keeps it: expressions are flat exactly when they are composed of constants, letters,
signs, calls and chains of links of one strength (`isComposed_iff_isFlat`).

Whether a chain is continued or started is not seen from outside: the value is what the links make
of the value of the head, from the left, and the nodes are those of the head and of the links.
-/

set_option autoImplicit false

namespace Waveform.Expr

/-! ## Parts -/

/-- What is a part of an expression: the expression itself, and the parts of what it is made of. -/
inductive IsPart (part : Expr) : Expr → Prop where
  | itself : IsPart part part
  | operand {operand : Expr} (inside : IsPart part operand) : IsPart part (.neg operand)
  | head {head : Expr} {links : List (BinaryOp × Expr)} (inside : IsPart part head) :
      IsPart part (.run head links)
  | link {head : Expr} {links : List (BinaryOp × Expr)} {link : BinaryOp × Expr}
      (member : link ∈ links) (inside : IsPart part link.2) : IsPart part (.run head links)
  | argument {function : Builtin} {argument : Expr} (inside : IsPart part argument) :
      IsPart part (.call function argument)

/-! ## Chains in normal form -/

/-- Whether a head and links are a chain in normal form: there are links, they have one strength,
and the head is no chain of that strength. -/
structure IsChain (head : Expr) (links : List (BinaryOp × Expr)) : Prop where
  nonempty : links ≠ []
  unmixed : ∀ link ∈ links, ∀ other ∈ links, link.1.precedence = other.1.precedence
  maximal : runStrength? head ≠ strength? links

/-- Whether all chains in an expression are in normal form. -/
def IsFlat (e : Expr) : Prop :=
  ∀ head links, IsPart (.run head links) e → IsChain head links

variable {e head : Expr} {links : List (BinaryOp × Expr)}

theorem IsFlat.of_isPart {part : Expr} (flat : e.IsFlat)
    (inside : ∀ inner, IsPart inner part → IsPart inner e) :
    part.IsFlat :=
  fun head links chain => flat head links (inside _ chain)

theorem isFlat_number (value : Float) : (number value).IsFlat := by
  intro head links part
  cases part

theorem isFlat_variable (name : Char) : (Expr.variable name).IsFlat := by
  intro head links part
  cases part

theorem IsFlat.neg (flat : e.IsFlat) : (neg e).IsFlat := by
  intro head links part
  cases part with
  | operand inside => exact flat head links inside

theorem IsFlat.call (flat : e.IsFlat) (function : Builtin) : (call function e).IsFlat := by
  intro head links part
  cases part with
  | argument inside => exact flat head links inside

theorem IsChain.isFlat (chain : IsChain head links) (flat : head.IsFlat)
    (operands : ∀ link ∈ links, link.2.IsFlat) : (run head links).IsFlat := by
  intro head' links' part
  cases part with
  | itself => exact chain
  | head inside => exact flat head' links' inside
  | link member inside => exact operands _ member head' links' inside

theorem strength?_of_unmixed {strength : Nat} (nonempty : links ≠ [])
    (unmixed : ∀ link ∈ links, link.1.precedence = strength) : strength? links = some strength := by
  obtain ⟨link, links, rfl⟩ := List.exists_cons_of_ne_nil nonempty
  exact congrArg some (unmixed link List.mem_cons_self)

/-- **Chains that are put together stay flat**: links of one strength continue a chain of that
strength, and start one behind anything else. -/
theorem IsFlat.chain {strength : Nat} (flat : head.IsFlat)
    (unmixed : ∀ link ∈ links, link.1.precedence = strength)
    (operands : ∀ link ∈ links, link.2.IsFlat) : (Expr.chain head links).IsFlat := by
  by_cases nonempty : links = []
  · rwa [nonempty]
  have links' := strength?_of_unmixed nonempty unmixed
  by_cases continued : runStrength? head = strength? links
  · cases head with
    | run first earlier =>
      have before := flat first earlier .itself
      have same (link : BinaryOp × Expr) (member : link ∈ earlier) :
          link.1.precedence = strength := by
        obtain ⟨one, rest, rfl⟩ := List.exists_cons_of_ne_nil before.nonempty
        rw [before.unmixed link member one List.mem_cons_self]
        exact Option.some.inj (continued.trans links')
      have unmixed' : ∀ link ∈ earlier ++ links, link.1.precedence = strength := fun link member =>
        (List.mem_append.mp member).elim (same link) (unmixed link)
      rw [chain_of_same nonempty continued]
      refine IsChain.isFlat ⟨?_, ?_, ?_⟩ ?_ ?_
      · exact List.append_ne_nil_of_left_ne_nil before.nonempty links
      · intro link member other member'
        rw [unmixed' link member, unmixed' other member']
      · rw [strength?_append before.nonempty]
        exact before.maximal
      · exact flat.of_isPart fun _ inside => .head inside
      · intro link member
        rcases List.mem_append.mp member with early | late
        · exact flat.of_isPart fun _ inside => .link early inside
        · exact operands link late
    | _ => cases continued.trans links'
  · rw [chain_of_other nonempty continued]
    refine IsChain.isFlat ⟨nonempty, ?_, continued⟩ flat operands
    intro link member other member'
    rw [unmixed link member, unmixed other member']

/-! ## Expressions that are put together -/

/-- Whether an expression is composed of constants and letters by signs, calls, and chains of links
of one strength. -/
inductive IsComposed : Expr → Prop where
  | constant {value : Float} : IsComposed (.number value)
  | letter {name : Char} : IsComposed (.variable name)
  | neg {operand : Expr} (composed : IsComposed operand) : IsComposed (.neg operand)
  | chain {head : Expr} {links : List (BinaryOp × Expr)} {strength : Nat}
      (composed : IsComposed head)
      (unmixed : ∀ link ∈ links, link.1.precedence = strength)
      (operands : ∀ link ∈ links, IsComposed link.2) : IsComposed (Expr.chain head links)
  | call {function : Builtin} {argument : Expr} (composed : IsComposed argument) :
      IsComposed (.call function argument)

theorem IsComposed.binary {left right : Expr} (composed : left.IsComposed) (op : BinaryOp)
    (composed' : right.IsComposed) : (binary left op right).IsComposed :=
  .chain composed (List.forall_mem_singleton.mpr rfl) (List.forall_mem_singleton.mpr composed')

theorem IsComposed.isFlat (composed : e.IsComposed) : e.IsFlat := by
  induction composed with
  | constant => exact isFlat_number _
  | letter => exact isFlat_variable _
  | neg _ ih => exact ih.neg
  | chain _ unmixed _ ih ihs => exact ih.chain unmixed ihs
  | call _ ih => exact ih.call _

mutual

/-- A flat expression is composed: each chain in it is the chain of its head and its links. -/
theorem IsFlat.isComposed : ∀ e : Expr, e.IsFlat → e.IsComposed
  | .number _, _ => .constant
  | .variable _, _ => .letter
  | .neg operand, flat => .neg (isComposed operand (flat.of_isPart fun _ => .operand))
  | .run head links, flat => by
    have chain := flat head links .itself
    obtain ⟨link, rest, same⟩ := List.exists_cons_of_ne_nil chain.nonempty
    rw [← chain_of_other chain.nonempty chain.maximal]
    have unmixed (other : BinaryOp × Expr) (member : other ∈ links) :
        other.1.precedence = link.1.precedence :=
      chain.unmixed other member link (same ▸ List.mem_cons_self)
    refine .chain ?_ unmixed ?_
    · exact isComposed head (flat.of_isPart fun _ => .head)
    · exact areComposed links fun link member => flat.of_isPart fun _ => .link member
  | .call _ argument, flat => .call (isComposed argument (flat.of_isPart fun _ => .argument))

theorem IsFlat.areComposed : ∀ links : List (BinaryOp × Expr), (∀ link ∈ links, link.2.IsFlat) →
    ∀ link ∈ links, link.2.IsComposed
  | [], _ => nofun
  | (_, operand) :: links, flat =>
    List.forall_mem_cons.mpr ⟨isComposed operand (flat _ List.mem_cons_self),
      areComposed links fun link member => flat link (List.mem_cons_of_mem _ member)⟩

end

/-- **The flat expressions are those that can be put together.** -/
theorem isComposed_iff_isFlat : e.IsComposed ↔ e.IsFlat :=
  ⟨IsComposed.isFlat, IsFlat.isComposed e⟩

/-! ## Values and nodes of chains -/

/-- Links are applied from the left. -/
theorem evalLinks_eq_foldl (x value : Float) (links : List (BinaryOp × Expr)) :
    evalLinks x value links =
      links.foldl (fun value link => link.1.apply value (eval x link.2)) value := by
  induction links generalizing value with
  | nil => rfl
  | cons link links ih => exact ih _

theorem linksNodeCount_eq_sum (links : List (BinaryOp × Expr)) :
    linksNodeCount links = (links.map fun link => 1 + nodeCount link.2).sum := by
  induction links with
  | nil => rfl
  | cons link links ih => rw [linksNodeCount, ih, List.map_cons, List.sum_cons]

end Waveform.Expr
