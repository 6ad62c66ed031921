import Waveform.Proofs.Expr.Flat
import Waveform.Proofs.Formula.Limits

/-!
# Formulas are read as flat expressions

Whatever was not understood in a formula, and whatever the limits are, the expression that it is
read as is composed in the ways that keep chains flat. This is an induction on the rules of the
reading: links are put one after the other behind what is read so far, and groups bring in chains of
either strength.
-/

set_option autoImplicit false

namespace Waveform.Formula

open Waveform.Expr

/-- What links are put behind, where a part is the links behind something. -/
def Part.sofar? : Part → Option Expr
  | .links _ sofar => some sofar
  | _ => none

theorem Level.sofar?_part (level : Level) : level.part.sofar? = none := by
  cases level <;> rfl

theorem Leaf.isComposed {place : Place} {yield : Yield} (leaf : Leaf place yield) :
    yield.expr.IsComposed := by
  cases leaf with
  | none | unexpected | number | invalid | pi | bare => exact .constant
  | letter => exact .letter

/-- What is read is composed if what links are put behind is. -/
theorem Reads.isComposed {part : Part} {place : Place} {yield : Yield}
    (reads : Reads part place yield) (before : ∀ sofar ∈ part.sofar?, sofar.IsComposed) :
    yield.expr.IsComposed := by
  induction reads with
  | @chain level _ _ _ _ _ first more =>
    refine more fun sofar same => ?_
    cases same
    exact first (by rw [level.sofar?_part]; exact nofun)
  | stop => exact before _ rfl
  | @link level _ _ _ _ _ _ _ _ _ first more =>
    refine more fun sofar same => ?_
    cases same
    exact (before _ rfl).binary _ (first (by rw [level.sofar?_part]; exact nofun))
  | minus _ _ inner => exact .neg (inner nofun)
  | @group _ sum _ _ inner =>
    change sum.closed.expr.IsComposed
    rw [Yield.closed_expr]
    exact inner nofun
  | @call _ function sum _ _ _ inner =>
    change (Expr.call function sum.closed.expr).IsComposed
    rw [Yield.closed_expr]
    exact .call (inner nofun)
  | unknown => exact .constant
  | leaf leaf => exact leaf.isComposed

theorem readAll_isComposed (limits : Limits) (text : List Char) :
    (readAll limits text).1.IsComposed := by
  obtain ⟨yield, reads⟩ := exists_readsAll text
  by_cases within : yield.Within limits.depth limits.nodes
  · rw [readAll_of_within reads limits within]
    exact Reads.isComposed reads nofun
  · have cutOff := Reads.cutOff reads limits limits.depth _ (.start limits text) rfl (Nat.le_refl _)
    obtain ⟨findings, abandoned, _⟩ := cutOff.abandons within
    have abandoned : readSum limits (operand limits limits.depth) (.start limits text) =
      .error findings := abandoned
    rw [readAll, abandoned]
    exact .constant

/-- **Chains are flat, and flattening does not show.** Each formula is read as an expression in
which all chains are in normal form, and so is each expression that is composed by chains of links
of one strength; there are no others. A chain of a head and links, whether it continues the head or
not, has the value of the operators applied from the left, and the nodes of the head and, for each
link, those of the operand and one more. -/
theorem chain_flattens_faithfully :
    (∀ (formula : String) (limits : Limits), (parse formula limits).expr.IsFlat) ∧
      (∀ e : Expr, e.IsComposed ↔ e.IsFlat) ∧
      ∀ (head : Expr) (links : List (BinaryOp × Expr)),
        (∀ x, (chain head links).eval x =
          links.foldl (fun value link => link.1.apply value (link.2.eval x)) (head.eval x)) ∧
        (chain head links).nodeCount =
          head.nodeCount + (links.map fun link => 1 + link.2.nodeCount).sum := by
  refine ⟨fun formula limits => ?_, fun e => isComposed_iff_isFlat, fun head links =>
    ⟨fun x => ?_, ?_⟩⟩
  · rw [parse_eq]
    exact (readAll_isComposed limits _).isFlat
  · rw [eval_chain, evalLinks_eq_foldl]
  · rw [nodeCount_chain, linksNodeCount_eq_sum]

end Waveform.Formula
