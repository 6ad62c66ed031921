import Waveform.Proofs.Expr.Signed
import Waveform.Proofs.Formula.RoundTrip

/-!
# Expressions put together by hand

An expression that is not the reading of a formula may have negative constants, for which
formulas have no literal. It is written as a phrase nevertheless (`IsBuilt.exists_restores`): the
sign that a negative constant is written with is read as a sign in front of a literal. So what
comes back is the expression with signs for its negative constants, which has the same value
everywhere.

It is also written in the same way, with one exception. A constant is written by its name only
where it is the circle constant itself. The negative of it is written by its digits, and comes
back as `-pi`.
-/

set_option autoImplicit false

/-! ## Negative constants -/

namespace Waveform.Formula

open Binary64 Float.Model

/-- A finite constant other than the negative zero is a magnitude or the negative of one that is
not zero. -/
theorem isMagnitude_or_neg {value : Float} (finite : value.isFinite = true)
    (notNegZero : value ≠ -0.0) : IsMagnitude value ∨ ∃ x, value = -x ∧
      ∃ (mantissa : ℕ) (exponent : ℤ) (canonical : IsCanonical mantissa exponent),
        exponent ≤ 971 ∧ parts x = .finite .positive mantissa exponent canonical.positive := by
  obtain ⟨canonical, bounded⟩ := canonical_parts value
  have finite : (parts value).isFinite = true := finite
  cases same : parts value with
  | notANumber | infinity =>
    rw [same] at finite
    cases finite
  | zero sign =>
    cases sign with
    | positive => exact .inl (.inl same)
    | negative =>
      refine absurd (ext_parts ?_) notNegZero
      rw [same, parts_neg, show parts 0.0 = .zero .positive from parts_ofScientific_zero true 1]
      rfl
  | finite sign mantissa exponent positive =>
    rw [same] at canonical bounded
    have small : exponent ≤ 971 := by
      by_contra large
      rw [Binary64.bounded, if_pos (not_le.mp large)] at bounded
      cases bounded
    cases sign with
    | positive => exact .inl (.inr ⟨mantissa, exponent, canonical, small, same⟩)
    | negative =>
      refine .inr ⟨-value, (Binary64.neg_neg value).symm, mantissa, exponent, canonical, small, ?_⟩
      rw [parts_neg, same]
      rfl

section Negative

variable {x : Float} {mantissa : ℕ} {exponent : ℤ} {positive : 0 < mantissa}
  (same : parts x = .finite .positive mantissa exponent positive)
include same

theorem parts_neg_of_positive : parts (-x) = .finite .negative mantissa exponent positive := by
  rw [parts_neg, same]
  rfl

theorem neg_lt_zero : -x < 0 := by
  rw [lt_iff, parts_neg_of_positive same, Binary64.parts_zero]
  rfl

theorem neg_ne_pi : (-x == Kernel.pi) = false := by
  refine Bool.eq_false_iff.mpr ?_
  intro isPi
  have negative := neg_lt_zero same
  rw [eq_pi_of_beq isPi] at negative
  exact absurd negative (by decide +kernel)

theorem wholeNumber?_neg : wholeNumber? (-x) = (wholeNumber? x).map (- ·) := by
  have same' : (-x).toModel.unpack = _ := parts_neg_of_positive same
  have same : x.toModel.unpack = _ := same
  simp only [wholeNumber?, same, same']
  split <;> rfl

theorem toList_plainText_neg :
    (Decimal.plainText (-x)).toList = '-' :: (Decimal.plainText x).toList := by
  rw [plainText_eq same, plainText_eq (parts_neg_of_positive same)]
  unfold Decimal.Layout.place
  dsimp only
  split
  · rfl
  · split <;> rfl

omit same in
theorem toList_toString_neg {n : ℕ} (positive : 0 < n) :
    (toString (-(n : ℤ))).toList = '-' :: (toString (n : ℤ)).toList := by
  obtain ⟨n, rfl⟩ := Nat.exists_eq_succ_of_ne_zero positive.ne'
  exact String.toList_append

/-- The digits of a negative constant are those of its magnitude, with a sign in front. -/
theorem digitChars_neg : digitChars (-x) = '-' :: digitChars x := by
  have abs : (-x).abs = x.abs := by
    apply ext_parts
    rw [parts_abs, parts_abs, parts_neg, same]
    rfl
  unfold digitChars
  rw [wholeNumber?_neg same, abs, toList_plainText_neg same]
  cases found : wholeNumber? x with
  | none => rfl
  | some whole =>
    obtain ⟨n, rfl, value⟩ := exists_of_wholeNumber? same found
    have some : 0 < n := by
      have value : 0 < (n : ℚ) := by
        rw [value]
        positivity
      exact_mod_cast value
    dsimp only [Option.map_some]
    rw [toList_toString_neg some]
    split <;> rfl

/-- A negative constant is written by its digits. -/
theorem numberChars_neg : Expr.numberChars (-x) = '-' :: digitChars x := by
  have finite : (-x).isFinite = true := by
    change (parts (-x)).isFinite = true
    rw [parts_neg_of_positive same]
    rfl
  rw [numberChars_eq finite (neg_ne_pi same), digitChars_neg same]

end Negative

end Waveform.Formula

/-! ## Expressions and their phrases -/

namespace Waveform.Expr

open Formula

/-- Whether an expression is put together from finite constants, of which none is the negative
zero, and the letters of the variable, where all operators of a chain have one precedence. -/
inductive IsBuilt : Expr → Prop where
  | number {value : Float} (finite : value.isFinite = true) (notNegZero : value ≠ -0.0) :
      IsBuilt (.number value)
  | letter {name : Char} (known : name = 'f' ∨ name = 't') : IsBuilt (.variable name)
  | neg {operand : Expr} (built : IsBuilt operand) : IsBuilt (.neg operand)
  | chain {head : Expr} {links : List (BinaryOp × Expr)} {strength : Nat} (built : IsBuilt head)
      (unmixed : ∀ link ∈ links, link.1.precedence = strength)
      (operands : ∀ link ∈ links, IsBuilt link.2) : IsBuilt (Expr.chain head links)
  | call {function : Builtin} {argument : Expr} (built : IsBuilt argument) :
      IsBuilt (.call function argument)

/-- Whether a phrase is what an expression is written as, and is read as the expression with
signs for its negative constants. That is written in the same way again, if the negative of the
circle constant is not among them. -/
structure Restores (e : Expr) (phrase : Phrase .sum) : Prop where
  chars : phrase.chars = e.chars
  tree : phrase.tree = e.signed
  written : -Kernel.pi ∉ e.constants → e.signed.chars = e.chars

/-- A constant that needs no sign of its own. -/
theorem exists_restores_magnitude {value : Float} (magnitude : Binary64.IsMagnitude value) :
    ∃ phrase, Restores (.number value) phrase := by
  have signed : (number value).signed = .number value := by
    rw [Expr.signed, if_neg (not_lt_zero magnitude)]
  obtain ⟨like, chars, tree, _⟩ := exists_constant magnitude
  refine ⟨.single (.single (.plain like)), ?_, ?_, fun _ => by rw [signed]⟩
  · exact chars.trans (List.append_nil _).symm
  · exact tree.trans signed.symm

/-- A negative constant, which is written by its digits with a sign in front. -/
theorem exists_restores_negative {x : Float} {mantissa : ℕ} {exponent : ℤ}
    (canonical : Binary64.IsCanonical mantissa exponent) (small : exponent ≤ 971)
    (same : Binary64.parts x = .finite .positive mantissa exponent canonical.positive) :
    ∃ phrase, Restores (.number (-x)) phrase := by
  have signed : (number (-x)).signed = .neg (.number x) := by
    rw [Expr.signed, if_pos (neg_lt_zero same), Binary64.neg_neg]
  have written : (number (-x)).chars = '-' :: digitChars x := by
    rw [Expr.chars, write, numberChars_neg same, List.append_nil]
  obtain ⟨literal, chars, value⟩ := exists_literal canonical small same
  refine ⟨.single (.single (.minus (.plain (.literal literal)))), ?_, ?_, ?_⟩
  · rw [written, ← chars]
    rfl
  · rw [signed, ← value]
    rfl
  · intro notPi
    have notPi : (x == Kernel.pi) = false := by
      refine Bool.eq_false_iff.mpr fun isPi => notPi ?_
      rw [eq_pi_of_beq isPi]
      exact List.mem_singleton_self _
    have finite : x.isFinite = true := by
      change (Binary64.parts x).isFinite = true
      rw [same]
      rfl
    have tight : (number x).binding = 30 :=
      binding_number (.inr ⟨mantissa, exponent, canonical, small, same⟩)
    rw [signed, written, chars_neg, tight, Expr.chars, write, numberChars_eq finite notPi,
      List.append_nil]
    rfl

variable {e : Expr} {phrase : Phrase .sum}

theorem Restores.exists_neg (restores : Restores e phrase) : ∃ like, Restores (.neg e) like := by
  obtain ⟨like, chars, tree, _⟩ := phrase.exists_enclosed .operand
  have loose : Category.operand.isLoose phrase.tree = decide (e.binding < 25) := by
    rw [restores.tree, Category.isLoose, binding_signed]
    rfl
  refine ⟨.single (.single (.minus like)), ?_, ?_, ?_⟩
  · rw [chars_neg, ← restores.chars, ← loose, ← chars]
    rfl
  · change Expr.neg like.tree = .neg e.signed
    rw [tree, restores.tree]
  · intro notPi
    rw [signed, chars_neg, chars_neg, binding_signed, restores.written notPi]

theorem Restores.exists_call (restores : Restores e phrase) (function : Builtin) :
    ∃ like, Restores (.call function e) like := by
  refine ⟨.single (.single (.plain (.call function phrase))), ?_, ?_, ?_⟩
  · rw [chars_call, ← restores.chars]
    rfl
  · change Expr.call function phrase.tree = .call function e.signed
    rw [restores.tree]
  · intro notPi
    rw [signed, chars_call, chars_call, restores.written notPi]

theorem Restores.exists_binary {right : Expr} {phrase' : Phrase .sum} (restores : Restores e phrase)
    (op : BinaryOp) (restores' : Restores right phrase') :
    ∃ like, Restores (binary e op right) like := by
  obtain ⟨left, leftChars, leftTree, _⟩ := phrase.exists_enclosed (.chain op.level)
  obtain ⟨last, lastChars, lastTree, _⟩ := phrase'.exists_enclosed op.level.inside
  obtain ⟨like, same⟩ := Phrase.exists_sum_of_chain (.link left op rfl last)
  have loose :
      (Category.chain op.level).isLoose phrase.tree = decide (e.binding < op.precedence) := by
    rw [restores.tree, Category.isLoose, binding_signed, Category.binding, Level.precedence_level]
  have loose' : op.level.inside.isLoose phrase'.tree =
      decide (right.binding < op.precedence + 1) := by
    rw [restores'.tree, Category.isLoose_inside, binding_signed, Level.precedence_level]
  refine ⟨like, ?_, ?_, ?_⟩
  · rw [same.chars, Phrase.chars, leftChars, lastChars, restores.chars, restores'.chars, loose,
      loose', chars_binary]
  · rw [same.tree, Phrase.tree, leftTree, lastTree, restores.tree, restores'.tree, signed_binary]
  · intro notPi
    rw [constants_binary, List.mem_append, not_or] at notPi
    rw [signed_binary, chars_binary, chars_binary, binding_signed, binding_signed,
      restores.written notPi.1, restores'.written notPi.2]

/-- Links are put behind an expression one after the other. -/
theorem Restores.exists_chain (restores : Restores e phrase) {links : List (BinaryOp × Expr)}
    {strength : Nat} (unmixed : ∀ link ∈ links, link.1.precedence = strength)
    (operands : ∀ link ∈ links, ∃ phrase, Restores link.2 phrase) :
    ∃ like, Restores (chain e links) like := by
  induction links generalizing e phrase with
  | nil => exact ⟨phrase, restores⟩
  | cons link links ih =>
    obtain ⟨op, operand⟩ := link
    obtain ⟨precedence, unmixed⟩ := List.forall_mem_cons.mp unmixed
    obtain ⟨⟨phrase', restores'⟩, operands⟩ := List.forall_mem_cons.mp operands
    obtain ⟨like, binary⟩ := restores.exists_binary op restores'
    have fits : strength? links = none ∨ strength? links = some op.precedence := by
      cases links with
      | nil => exact .inl rfl
      | cons next links =>
        refine .inr (congrArg some ?_)
        exact (unmixed next List.mem_cons_self).trans precedence.symm
    rw [← chain_binary e op operand fits]
    exact ih binary unmixed operands

/-- **An expression that was put together is written as a phrase of the expression with signs for
its negative constants.** -/
theorem IsBuilt.exists_restores {e : Expr} (built : e.IsBuilt) : ∃ phrase, Restores e phrase := by
  induction built with
  | number finite notNegZero =>
    rcases isMagnitude_or_neg finite notNegZero with
      magnitude | ⟨x, rfl, mantissa, exponent, canonical, small, same⟩
    · exact exists_restores_magnitude magnitude
    · exact exists_restores_negative canonical small same
  | @letter name known =>
    exact ⟨.single (.single (.plain (.letter name known))), rfl, rfl, fun _ => rfl⟩
  | neg built ih =>
    obtain ⟨phrase, restores⟩ := ih
    exact restores.exists_neg
  | chain built unmixed operands ih ihs =>
    obtain ⟨phrase, restores⟩ := ih
    exact restores.exists_chain unmixed ihs
  | @call function argument built ih =>
    obtain ⟨phrase, restores⟩ := ih
    exact restores.exists_call function

end Waveform.Expr

namespace Waveform.Formula

open Waveform.Expr

/-! ## Formulas -/

/-- What is written as a phrase is read as it under limits that are large enough. -/
theorem parse_of_restores {e : Expr} {phrase : Phrase .sum} (restores : Restores e phrase)
    {limits : Limits} (depth : phrase.nesting ≤ limits.depth)
    (nodes : phrase.charge ≤ limits.nodes) :
    (parse e.text limits).diagnostics = [] ∧ (parse e.text limits).expr = e.signed := by
  have normal : Text.normalChars e.text.toList = phrase.chars := by
    rw [Expr.text, String.toList_ofList, ← restores.chars]
    exact Text.normalChars_of_isNormal phrase.isNormal_of_mem_chars
  have derives : phrase.Derives (Text.normalChars e.text.toList) limits :=
    ⟨normal.symm, depth, nodes⟩
  rw [parse_eq, readAll_of_derives derives, restores.tree]
  exact ⟨rfl, rfl⟩

/-- **An expression that was put together is written as a formula of the same value**, which is
read without findings, as the expression with signs for its negative constants. That is written
in the same way, unless the negative of the circle constant is among them. -/
theorem parse_text_of_isBuilt {e : Expr} (built : e.IsBuilt) :
    ∃ depth nodes, ∀ limits : Limits, depth ≤ limits.depth → nodes ≤ limits.nodes →
      (parse e.text limits).diagnostics = [] ∧ (parse e.text limits).expr = e.signed ∧
        (-Kernel.pi ∉ e.constants → (parse e.text limits).expr.text = e.text) ∧
        ∀ x, (parse e.text limits).expr.eval x = e.eval x := by
  obtain ⟨phrase, restores⟩ := built.exists_restores
  refine ⟨phrase.nesting, phrase.charge, ?_⟩
  intro limits depth nodes
  obtain ⟨clean, read⟩ := parse_of_restores restores depth nodes
  rw [read]
  refine ⟨clean, rfl, ?_, fun x => eval_signed x e⟩
  intro notPi
  rw [text, restores.written notPi, text]

theorem parse_text_of_isBuilt_negative :
    let e := chain (.number (-2.5)) [(.mul, .neg (.number (-3))),
      (.div,
        .call .sin (chain (.variable 'f') [(.sub, .number (-1e10)), (.add, .number Kernel.pi)]))]
    e.IsBuilt ∧ -Kernel.pi ∉ e.constants ∧
      ∃ depth nodes, ∀ limits : Limits, depth ≤ limits.depth → nodes ≤ limits.nodes →
        (parse e.text limits).diagnostics = [] ∧ (parse e.text limits).expr = e.signed ∧
          (-Kernel.pi ∉ e.constants → (parse e.text limits).expr.text = e.text) ∧
          ∀ x, (parse e.text limits).expr.eval x = e.eval x := by
  intro e
  have two : (Expr.number (-2.5)).IsBuilt := .number (by decide +kernel) (by decide +kernel)
  have three : (Expr.number (-3)).IsBuilt := .number (by decide +kernel) (by decide +kernel)
  have large : (Expr.number (-1e10)).IsBuilt := .number (by decide +kernel) (by decide +kernel)
  have pi : (Expr.number Kernel.pi).IsBuilt := .number (by decide +kernel) (by decide +kernel)
  have argument :
      (chain (.variable 'f') [(.sub, .number (-1e10)), (.add, .number Kernel.pi)]).IsBuilt :=
    @IsBuilt.chain _ _ 10 (.letter (.inl rfl)) (by simp [BinaryOp.precedence]) (by simp [large, pi])
  have built : e.IsBuilt :=
    @IsBuilt.chain _ _ 20 two (by simp [BinaryOp.precedence]) (by simp [three.neg, argument.call])
  have others : ∀ value ∈ e.constants, value ≠ -Kernel.pi := by decide +kernel
  have notPi : -Kernel.pi ∉ e.constants := fun member => others _ member rfl
  exact ⟨built, notPi, parse_text_of_isBuilt built⟩

/-- **The negative of the circle constant is not written in the same way again**, however large
the limits are: its digits come back as `-pi`. -/
theorem parse_text_of_negative_pi :
    let e := Expr.number (-Kernel.pi)
    e.IsBuilt ∧ ¬ ∃ depth nodes, ∀ limits : Limits, depth ≤ limits.depth → nodes ≤ limits.nodes →
      (parse e.text limits).expr.text = e.text := by
  intro e
  have built : e.IsBuilt := .number (by decide +kernel) (by decide +kernel)
  refine ⟨built, ?_⟩
  rintro ⟨depth, nodes, same⟩
  obtain ⟨phrase, restores⟩ := built.exists_restores
  have again := same ⟨max depth phrase.nesting, max nodes phrase.charge⟩
    (Nat.le_max_left _ _) (Nat.le_max_left _ _)
  rw [(parse_of_restores restores (Nat.le_max_right _ _) (Nat.le_max_right _ _)).2] at again
  have other : e.signed.text ≠ e.text := by decide +kernel
  exact other again

end Waveform.Formula
