import Waveform.Proofs.Expr.Written
import Waveform.Proofs.Formula.Acceptance

/-!
# Written expressions read back

The expression of a phrase is written as a phrase again, and that one costs no more than
the first (`Phrase.exists_written`). What carries the induction is how much of the cost is
left over: where the expression is looser than the category of its phrase, the phrase comes
down to a group, and what is written has no need of it.

So a formula that was understood is written as a text that is understood under the same
limits, and as the same expression.
-/

set_option autoImplicit false

namespace Waveform.Formula

/-! ## Parentheses around an expression -/

namespace Category

/-- How tightly an expression has to hold together to be a phrase of a category. -/
def binding : Category → Nat
  | chain level => level.precedence
  | operand => 25
  | primary => 30

/-- Whether an expression has to be in parentheses to be a phrase of a category. -/
def isLoose (category : Category) (e : Expr) : Bool :=
  e.binding < category.binding

/-- What is written behind an operator has to be as tight as what the operator joins. -/
theorem isLoose_inside (level : Level) (e : Expr) :
    level.inside.isLoose e = decide (e.binding < level.precedence + 1) := by
  have cases := e.binding_cases
  rw [isLoose, decide_eq_decide]
  cases level with
  | additive =>
    change e.binding < 20 ↔ e.binding < 10 + 1
    omega
  | multiplicative =>
    change e.binding < 25 ↔ e.binding < 20 + 1
    omega

theorem isLoose_le {category other : Category} (le : category.binding ≤ other.binding) (e : Expr) :
    (category.isLoose e).toNat ≤ (other.isLoose e).toNat := by
  refine Bool.toNat_le_toNat ?_
  intro loose
  rw [isLoose, decide_eq_true_eq] at loose ⊢
  omega

end Category

namespace Phrase

/-- Whether phrases of two categories differ in nothing but that. -/
structure Same {category other : Category} (phrase : Phrase category) (like : Phrase other) :
    Prop where
  chars : phrase.chars = like.chars
  tree : phrase.tree = like.tree
  charge : phrase.charge = like.charge
  nesting : phrase.nesting = like.nesting

theorem Same.refl {category : Category} (phrase : Phrase category) : phrase.Same phrase :=
  ⟨rfl, rfl, rfl, rfl⟩

/-- A primary is a phrase of every category. -/
theorem exists_of_primary (only : Phrase .primary) :
    ∀ category, ∃ phrase : Phrase category, phrase.Same only
  | .chain .additive => ⟨.single (.single (.plain only)), rfl, rfl, rfl, rfl⟩
  | .chain .multiplicative => ⟨.single (.plain only), rfl, rfl, rfl, rfl⟩
  | .operand => ⟨.plain only, rfl, rfl, rfl, rfl⟩
  | .primary => ⟨only, .refl only⟩

/-- A chain is a sum. -/
theorem exists_sum_of_chain : ∀ {level : Level} (chain : Phrase (.chain level)),
    ∃ phrase : Phrase .sum, phrase.Same chain
  | .additive, chain => ⟨chain, .refl chain⟩
  | .multiplicative, chain => ⟨.single chain, rfl, rfl, rfl, rfl⟩

/-- A chain that is tighter than its level is a single operand. -/
theorem exists_single {level : Level} (chain : Phrase (.chain level))
    (tight : level.precedence < chain.tree.binding) :
    ∃ only : Phrase level.inside, chain = .single only := by
  cases chain with
  | single only => exact ⟨only, rfl⟩
  | link before op fits last =>
    rw [tree, Expr.binding_binary, ← fits, Level.precedence_level] at tight
    omega

/-- An operand that is tighter than a sign is a primary. -/
theorem exists_plain (operand : Phrase .operand) (tight : 25 < operand.tree.binding) :
    ∃ only : Phrase .primary, operand = .plain only := by
  cases operand with
  | minus inner =>
    rw [tree, Expr.binding] at tight
    omega
  | plain only => exact ⟨only, rfl⟩

/-- A sum that is tight enough for a category is a phrase of it. -/
theorem exists_of_tight (phrase : Phrase .sum) (category : Category)
    (tight : category.binding ≤ phrase.tree.binding) :
    ∃ like : Phrase category, like.Same phrase := by
  cases category with
  | chain level =>
    cases level with
    | additive => exact ⟨phrase, .refl phrase⟩
    | multiplicative =>
      have tight : 20 ≤ phrase.tree.binding := tight
      obtain ⟨product, rfl⟩ := phrase.exists_single (lt_of_lt_of_le (by decide) tight)
      exact ⟨product, rfl, rfl, rfl, rfl⟩
  | operand =>
    have tight : 25 ≤ phrase.tree.binding := tight
    obtain ⟨product, rfl⟩ := phrase.exists_single (lt_of_lt_of_le (by decide) tight)
    obtain ⟨operand, rfl⟩ := exists_single product (lt_of_lt_of_le (by decide) tight)
    exact ⟨operand, rfl, rfl, rfl, rfl⟩
  | primary =>
    have tight : 30 ≤ phrase.tree.binding := tight
    obtain ⟨product, rfl⟩ := phrase.exists_single (lt_of_lt_of_le (by decide) tight)
    obtain ⟨operand, rfl⟩ := exists_single product (lt_of_lt_of_le (by decide) tight)
    obtain ⟨only, rfl⟩ := exists_plain operand (lt_of_lt_of_le (by decide) tight)
    exact ⟨only, rfl, rfl, rfl, rfl⟩

/-- A sum is put into parentheses where it is too loose for a category. -/
theorem exists_enclosed (phrase : Phrase .sum) (category : Category) :
    ∃ like : Phrase category,
      like.chars = Expr.enclosed (category.isLoose phrase.tree) phrase.chars ∧
      like.tree = phrase.tree ∧
      like.charge = phrase.charge + (category.isLoose phrase.tree).toNat ∧
      like.nesting = phrase.nesting + (category.isLoose phrase.tree).toNat := by
  cases loose : category.isLoose phrase.tree with
  | true =>
    obtain ⟨like, same⟩ := exists_of_primary (.group phrase) category
    exact ⟨like, same.chars, same.tree, same.charge, same.nesting⟩
  | false =>
    have tight : category.binding ≤ phrase.tree.binding := by
      rw [Category.isLoose, decide_eq_false_iff_not] at loose
      omega
    obtain ⟨like, same⟩ := phrase.exists_of_tight category tight
    exact ⟨like, same.chars, same.tree, same.charge, same.nesting⟩

/-! ## Written phrases -/

/-- Whether a sum is what the expression of a phrase is written as, and costs no more than
the phrase, with the parentheses that the expression needs in the phrase's place. -/
structure Writes {category : Category} (phrase : Phrase category) (written : Phrase .sum) :
    Prop where
  chars : written.chars = phrase.tree.chars
  tree : written.tree = phrase.tree
  charge : written.charge + (category.isLoose phrase.tree).toNat ≤ phrase.charge
  nesting : written.nesting + (category.isLoose phrase.tree).toNat ≤ phrase.nesting

section Writes

variable {level : Level} {written : Phrase .sum}

/-- A phrase is written as one of a tighter category is that is otherwise the same. -/
theorem Writes.of_same {category other : Category} {phrase : Phrase category} {like : Phrase other}
    (writes : like.Writes written) (same : phrase.Same like)
    (le : category.binding ≤ other.binding) : phrase.Writes written := by
  have loose := Category.isLoose_le le like.tree
  obtain ⟨chars, tree, charge, nesting⟩ := writes
  refine ⟨?_, ?_, ?_, ?_⟩
  · rw [same.tree, chars]
  · rw [same.tree, tree]
  · rw [same.tree, same.charge]
    exact (Nat.add_le_add_left loose _).trans charge
  · rw [same.tree, same.nesting]
    exact (Nat.add_le_add_left loose _).trans nesting

theorem writes_single {only : Phrase level.inside} (writes : only.Writes written) :
    (single only).Writes written := by
  have same : (single only).Same only := ⟨rfl, rfl, rfl, rfl⟩
  apply writes.of_same same
  cases level <;> decide

theorem writes_plain {only : Phrase .primary} (writes : only.Writes written) :
    (plain only).Writes written := by
  have same : (plain only).Same only := ⟨rfl, rfl, rfl, rfl⟩
  apply writes.of_same same
  decide

theorem writes_group {inner : Phrase .sum} (writes : inner.Writes written) :
    (group inner).Writes written := by
  have loose := Bool.toNat_le (Category.primary.isLoose inner.tree)
  obtain ⟨chars, same, charge, nesting⟩ := writes
  refine ⟨chars, same, ?_, ?_⟩ <;> simp only [Phrase.charge, Phrase.nesting, tree] <;> omega

/-- A phrase that cannot be broken apart is written as itself or as a phrase like it. -/
theorem exists_writes_of_same {phrase : Phrase .primary} (like : Phrase .primary)
    (tight : phrase.tree.binding = 30) (chars : like.chars = phrase.tree.chars)
    (same : like.tree = phrase.tree) (charge : like.charge ≤ phrase.charge)
    (nesting : like.nesting ≤ phrase.nesting) : ∃ written, phrase.Writes written := by
  have loose : Category.primary.isLoose phrase.tree = false := by
    rw [Category.isLoose, tight]
    rfl
  refine ⟨.single (.single (.plain like)), chars, same, ?_, ?_⟩ <;> rw [loose]
  · exact charge
  · exact nesting

theorem exists_writes_link {before : Phrase (.chain level)} {op : BinaryOp}
    {fits : op.level = level} {last : Phrase level.inside} {first second : Phrase .sum}
    (writes : before.Writes first) (writes' : last.Writes second) :
    ∃ written, (link before op fits last).Writes written := by
  obtain ⟨left, leftChars, leftTree, leftCharge, leftNesting⟩ :=
    first.exists_enclosed (.chain level)
  obtain ⟨right, rightChars, rightTree, rightCharge, rightNesting⟩ :=
    second.exists_enclosed level.inside
  obtain ⟨written, same⟩ := exists_sum_of_chain (link left op fits right)
  obtain ⟨chars, tree₁, charge, nesting⟩ := writes
  obtain ⟨chars', tree₂, charge', nesting'⟩ := writes'
  have precedence : level.precedence = op.precedence := by
    rw [← fits, Level.precedence_level]
  have loose : (Category.chain level).isLoose (link before op fits last).tree = false := by
    rw [Category.isLoose, tree, Expr.binding_binary, decide_eq_false_iff_not, Category.binding,
      precedence]
    exact Nat.lt_irrefl _
  refine ⟨written, ?_, ?_, ?_, ?_⟩
  · rw [same.chars, Phrase.chars, leftChars, rightChars, chars, chars', tree₁, tree₂, tree,
      Expr.chars_binary, Category.isLoose_inside, Category.isLoose, Category.binding, precedence]
  · rw [same.tree, tree, leftTree, rightTree, tree₁, tree₂, tree]
  · rw [same.charge, loose, Phrase.charge, Phrase.charge, leftCharge, rightCharge, tree₁, tree₂]
    simp only [Bool.toNat_false]
    omega
  · rw [same.nesting, loose, Phrase.nesting, Phrase.nesting, leftNesting, rightNesting, tree₁,
      tree₂]
    simp only [Bool.toNat_false]
    omega

theorem exists_writes_minus {operand : Phrase .operand} {inner : Phrase .sum}
    (writes : operand.Writes inner) : ∃ written, (minus operand).Writes written := by
  obtain ⟨like, likeChars, likeTree, likeCharge, likeNesting⟩ := inner.exists_enclosed .operand
  obtain ⟨chars, same, charge, nesting⟩ := writes
  have loose : Category.operand.isLoose (minus operand).tree = false := rfl
  refine ⟨.single (.single (.minus like)), ?_, ?_, ?_, ?_⟩
  · change '-' :: like.chars = (Expr.neg operand.tree).chars
    rw [Expr.chars_neg, likeChars, chars, same]
    rfl
  · change Expr.neg like.tree = Expr.neg operand.tree
    rw [likeTree, same]
  · change like.charge + 1 + _ ≤ operand.charge + 1
    rw [loose, likeCharge, same]
    simp only [Bool.toNat_false]
    omega
  · change like.nesting + 1 + _ ≤ operand.nesting + 1
    rw [loose, likeNesting, same]
    simp only [Bool.toNat_false]
    omega

theorem exists_writes_call {function : Builtin} {argument : Phrase .sum}
    (writes : argument.Writes written) : ∃ written, (call function argument).Writes written := by
  obtain ⟨chars, same, charge, nesting⟩ := writes
  refine exists_writes_of_same (call function written) rfl ?_ ?_ ?_ ?_
  · rw [Phrase.chars, tree, Expr.chars_call, chars]
  · rw [tree, tree, same]
  · exact Nat.add_le_add_right (Nat.le_of_add_right_le charge) 1
  · exact Nat.add_le_add_right (Nat.le_of_add_right_le nesting) 1

theorem exists_writes_literal {number : Literal} (finite : number.value.isFinite = true) :
    ∃ written, (literal number).Writes written := by
  have magnitude := number.value_isRounded.isMagnitude finite
  obtain ⟨like, chars, same, charge, nesting⟩ := exists_constant magnitude
  refine exists_writes_of_same like (binding_number magnitude) ?_ same charge.le nesting.le
  rw [chars]
  exact (List.append_nil _).symm

end Writes

/-- **The finite expression of a phrase is written as a phrase that costs no more.** -/
theorem exists_written {category : Category} (phrase : Phrase category)
    (finite : phrase.tree.isFinite = true) : ∃ written, phrase.Writes written := by
  induction phrase with
  | single only ih =>
    obtain ⟨written, writes⟩ := ih finite
    exact ⟨written, writes_single writes⟩
  | link before op fits last first second =>
    rw [tree, Expr.isFinite_binary, Bool.and_eq_true] at finite
    obtain ⟨finite, finite'⟩ := finite
    obtain ⟨left, writes⟩ := first finite
    obtain ⟨right, writes'⟩ := second finite'
    exact exists_writes_link writes writes'
  | minus operand ih =>
    obtain ⟨inner, writes⟩ := ih finite
    exact exists_writes_minus writes
  | plain only ih =>
    obtain ⟨written, writes⟩ := ih finite
    exact ⟨written, writes_plain writes⟩
  | group inner ih =>
    obtain ⟨written, writes⟩ := ih finite
    exact ⟨written, writes_group writes⟩
  | literal number => exact exists_writes_literal finite
  | letter name known =>
    exact exists_writes_of_same (letter name known) rfl rfl rfl (Nat.le_refl _)
      (Nat.le_refl _)
  | pi =>
    refine exists_writes_of_same .pi ?_ ?_ rfl (Nat.le_refl _) (Nat.le_refl _)
    · decide +kernel
    · exact numberChars_pi.symm.trans (List.append_nil _).symm
  | call function argument ih =>
    obtain ⟨written, writes⟩ := ih finite
    exact exists_writes_call writes

end Phrase

/-! ## Formulas -/

namespace Phrase

/-- The characters of a phrase are in normal form. -/
theorem isNormal_of_mem_chars {category : Category} (phrase : Phrase category) :
    ∀ c ∈ phrase.chars, Text.IsNormal c := by
  induction phrase with
  | single only ih => exact ih
  | link before op fits last first second =>
    have symbol : Text.IsNormal op.symbol := by cases op <;> decide
    simpa [chars, or_imp, forall_and] using ⟨first, symbol, second⟩
  | minus operand ih =>
    have sign : Text.IsNormal '-' := by decide
    simpa [chars] using ⟨sign, ih⟩
  | plain only ih => exact ih
  | group inner ih =>
    have opened : Text.IsNormal '(' := by decide
    have closed : Text.IsNormal ')' := by decide
    simpa [chars, or_imp, forall_and] using ⟨opened, ih, closed⟩
  | literal number =>
    intro c member
    rcases isNumeric_iff.mp (number.isNumeric_of_mem_chars c member) with digit | rfl
    · exact Text.isNormal_of_isDigit digit
    · decide
  | letter name known =>
    have normal : Text.IsNormal name := by rcases known with rfl | rfl <;> decide
    exact List.forall_mem_singleton.mpr normal
  | pi => exact List.forall_mem_cons.mpr ⟨by decide, List.forall_mem_singleton.mpr (by decide)⟩
  | call function argument ih =>
    have name : ∀ c ∈ function.name.toList, Text.IsNormal c :=
      fun c member => Text.isNormal_of_isLower (isLower_of_mem_name function c member)
    have opened : Text.IsNormal '(' := by decide
    have closed : Text.IsNormal ')' := by decide
    simpa [chars, or_imp, forall_and] using ⟨name, opened, ih, closed⟩

end Phrase

/-- **A formula that is read without findings is written as a formula that reads back as the
same expression**, under the same limits. -/
theorem parse_text_of_clean {text : String} {limits : Limits}
    (clean : (parse text limits).diagnostics = [])
    (finite : (parse text limits).expr.isFinite = true) :
    let again := parse (parse text limits).expr.text limits
    again.diagnostics = [] ∧ again.expr = (parse text limits).expr ∧
      (again.expr == (parse text limits).expr) = true := by
  obtain ⟨phrase, derives⟩ :=
    exists_derives_of_readAll (Array.toList_eq_nil_iff.mp (by rwa [parse_eq] at clean))
  have read : (parse text limits).expr = phrase.tree := by
    rw [parse_eq, readAll_of_derives derives]
  rw [read] at finite ⊢
  obtain ⟨written, writes⟩ := phrase.exists_written finite
  have normal : Text.normalChars phrase.tree.text.toList = written.chars := by
    rw [Expr.text, String.toList_ofList, ← writes.chars]
    exact Text.normalChars_of_isNormal written.isNormal_of_mem_chars
  have derives' : written.Derives (Text.normalChars phrase.tree.text.toList) limits :=
    ⟨normal.symm, (Nat.le_of_add_right_le writes.nesting).trans derives.nesting,
      (Nat.le_of_add_right_le writes.charge).trans derives.charge⟩
  have again : parse phrase.tree.text limits =
      ⟨phrase.tree, [], String.ofList written.chars⟩ := by
    rw [parse_eq, readAll_of_derives derives', writes.tree, normal]
  rw [again]
  exact ⟨rfl, rfl, Expr.same_self _ finite⟩

theorem parse_text_of_clean_product :
    let limits : Limits := ⟨3, 11⟩
    let first := parse "-((F) - (1 - t)) * 2.50" limits
    first.diagnostics = [] ∧ first.expr.isFinite = true ∧
      (parse first.expr.text limits).diagnostics = [] ∧
      (parse first.expr.text limits).expr = first.expr ∧
      ((parse first.expr.text limits).expr == first.expr) = true := by
  intro limits first
  have clean : first.diagnostics = [] := by decide +kernel
  have finite : first.expr.isFinite = true := by decide +kernel
  exact ⟨clean, finite, parse_text_of_clean clean finite⟩

end Waveform.Formula
