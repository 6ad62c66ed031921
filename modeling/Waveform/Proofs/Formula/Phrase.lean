import Waveform.Formula.Parsed
import Waveform.Proofs.Text.Normal

/-!
# Phrases of the grammar

The formulas that are understood completely are those of a grammar with four
categories. A sum is one product or a sum followed by `+` or `-` and a product; a
product is one operand or a product followed by `*` or `/` and an operand; an operand
is a primary or a sign `-` in front of an operand; a primary is a group, a literal, the
variable, the constant or a call. Sums and products differ only in their operators and
in what these join, so both are chains of a level.

A phrase is a derivation in this grammar. It has its characters, its value at every
`x`, the number of nodes it is charged, and its nesting, the largest number of signs,
groups and calls around one place.
-/

set_option autoImplicit false

/-! ## Levels -/

namespace Waveform.Formula

/-- The two strengths of operators. -/
inductive Level where
  | additive
  | multiplicative
  deriving DecidableEq, Repr

end Waveform.Formula

namespace Waveform.BinaryOp

/-- The level of an operator. -/
def level : BinaryOp → Formula.Level
  | .add | .sub => .additive
  | .mul | .div => .multiplicative

end Waveform.BinaryOp

namespace Waveform.Formula

namespace Level

/-- How strongly the operators of a level bind. -/
def precedence : Level → Nat
  | .additive => 10
  | .multiplicative => 20

/-- The operator of a level that a character stands for. -/
def operator? : Level → Char → Option BinaryOp
  | .additive => BinaryOp.additive?
  | .multiplicative => BinaryOp.multiplicative?

@[simp]
theorem precedence_level (op : BinaryOp) : op.level.precedence = op.precedence := by
  cases op <;> rfl

@[simp]
theorem operator?_symbol (op : BinaryOp) : op.level.operator? op.symbol = some op := by
  cases op <;> rfl

/-- A character stands for an operator of a level exactly when it is its symbol. -/
theorem operator?_eq_some_iff {level : Level} {c : Char} {op : BinaryOp} :
    level.operator? c = some op ↔ c = op.symbol ∧ op.level = level := by
  constructor
  · intro found
    cases level with
    | additive =>
      simp only [operator?, BinaryOp.additive?] at found
      split at found <;> cases found <;> exact ⟨rfl, rfl⟩
    | multiplicative =>
      simp only [operator?, BinaryOp.multiplicative?] at found
      split at found <;> cases found <;> exact ⟨rfl, rfl⟩
  · rintro ⟨rfl, rfl⟩
    exact operator?_symbol op

end Level

/-! ## Characters -/

theorem isNumeric_iff {c : Char} : isNumeric c = true ↔ c.isDigit = true ∨ c = '.' := by
  simp [isNumeric]

theorem isNumeric_of_isLower {c : Char} (lower : c.isLower = true) : isNumeric c = false := by
  obtain ⟨low, _⟩ := Text.isLower_iff.mp lower
  refine Bool.eq_false_iff.mpr ?_
  intro numeric
  rcases isNumeric_iff.mp numeric with digit | rfl
  · obtain ⟨_, high⟩ := Text.isDigit_iff.mp digit
    omega
  · exact absurd low (by decide)

theorem ne_open_of_isLower {c : Char} (lower : c.isLower = true) : c ≠ '(' := by
  rintro rfl
  cases lower

/-! ## Names of functions -/

/-- No function has the name of the variable or of the constant. -/
theorem name_ne (function : Builtin) : function.name.toList ≠ ['f'] ∧
    function.name.toList ≠ ['t'] ∧ function.name.toList ≠ ['p', 'i'] := by
  cases function <;> decide

/-- Names of functions are small letters. -/
theorem isLower_of_mem_name (function : Builtin) :
    ∀ c ∈ function.name.toList, c.isLower = true := by
  have all : function.name.toList.all Char.isLower = true := by cases function <;> decide
  exact List.all_eq_true.mp all

theorem name_ne_nil (function : Builtin) : function.name.toList ≠ [] := by
  cases function <;> decide

/-! ## Literals -/

/-- A number as a formula spells it: digits, with or without a point and more digits
behind it, at least one digit in all. -/
structure Literal where
  whole : List Char
  /-- The digits behind the point, if there is a point. -/
  fraction : Option (List Char)
  whole_digits : ∀ c ∈ whole, c.isDigit = true
  fraction_digits : ∀ c ∈ fraction.getD [], c.isDigit = true
  has_digit : whole ≠ [] ∨ fraction.getD [] ≠ []

namespace Literal

/-- The characters of a literal. -/
def chars (literal : Literal) : List Char :=
  match literal.fraction with
  | none => literal.whole
  | some digits => literal.whole ++ '.' :: digits

/-- The floating-point number nearest to a literal. -/
def value (literal : Literal) : Float :=
  Decimal.Numeral.nearest
    { negative := false, whole := literal.whole, fraction := literal.fraction.getD [] }

/-- The literal of one digit. -/
def ofDigit (c : Char) (digit : c.isDigit = true) : Literal where
  whole := [c]
  fraction := none
  whole_digits := List.forall_mem_singleton.mpr digit
  fraction_digits := fun _ member => (List.not_mem_nil member).elim
  has_digit := .inl (List.cons_ne_nil c [])

end Literal

/-! ## Phrases -/

/-- The categories of the grammar. -/
inductive Category where
  | chain (level : Level)
  | operand
  | primary
  deriving DecidableEq, Repr

namespace Category

/-- Products joined by `+` and `-`. -/
abbrev sum : Category := .chain .additive

/-- Operands joined by `*` and `/`. -/
abbrev product : Category := .chain .multiplicative

end Category

/-- The category of what the operators of a level join. -/
def Level.inside : Level → Category
  | .additive => .product
  | .multiplicative => .operand

/-- The derivations of each category. -/
inductive Phrase : Category → Type where
  /-- One operand of a level. -/
  | single {level : Level} (only : Phrase level.inside) : Phrase (.chain level)
  /-- A chain, an operator of its level, and one operand more. -/
  | link {level : Level} (before : Phrase (.chain level)) (op : BinaryOp)
      (fits : op.level = level) (last : Phrase level.inside) : Phrase (.chain level)
  /-- A sign in front of an operand. -/
  | minus (operand : Phrase .operand) : Phrase .operand
  /-- An operand without a sign. -/
  | plain (primary : Phrase .primary) : Phrase .operand
  /-- A sum in parentheses. -/
  | group (inner : Phrase .sum) : Phrase .primary
  /-- A number. -/
  | literal (number : Literal) : Phrase .primary
  /-- The variable, by one of its letters. -/
  | letter (name : Char) (known : name = 'f' ∨ name = 't') : Phrase .primary
  /-- The circle constant. -/
  | pi : Phrase .primary
  /-- A function's name and its argument in parentheses. -/
  | call (function : Builtin) (argument : Phrase .sum) : Phrase .primary

namespace Phrase

/-- The characters of a phrase. -/
def chars : {category : Category} → Phrase category → List Char
  | _, .single only => only.chars
  | _, .link before op _ last => before.chars ++ op.symbol :: last.chars
  | _, .minus operand => '-' :: operand.chars
  | _, .plain primary => primary.chars
  | _, .group inner => '(' :: inner.chars ++ [')']
  | _, .literal number => number.chars
  | _, .letter name _ => [name]
  | _, .pi => ['p', 'i']
  | _, .call function argument => function.name.toList ++ '(' :: argument.chars ++ [')']

/-- The value of a phrase at `x`: operators of one level are applied from the left, and
a sign binds tighter than any of them. -/
def value (x : Float) : {category : Category} → Phrase category → Float
  | _, .single only => only.value x
  | _, .link before op _ last => op.apply (before.value x) (last.value x)
  | _, .minus operand => -operand.value x
  | _, .plain primary => primary.value x
  | _, .group inner => inner.value x
  | _, .literal number => number.value
  | _, .letter _ _ => x
  | _, .pi => Kernel.pi
  | _, .call function argument => function.eval (argument.value x)

/-- How many operators, signs and primaries a phrase has; a group and a call count as
one each, besides what is inside. -/
def charge : {category : Category} → Phrase category → Nat
  | _, .single only => only.charge
  | _, .link before _ _ last => before.charge + 1 + last.charge
  | _, .minus operand => operand.charge + 1
  | _, .plain primary => primary.charge
  | _, .group inner => inner.charge + 1
  | _, .literal _ | _, .letter _ _ | _, .pi => 1
  | _, .call _ argument => argument.charge + 1

/-- The largest number of signs, groups and calls around one place of a phrase. -/
def nesting : {category : Category} → Phrase category → Nat
  | _, .single only => only.nesting
  | _, .link before _ _ last => max before.nesting last.nesting
  | _, .minus operand => operand.nesting + 1
  | _, .plain primary => primary.nesting
  | _, .group inner => inner.nesting + 1
  | _, .literal _ | _, .letter _ _ | _, .pi => 0
  | _, .call _ argument => argument.nesting + 1

/-- How many groups a phrase has. -/
def groups : {category : Category} → Phrase category → Nat
  | _, .single only => only.groups
  | _, .link before _ _ last => before.groups + last.groups
  | _, .minus operand => operand.groups
  | _, .plain primary => primary.groups
  | _, .group inner => inner.groups + 1
  | _, .literal _ | _, .letter _ _ | _, .pi => 0
  | _, .call _ argument => argument.groups

/-- The expression that a phrase stands for. -/
def tree : {category : Category} → Phrase category → Expr
  | _, .single only => only.tree
  | _, .link before op _ last => Expr.binary before.tree op last.tree
  | _, .minus operand => .neg operand.tree
  | _, .plain primary => primary.tree
  | _, .group inner => inner.tree
  | _, .literal number => .number number.value
  | _, .letter name _ => .variable name
  | _, .pi => .number Kernel.pi
  | _, .call function argument => .call function argument.tree

end Phrase

end Waveform.Formula
