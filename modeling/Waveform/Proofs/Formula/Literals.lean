import Waveform.Expr.Printer
import Waveform.Proofs.Decimal.Shortest
import Waveform.Proofs.Float.Order
import Waveform.Proofs.Formula.Phrase

/-!
# Numbers in formulas

A literal is read as the floating-point number nearest to its decimal value
(`Literal.value_isRounded`). A finite constant without a sign is written as a literal that is
read as the constant, or as the name of the circle constant (`exists_constant`).
-/

set_option autoImplicit false

namespace Waveform.Formula

open Binary64 Float.Model

/-! ## Literals -/

namespace Literal

/-- The numeral that a literal spells. -/
def numeral (literal : Literal) : Decimal.Numeral :=
  { negative := false, whole := literal.whole, fraction := literal.fraction.getD [] }

/-- The decimal value of a literal. -/
def decimal (literal : Literal) : ℚ :=
  literal.numeral.value

/-- **A literal is read as the nearest floating-point number.** -/
theorem value_isRounded (literal : Literal) : IsRounded literal.decimal literal.value :=
  Decimal.Numeral.nearest_isRounded rfl

/-- A written number without a sign is a literal. -/
theorem exists_of_isPlain {numeral : Decimal.Numeral} (plain : numeral.IsPlain)
    (unsigned : numeral.negative = false) :
    ∃ literal : Literal, literal.chars = numeral.chars ∧ literal.decimal = numeral.value := by
  obtain ⟨negative, whole, fraction, exponent⟩ := numeral
  obtain ⟨rfl, nonempty, wholeDigits, fractionDigits⟩ := plain
  obtain rfl : negative = false := unsigned
  cases fraction with
  | nil =>
    refine ⟨⟨whole, none, wholeDigits, fractionDigits, .inl nonempty⟩, ?_, rfl⟩
    simp [chars, Decimal.Numeral.chars]
  | cons c rest =>
    refine ⟨⟨whole, some (c :: rest), wholeDigits, fractionDigits, .inl nonempty⟩, ?_, rfl⟩
    simp [chars, Decimal.Numeral.chars]

/-- A whole number is spelled by its digits. -/
theorem exists_of_nat (n : ℕ) :
    ∃ literal : Literal, literal.chars = Nat.toDigits 10 n ∧ literal.decimal = n := by
  have digits : ∀ c ∈ Nat.toDigits 10 n, c.isDigit = true :=
    fun c member => Nat.isDigit_of_mem_toDigits (by decide) (by decide) member
  have nonempty : Nat.toDigits 10 n ≠ [] := Nat.toDigits_ne_nil
  refine ⟨⟨Nat.toDigits 10 n, none, digits, fun c member => (List.not_mem_nil member).elim,
    .inl nonempty⟩, rfl, ?_⟩
  simp [decimal, numeral, Decimal.Numeral.value, Decimal.Numeral.significand,
    Decimal.Numeral.scale, Decimal.digitsValue_toDigits]

end Literal

/-! ## Constants -/

theorem numberChars_pi : Expr.numberChars Kernel.pi = ['p', 'i'] := by
  have same : (Kernel.pi == Kernel.pi) = true := by decide +kernel
  rw [Expr.numberChars, if_pos same]

/-- Only the circle constant itself is written by its name. -/
theorem eq_pi_of_beq {x : Float} (same : (x == Kernel.pi) = true) : x = Kernel.pi := by
  refine eq_of_beq same ?_
  intro sign zero
  have positive : 0 < Kernel.pi := by decide +kernel
  have none : parts 0 = .zero .positive := parts_ofScientific_zero false 0
  rw [lt_iff, none, zero] at positive
  cases sign <;> cases positive

theorem numberChars_zero {x : Float} (zero : parts x = .zero .positive) :
    Expr.numberChars x = ['0'] := by
  have stored : x = ofParts (.zero .positive) := by rw [← zero, ofParts_parts]
  rw [stored]
  decide +kernel

/-- Whether a sign is that of negative numbers. -/
def isNegative : UnpackedFloat.Sign → Bool
  | .negative => true
  | .positive => false

/-- A constant with a mantissa is written in place, with the digits of its shortest decimal. -/
theorem plainText_eq {x : Float} {sign : UnpackedFloat.Sign} {mantissa : ℕ} {exponent : ℤ}
    {positive : 0 < mantissa} (same : parts x = .finite sign mantissa exponent positive) :
    (Decimal.plainText x).toList = (Decimal.Layout.plain.place (isNegative sign)
      (Decimal.shortest .up mantissa exponent)).chars := by
  have same : x.toModel.unpack = .finite sign mantissa exponent positive := same
  simp only [Decimal.plainText, Decimal.Layout.numeral?, same]
  cases sign <;> exact String.toList_ofList

section Magnitude

variable {x : Float} {mantissa : ℕ} {exponent : ℤ} {positive : 0 < mantissa}
  (same : parts x = .finite .positive mantissa exponent positive)
include same

/-- The whole number that a constant is equal to has the value of its parts. -/
theorem exists_of_wholeNumber? {whole : ℤ} (found : wholeNumber? x = some whole) :
    ∃ n : ℕ, whole = n ∧ (n : ℚ) = mantissa * 2 ^ exponent := by
  have same : x.toModel.unpack = .finite .positive mantissa exponent positive := same
  simp only [wholeNumber?, same] at found
  split at found
  · next divisible =>
    cases found
    refine ⟨_, rfl, ?_⟩
    rw [Nat.shiftRight_eq_div_pow, Nat.shiftLeft_eq] at divisible ⊢
    by_cases negative : exponent < 0
    · obtain ⟨count, rfl⟩ : ∃ count : ℕ, exponent = -(count : ℤ) := ⟨exponent.natAbs, by omega⟩
      have none : (-(count : ℤ)).toNat = 0 := by omega
      have all : (- -(count : ℤ)).toNat = count := by omega
      rw [all] at divisible
      rw [none, all, pow_zero, mul_one, zpow_neg, zpow_natCast, ← div_eq_mul_inv,
        eq_div_iff (by positivity)]
      exact_mod_cast divisible
    · obtain ⟨count, rfl⟩ := Int.eq_ofNat_of_zero_le (not_lt.mp negative)
      have none : (-(count : ℤ)).toNat = 0 := by omega
      rw [none, Int.toNat_natCast, pow_zero, Nat.div_one, zpow_natCast]
      push_cast
      rfl
  · cases found

/-- The decimal that a constant is written as is rounded to it. -/
theorem exists_plainText : ∃ literal : Literal,
    literal.chars = (Decimal.plainText x).toList ∧
      IsAround mantissa exponent literal.decimal := by
  obtain ⟨around, written⟩ := Decimal.isAround_shortest .up positive exponent
  obtain ⟨value, plain⟩ := Decimal.value_place false .plain written
  have unsigned : (Decimal.Layout.plain.place false
      (Decimal.shortest .up mantissa exponent)).negative = false := by
    unfold Decimal.Layout.place
    dsimp only
    split
    · rfl
    · split <;> rfl
  obtain ⟨literal, chars, decimal⟩ := Literal.exists_of_isPlain plain unsigned
  refine ⟨literal, ?_, ?_⟩
  · rw [chars, plainText_eq same]
    rfl
  · rw [decimal, value]
    exact around

end Magnitude

/-- A finite constant by its digits, a small whole number as such. -/
def digitChars (x : Float) : List Char :=
  match wholeNumber? x with
  | some whole =>
    if x.abs < 1e10 then (toString whole).toList else (Decimal.plainText x).toList
  | none => (Decimal.plainText x).toList

/-- A finite constant is written by its digits, unless it is the circle constant. -/
theorem numberChars_eq {x : Float} (finite : x.isFinite = true)
    (notPi : (x == Kernel.pi) = false) : Expr.numberChars x = digitChars x := by
  simp only [Expr.numberChars, notPi, isNaN_of_isFinite finite, isInf_of_isFinite finite,
    Bool.false_eq_true, if_false]
  rfl

/-- The digits of a constant with a mantissa are a literal that is rounded to it. -/
theorem exists_digitChars {x : Float} {mantissa : ℕ} {exponent : ℤ}
    (canonical : IsCanonical mantissa exponent)
    (same : parts x = .finite .positive mantissa exponent canonical.positive) :
    ∃ literal : Literal, literal.chars = digitChars x ∧
      IsAround mantissa exponent literal.decimal := by
  unfold digitChars
  split
  · next whole found =>
    split
    · obtain ⟨n, rfl, value⟩ := exists_of_wholeNumber? same found
      obtain ⟨literal, chars, decimal⟩ := Literal.exists_of_nat n
      refine ⟨literal, ?_, ?_⟩
      · rw [chars]
        exact String.toList_ofList.symm
      · rw [decimal, value]
        exact canonical.isAround
    · exact exists_plainText same
  · exact exists_plainText same

/-- The digits of a constant with a mantissa are read as the constant. -/
theorem exists_literal {x : Float} {mantissa : ℕ} {exponent : ℤ}
    (canonical : IsCanonical mantissa exponent) (small : exponent ≤ 971)
    (same : parts x = .finite .positive mantissa exponent canonical.positive) :
    ∃ literal : Literal, literal.chars = digitChars x ∧ literal.value = x := by
  obtain ⟨literal, chars, around⟩ := exists_digitChars canonical same
  refine ⟨literal, chars, ext_parts ?_⟩
  rw [same]
  exact literal.value_isRounded.parts_eq canonical small around

/-- **A finite constant without a sign is written as a phrase of its own.** -/
theorem exists_constant {x : Float} (magnitude : IsMagnitude x) :
    ∃ phrase : Phrase .primary, phrase.chars = Expr.numberChars x ∧
      phrase.tree = .number x ∧ phrase.charge = 1 ∧ phrase.nesting = 0 := by
  rcases magnitude with zero | ⟨mantissa, exponent, canonical, small, same⟩
  · obtain ⟨literal, chars, decimal⟩ := Literal.exists_of_nat 0
    have value : literal.value = x := by
      refine ext_parts ?_
      rw [zero]
      rcases literal.value_isRounded with ⟨_, zero⟩ | ⟨positive, _⟩
      · exact zero
      · rw [decimal] at positive
        cases positive.ne' Nat.cast_zero
    refine ⟨.literal literal, ?_, ?_, rfl, rfl⟩
    · exact chars.trans (numberChars_zero zero).symm
    · rw [Phrase.tree, value]
  · cases isPi : x == Kernel.pi with
    | true =>
      obtain rfl := eq_pi_of_beq isPi
      exact ⟨.pi, numberChars_pi.symm, rfl, rfl, rfl⟩
    | false =>
      have finite : x.isFinite = true := by
        change (parts x).isFinite = true
        rw [same]
        rfl
      obtain ⟨literal, chars, value⟩ := exists_literal canonical small same
      refine ⟨.literal literal, chars.trans (numberChars_eq finite isPi).symm, ?_, rfl, rfl⟩
      rw [Phrase.tree, value]

theorem not_lt_zero {x : Float} (magnitude : IsMagnitude x) : ¬ x < 0 := by
  have none : parts 0 = .zero .positive := parts_ofScientific_zero false 0
  rw [lt_iff, none]
  rcases magnitude with zero | ⟨mantissa, exponent, canonical, small, same⟩
  · rw [zero]
    decide
  · rw [same]
    simp [UnpackedFloat.lt, UnpackedFloat.compare]

/-- A constant without a sign needs no parentheses. -/
theorem binding_number {x : Float} (magnitude : IsMagnitude x) :
    (Expr.number x).binding = 30 := by
  rw [Expr.binding, if_neg (not_lt_zero magnitude)]

end Waveform.Formula
