import Waveform.Json.Number
import Waveform.Proofs.Decimal.Shortest
import Waveform.Proofs.Json.Writing

/-!
# Numbers in JSON

The digits of a number never start with a needless zero, so what is written of a number is a numeral
of JSON (`isWritable_ofFloat`, `isWritable_ofNat`). A whole number is read back as it is. The reader
of floating-point numbers rounds more than once and may miss a number by its last digit; a number
that it does not miss is *read back*. What is not finite is written as `null` and read as no number
at all.
-/

set_option autoImplicit false

namespace Waveform

open Binary64 Float.Model Float.Model.UnpackedFloat

/-! ## First digits -/

namespace Decimal

/-- The digits of a positive number do not start with a zero. -/
theorem head?_toDigits {n : ℕ} (positive : 0 < n) : (Nat.toDigits 10 n).head? ≠ some '0' := by
  induction n using Nat.strong_induction_on with
  | _ n ih =>
    by_cases small : n < 10
    · rw [Nat.toDigits_of_lt_base small]
      interval_cases n <;> decide
    · have fewer := ih (n / 10) (Nat.div_lt_self positive (by norm_num))
        (Nat.div_pos (not_lt.mp small) (by norm_num))
      rwa [Nat.toDigits_of_base_le (by norm_num) (not_lt.mp small),
        List.head?_append_of_ne_nil _ Nat.toDigits_ne_nil]

/-- The shortest decimal of a number does not start with a zero. -/
theorem head?_shortest (tie : Tie) {mantissa : ℕ} (positive : 0 < mantissa) (exponent : ℤ) :
    (shortest tie mantissa exponent).digits.head? ≠ some '0' := by
  obtain ⟨_, nonempty, _⟩ := isAround_shortest tie positive exponent
  obtain ⟨point, same⟩ : ∃ point, (shortest tie mantissa exponent).digits =
    ((Nat.toDigits 10 point).reverse.dropWhile (· == '0')).reverse := ⟨_, rfl⟩
  obtain ⟨zeros, split⟩ := exists_stripped (Nat.toDigits 10 point)
  rw [same] at nonempty ⊢
  intro zero
  rcases Nat.eq_zero_or_pos point with rfl | some
  · exact nonempty rfl
  · refine head?_toDigits some ?_
    rw [split, List.head?_append_of_ne_nil _ nonempty, zero]

/-! ## Proper numerals -/

section Proper

variable {digits : Digits} (written : digits.IsWritten) (nonzero : digits.digits.head? ≠ some '0')

include written nonzero

theorem isProper_place (layout : Layout) (negative : Bool) :
    (layout.place negative digits).IsProper := by
  obtain ⟨_, plain⟩ := value_place negative layout written
  refine ⟨⟨⟨plain.nonempty, plain.whole⟩, ?_⟩, plain.fraction, ?_⟩
  · unfold Layout.place
    dsimp only
    intro zero
    split at zero
    · next behind => rw [if_pos behind]
    · next front =>
      split at zero
      · have some : digits.point.toNat ≠ 0 := by omega
        rw [List.head?_take, if_neg some] at zero
        exact absurd zero nonzero
      · rw [List.head?_append_of_ne_nil _ written.nonempty] at zero
        exact absurd zero nonzero
  · rw [plain.unscaled]
    rintro exponent ⟨⟩

theorem isProper_scientific (negative : Bool) : (Layout.scientific negative digits).IsProper := by
  have first : (digits.digits.take 1).head? = digits.digits.head? := by
    rw [List.head?_take, if_neg one_ne_zero]
  refine ⟨⟨⟨?_, fun c member => written.all c (List.mem_of_mem_take member)⟩, fun zero => ?_⟩,
    fun c member => written.all c (List.mem_of_mem_drop member), ?_⟩
  · exact fun none => written.nonempty ((List.take_eq_nil_iff.mp none).resolve_left one_ne_zero)
  · exact absurd (first.symm.trans zero) nonzero
  · rintro exponent ⟨⟩
    exact ⟨Nat.toDigits_ne_nil, fun c => Nat.isDigit_of_mem_toDigits (by decide) (by decide)⟩

end Proper

/-- A number in JSON is a numeral of JSON. -/
theorem isProper_of_numeral? {x : Float} {numeral : Numeral}
    (found : Layout.json.numeral? x = some numeral) : numeral.IsProper := by
  unfold Layout.numeral? at found
  split at found
  · next sign _ =>
    cases found
    have zero : Json.IsDigits ['0'] := ⟨by decide, fun c => isDigit_of_mem_zeros 1⟩
    have proper (negative : Bool) : Numeral.IsProper ⟨negative, ['0'], ['0'], none⟩ :=
      ⟨⟨zero, fun _ => rfl⟩, zero.all, nofun⟩
    exact proper _
  · next sign mantissa exponent positive _ =>
    have written := (isAround_shortest Tie.toEven positive exponent).2
    have nonzero := head?_shortest Tie.toEven positive exponent
    dsimp only at found
    split at found
    · cases found
      exact isProper_place written nonzero _ _
    · cases found
      exact isProper_scientific written nonzero _
  · cases found

/-- A number is written exactly if it is finite. -/
theorem numeral?_eq_none_iff {layout : Layout} {x : Float} :
    layout.numeral? x = none ↔ x.isFinite = false := by
  change _ ↔ (parts x).isFinite = false
  unfold Layout.numeral?
  split
  · next same =>
    have same : parts x = _ := same
    rw [same]
    exact iff_of_false nofun nofun
  · next same =>
    have same : parts x = _ := same
    rw [same]
    refine iff_of_false ?_ nofun
    dsimp only
    split <;> nofun
  · next noZero noFinite =>
    refine iff_of_true rfl ?_
    have noZero : ∀ sign, parts x ≠ .zero sign := noZero
    have noFinite : ∀ sign mantissa exponent positive,
      parts x ≠ .finite sign mantissa exponent positive := noFinite
    cases same : parts x with
    | notANumber | infinity => rfl
    | zero sign => exact absurd same (noZero sign)
    | finite sign mantissa exponent positive =>
      exact absurd same (noFinite sign mantissa exponent positive)

end Decimal

/-! ## Numbers in values -/

namespace Json

theorem isWritable_ofFloat (x : Float) : (ofFloat x).IsWritable := by
  unfold ofFloat
  split
  · next numeral found => exact .number (Decimal.isProper_of_numeral? found)
  · exact .null

theorem isWritable_ofNat (n : ℕ) : (ofNat n).IsWritable := by
  refine .number ⟨⟨⟨Nat.toDigits_ne_nil, ?_⟩, fun zero => ?_⟩, nofun, nofun⟩
  · exact fun c => Nat.isDigit_of_mem_toDigits (by decide) (by decide)
  · rcases Nat.eq_zero_or_pos n with rfl | some
    · rfl
    · exact absurd zero (Decimal.head?_toDigits some)

/-- A whole number below a bound is read back. -/
theorem natBelow?_ofNat {n bound : ℕ} (below : n < bound) : (ofNat n).natBelow? bound = some n := by
  have value := Decimal.digitsValue_toDigits n
  change (if Decimal.digitsValue (Nat.toDigits 10 n) < bound then _ else _) = _
  rw [value, if_pos below]

/-- What is not finite is not read as a number. -/
theorem float?_ofFloat_of_not_isFinite {x : Float} (infinite : x.isFinite = false) :
    (ofFloat x).float? = none := by
  rw [ofFloat, Decimal.numeral?_eq_none_iff.mpr infinite]
  rfl

/-- Whether a number that is finite is read from the digits that are written for it. -/
def IsReadBack (x : Float) : Prop :=
  x.isFinite = true → (ofFloat x).float? = some x

instance (x : Float) : Decidable (IsReadBack x) :=
  inferInstanceAs (Decidable (_ → _))

/-- Such a number is read if it is finite, and only then. -/
theorem IsReadBack.float?_eq {x : Float} (assumed : IsReadBack x) :
    (ofFloat x).float? = if x.isFinite then some x else none := by
  cases finite : x.isFinite with
  | true => exact assumed finite
  | false => exact float?_ofFloat_of_not_isFinite finite

end Json

end Waveform
