import Waveform.Proofs.Float.Parts

/-!
# Comparing floating-point numbers

Numbers are compared by their parts. Equal numbers have the same parts, unless both are
zeros; only a NaN differs from itself.
-/

set_option autoImplicit false

namespace Waveform.Binary64

open Float.Model Float.Model.UnpackedFloat

theorem lt_iff {x y : Float} : x < y ↔ (parts x).lt (parts y) = true :=
  decide_eq_true_iff

theorem le_iff {x y : Float} : x ≤ y ↔ (parts x).le (parts y) = true :=
  decide_eq_true_iff

/-! ## Equality -/

theorem eq_or_zeros_of_beq {u v : UnpackedFloat} (same : u.beq v = true) :
    u = v ∨ ∃ sign other, u = .zero sign ∧ v = .zero other := by
  have same : u.compare v = some .eq := beq_iff_eq.mp same
  cases u with
  | notANumber => cases same
  | infinity sign =>
    cases v with
    | infinity other => cases sign <;> cases other <;> first | exact .inl rfl | cases same
    | notANumber | zero | finite => cases sign <;> cases same
  | zero sign =>
    cases v with
    | zero other => exact .inr ⟨sign, other, rfl, rfl⟩
    | notANumber => cases same
    | infinity other => cases other <;> cases same
    | finite other => cases other <;> cases same
  | finite sign mantissa exponent positive =>
    cases v with
    | notANumber => cases sign <;> cases same
    | infinity other => cases sign <;> cases other <;> cases same
    | zero => cases sign <;> cases same
    | finite other mantissa' exponent' =>
      cases sign <;> cases other <;>
        simp only [UnpackedFloat.compare, Option.some.injEq, Ordering.swap_eq_eq,
          Ordering.then_eq_eq, Nat.compare_eq_eq, reduceCtorEq] at same
      · obtain ⟨exponents, rfl⟩ := same
        obtain rfl := Int.compare_eq_eq.mp exponents
        exact .inl rfl
      · obtain ⟨exponents, rfl⟩ := same
        obtain rfl := Int.compare_eq_eq.mp exponents
        exact .inl rfl

/-- A number that equals one with a mantissa is that number. -/
theorem eq_of_beq {x y : Float} (same : (x == y) = true)
    (notZero : ∀ sign, parts y ≠ .zero sign) : x = y := by
  have same : (parts x).beq (parts y) = true := same
  rcases eq_or_zeros_of_beq same with parts | ⟨_, sign, _, zero⟩
  · exact ext_parts parts
  · exact absurd zero (notZero sign)

/-- Only a NaN differs from itself. -/
theorem beq_self {x : Float} (number : x.isNaN = false) : (x == x) = true := by
  have number : (parts x).isNaN = false := number
  change (parts x).beq (parts x) = true
  generalize parts x = u at number ⊢
  cases u with
  | notANumber => cases number
  | infinity sign => cases sign <;> rfl
  | zero => rfl
  | finite sign mantissa exponent => cases sign <;> simp [UnpackedFloat.beq, UnpackedFloat.compare]

theorem isNaN_of_isFinite {x : Float} (finite : x.isFinite = true) : x.isNaN = false := by
  have finite : (parts x).isFinite = true := finite
  change (parts x).isNaN = false
  generalize parts x = u at finite ⊢
  cases u with
  | zero | finite => rfl
  | notANumber | infinity => cases finite

theorem isInf_of_isFinite {x : Float} (finite : x.isFinite = true) : x.isInf = false := by
  have finite : (parts x).isFinite = true := finite
  change (parts x).isInf = false
  generalize parts x = u at finite ⊢
  cases u with
  | zero | finite => rfl
  | notANumber | infinity => cases finite

end Waveform.Binary64
