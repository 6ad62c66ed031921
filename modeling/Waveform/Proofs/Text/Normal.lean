import Waveform.Text.Normal

/-!
# Texts in normal form

A text without white space and capital letters is its own normal form.
-/

set_option autoImplicit false

namespace Waveform.Text

theorem isLower_iff {c : Char} : c.isLower = true ↔ 97 ≤ c.toNat ∧ c.toNat ≤ 122 := by
  change (decide (c.val ≥ 97) && decide (c.val ≤ 122)) = true ↔ _
  simp [UInt32.le_iff_toNat_le, ← Char.toNat_val]

theorem isDigit_iff {c : Char} : c.isDigit = true ↔ 48 ≤ c.toNat ∧ c.toNat ≤ 57 := by
  simp [Char.isDigit, UInt32.le_iff_toNat_le, ← Char.toNat_val]

/-- Whether a character is its own normal form. -/
def IsNormal (c : Char) : Prop :=
  normalChars [c] = [c]

instance : DecidablePred IsNormal :=
  fun c => inferInstanceAs (Decidable (normalChars [c] = [c]))

theorem normalChars_append (first second : List Char) :
    normalChars (first ++ second) = normalChars first ++ normalChars second := by
  rw [normalChars, List.filter_append, List.flatMap_append, normalChars, normalChars]

theorem normalChars_of_isNormal {text : List Char} (normal : ∀ c ∈ text, IsNormal c) :
    normalChars text = text := by
  induction text with
  | nil => rfl
  | cons c text ih =>
    have first : normalChars [c] = [c] := normal c List.mem_cons_self
    have rest := ih fun d member => normal d (List.mem_cons_of_mem c member)
    rw [← List.singleton_append, normalChars_append, first, rest]

/-- Visible characters of ASCII are in normal form, apart from the capital letters. -/
theorem isNormal_of_ascii {c : Char} (visible : 32 < c.toNat) (ascii : c.toNat < 127)
    (notUpper : ¬ (65 ≤ c.toNat ∧ c.toNat ≤ 90)) : IsNormal c := by
  have notBlank : isBlank c = false := by
    simp [isBlank, blankRanges]
    omega
  have same : c.toLower = c := by
    refine dif_neg fun upper => notUpper ?_
    simpa [UInt32.le_iff_toNat_le, ← Char.toNat_val] using upper
  have small : c.toNat < 0x80 := by omega
  simp [IsNormal, normalChars, notBlank, lowerCase, small, same]

theorem isNormal_of_isDigit {c : Char} (digit : c.isDigit = true) : IsNormal c := by
  have range := isDigit_iff.mp digit
  exact isNormal_of_ascii (by omega) (by omega) (by omega)

theorem isNormal_of_isLower {c : Char} (lower : c.isLower = true) : IsNormal c := by
  have range := isLower_iff.mp lower
  exact isNormal_of_ascii (by omega) (by omega) (by omega)

end Waveform.Text
