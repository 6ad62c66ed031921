import Waveform.Proofs.Text.Normal

/-!
# The normal form is settled

A text in normal form is its own normal form (`normalChars_normalChars`), and so is every part of
it. For that no small letter may be white space or a capital letter itself. Beyond ASCII this is a
property of the ranges of capital letters: the small letters of a range lie in an interval, which
keeps clear of the white space and of the capitals of each range, or lie between these where they
are two code points apart. All ranges are compared with each other once (`all_areSettled`).
-/

set_option autoImplicit false

namespace Waveform.Text

/-! ## Small letters of a range -/

namespace CaseRange

/-- The code point of the first small letter. -/
def firstSmall (range : CaseRange) : Nat :=
  (range.first + range.shift).toNat

/-- A code point that no small letter exceeds. -/
def lastSmall (range : CaseRange) : Nat :=
  (range.last + range.shift).toNat

/-- Whether all small letters lie outside of an interval of code points. -/
def avoids (range : CaseRange) (first last : Nat) : Bool :=
  Nat.blt range.lastSmall first || Nat.blt last range.firstSmall

/-- Whether the small letters are visible characters that no rule but those of the ranges changes:
no white space, no capital letter of ASCII and not the dotted I. -/
def isPlain (range : CaseRange) : Bool :=
  Nat.blt 32 range.firstSmall && Nat.blt range.lastSmall 0x110000 &&
    range.avoids 0xD800 0xDFFF && range.avoids 65 90 && range.avoids 127 127 &&
    range.avoids 0x130 0x130 && blankRanges.all fun (first, last) => range.avoids first last

/-- Whether no small letter of a range is a capital of another one. Where the capitals are two code
points apart, small letters with that distance may lie between them. -/
def staysOff (small capital : CaseRange) : Bool :=
  small.avoids capital.first capital.last ||
    ((small.stride == 2 || small.first == small.last) && capital.stride == 2 &&
      (small.firstSmall + capital.first) % 2 == 1)

/-- Whether the small letters of a range are settled. -/
def isSettled (range : CaseRange) : Bool :=
  range.isPlain && caseRanges.all range.staysOff

section Covered

variable {range : CaseRange} {point : Nat} (positive : 0 < range.firstSmall)
  (covered : range.covers point = true)
include positive covered

/-- The small letter of a capital lies between the first and the last one. -/
theorem between_of_covers : range.firstSmall ≤ (point + range.shift).toNat ∧
    (point + range.shift).toNat ≤ range.lastSmall := by
  simp only [covers, Bool.and_eq_true, decide_eq_true_eq] at covered
  simp only [firstSmall, lastSmall] at positive ⊢
  omega

theorem not_mem_of_avoids {first last : Nat} (avoids : range.avoids first last = true) :
    ¬ (first ≤ (point + range.shift).toNat ∧ (point + range.shift).toNat ≤ last) := by
  have between := between_of_covers positive covered
  simp only [CaseRange.avoids, Bool.or_eq_true, Nat.blt_eq] at avoids
  omega

theorem not_covers_of_staysOff {capital : CaseRange} (apart : range.staysOff capital = true) :
    capital.covers (point + range.shift).toNat = false := by
  rw [Bool.eq_false_iff]
  intro capitals
  simp only [staysOff, Bool.or_eq_true, Bool.and_eq_true, beq_iff_eq] at apart
  simp only [covers, Bool.and_eq_true, decide_eq_true_eq, beq_iff_eq] at capitals
  rcases apart with avoids | ⟨⟨strides, two⟩, odd⟩
  · exact not_mem_of_avoids positive covered avoids capitals.1
  · rw [two] at capitals
    simp only [covers, Bool.and_eq_true, decide_eq_true_eq, beq_iff_eq] at covered
    simp only [firstSmall] at odd positive
    have even : (point - range.first) % 2 = 0 := by
      rcases strides with stride | single
      · rw [← stride]
        exact covered.2
      · omega
    omega

end Covered

end CaseRange

/-- **All small letters are settled.** -/
theorem all_areSettled : caseRanges.all CaseRange.isSettled = true := by
  decide +kernel

theorem isSettled_of_mem {range : CaseRange} (member : range ∈ caseRanges) :
    range.isPlain = true ∧ ∀ capital ∈ caseRanges, range.staysOff capital = true := by
  have settled := List.all_eq_true.mp all_areSettled range member
  obtain ⟨plain, apart⟩ := Bool.and_eq_true_iff.mp settled
  exact ⟨plain, List.all_eq_true.mp apart⟩

/-! ## Characters -/

theorem isNormal_iff {c : Char} : IsNormal c ↔ isBlank c = false ∧ lowerCase c = [c] := by
  rw [IsNormal, normalChars]
  cases blank : isBlank c <;> simp [blank]

/-- The small form of a character of ASCII is in normal form, unless it is white space. -/
theorem isNormal_toLower {c : Char} (ascii : c.toNat < 0x80) (visible : isBlank c = false) :
    IsNormal c.toLower := by
  have all : ∀ point < 0x80, isBlank (Char.ofNat point) = false →
      IsNormal (Char.ofNat point).toLower := by decide
  have same : Char.ofNat c.toNat = c := Char.ofNat_toNat c
  rw [← same] at visible ⊢
  exact all c.toNat ascii visible

/-- A small letter that belongs to a capital beyond ASCII is in normal form. -/
theorem isNormal_smallLetter {range : CaseRange} {point : Nat} (member : range ∈ caseRanges)
    (covered : range.covers point = true) : IsNormal (range.smallLetter point) := by
  obtain ⟨plain, apart⟩ := isSettled_of_mem member
  simp only [CaseRange.isPlain, Bool.and_eq_true, Nat.blt_eq, List.all_eq_true] at plain
  obtain ⟨⟨⟨⟨⟨⟨visible, small⟩, surrogates⟩, capitals⟩, delete⟩, dotted⟩, blanks⟩ := plain
  have positive : 0 < range.firstSmall := by omega
  have between := CaseRange.between_of_covers positive covered
  have outside {first last : Nat} (avoids : range.avoids first last = true) :=
    CaseRange.not_mem_of_avoids positive covered avoids
  have notCapital {capital : CaseRange} (other : capital ∈ caseRanges) :=
    CaseRange.not_covers_of_staysOff positive covered (apart capital other)
  have noSurrogate := outside surrogates
  have valid : (point + range.shift).toNat.isValidChar := by
    simp only [Nat.isValidChar]
    omega
  have letter : (range.smallLetter point).toNat = (point + range.shift).toNat := by
    rw [CaseRange.smallLetter, Char.ofNat, dif_pos valid]
    rfl
  rw [← letter] at between outside notCapital
  by_cases ascii : (range.smallLetter point).toNat < 0x80
  · have notDelete := outside delete
    exact isNormal_of_ascii (by omega) (by omega) (outside capitals)
  · have notDotted := outside dotted
    have notBlank : isBlank (range.smallLetter point) = false := by
      refine List.any_eq_false.mpr fun blank isRange => ?_
      have avoided := outside (blanks blank isRange)
      simpa using avoided
    have none : caseRanges.find? (·.covers (range.smallLetter point).toNat) = none :=
      List.find?_eq_none.mpr fun capital other => by rw [notCapital other]; exact Bool.false_ne_true
    refine isNormal_iff.mpr ⟨notBlank, ?_⟩
    rw [lowerCase, if_neg ascii, if_neg (by omega), none]

/-- **What the normal form makes of a character is in normal form.** -/
theorem isNormal_of_mem_lowerCase {c d : Char} (visible : isBlank c = false)
    (member : d ∈ lowerCase c) : IsNormal d := by
  unfold lowerCase at member
  split at member
  · next ascii =>
    rw [List.mem_singleton.mp member]
    exact isNormal_toLower ascii visible
  · next beyond =>
    split at member
    · have letter : IsNormal 'i' := by decide
      have dot : IsNormal '\u0307' := by decide
      exact List.forall_mem_cons.mpr ⟨letter, List.forall_mem_singleton.mpr dot⟩ d member
    · next notDotted =>
      split at member
      · next range found =>
        rw [List.mem_singleton.mp member]
        have covered : range.covers c.toNat = true := by simpa using List.find?_some found
        exact isNormal_smallLetter (List.mem_of_find?_eq_some found) covered
      · next none =>
        rw [List.mem_singleton.mp member]
        refine isNormal_iff.mpr ⟨visible, ?_⟩
        rw [lowerCase, if_neg beyond, if_neg notDotted, none]

/-! ## Texts -/

theorem isNormal_of_mem_normalChars {text : List Char} : ∀ c ∈ normalChars text, IsNormal c := by
  intro d member
  obtain ⟨c, kept, small⟩ := List.mem_flatMap.mp member
  have visible : isBlank c = false := by simpa using (List.mem_filter.mp kept).2
  exact isNormal_of_mem_lowerCase visible small

/-- A part of a text in normal form is its own normal form. -/
theorem normalChars_of_sublist {text part : List Char} (sublist : part.Sublist (normalChars text)) :
    normalChars part = part :=
  normalChars_of_isNormal fun c member => isNormal_of_mem_normalChars c (sublist.subset member)

/-- **The normal form is its own normal form.** -/
theorem normalChars_normalChars (text : List Char) :
    normalChars (normalChars text) = normalChars text :=
  normalChars_of_sublist (List.Sublist.refl _)

end Waveform.Text
