import Waveform.Proofs.Formula.Acceptance
import Waveform.Proofs.Formula.Literals

/-!
# Runs of digits and points

All digits and points that follow each other are read as one number, but its value is that of the
longest decimal at their front (`readNumber_reads_longest`). A decimal is digits with or without a
point and digits behind it, and there may be none of either, so that each run has one at its front,
if only the empty one. A decimal without a digit has no value.

A run is cut behind that decimal in one of two ways, without a point or with one (`IsCutBehind`).
Nothing longer is a decimal: its digits would go on where the run does not, or a second point would
follow.
-/

set_option autoImplicit false

namespace Waveform.Formula

/-! ## Decimals -/

/-- Whether characters are digits, or digits, a point and digits. There may be none of either. -/
inductive IsDecimal : List Char → Prop where
  | whole {digits : List Char} (isDigit : ∀ c ∈ digits, c.isDigit = true) : IsDecimal digits
  | point {digits digits' : List Char} (isDigit : ∀ c ∈ digits, c.isDigit = true)
      (isDigit' : ∀ c ∈ digits', c.isDigit = true) : IsDecimal (digits ++ '.' :: digits')

/-- Whether a decimal is the longest one that a run starts with. -/
structure IsLongestDecimal (run decimal : List Char) : Prop where
  isDecimal : IsDecimal decimal
  starts : decimal <+: run
  longest : ∀ other, IsDecimal other → other <+: run → other.length ≤ decimal.length

/-! ## Where a run is cut -/

/-- Whether a run is cut behind a decimal: behind digits if no point follows, and otherwise behind
the digits that follow the point. -/
inductive IsCutBehind : List Char → List Char → NumberRun → Prop where
  | whole {whole beyond : List Char} (isDigit : ∀ c ∈ whole, c.isDigit = true)
      (ends : ∀ c ∈ beyond.head?, c.isDigit = false) (noPoint : beyond.head? ≠ some '.') :
      IsCutBehind (whole ++ beyond) whole ⟨whole, [], beyond⟩
  | point {whole fraction beyond : List Char} (isDigit : ∀ c ∈ whole, c.isDigit = true)
      (isDigit' : ∀ c ∈ fraction, c.isDigit = true)
      (ends : ∀ c ∈ beyond.head?, c.isDigit = false) :
      IsCutBehind (whole ++ '.' :: (fraction ++ beyond))
        (whole ++ '.' :: fraction) ⟨whole, fraction, beyond⟩

/-- Each run is cut behind a decimal. -/
theorem exists_isCutBehind (run : List Char) :
    ∃ decimal, IsCutBehind run decimal (.ofChars run) := by
  have split := List.takeWhile_append_dropWhile (p := Char.isDigit) (l := run)
  have isDigit : ∀ c ∈ run.takeWhile Char.isDigit, c.isDigit = true :=
    fun _ member => List.mem_takeWhile_imp member
  have ends (rest : List Char) :
      ∀ c ∈ (rest.dropWhile Char.isDigit).head?, c.isDigit = false := by
    intro c next
    have rejected := List.head?_dropWhile_not Char.isDigit rest
    rwa [Option.mem_def.mp next] at rejected
  unfold NumberRun.ofChars
  split
  · next rest spelled =>
    have isDigit' : ∀ c ∈ rest.takeWhile Char.isDigit, c.isDigit = true :=
      fun _ member => List.mem_takeWhile_imp member
    have cut := IsCutBehind.point isDigit isDigit' (ends rest)
    rw [List.takeWhile_append_dropWhile, ← spelled, split] at cut
    exact ⟨_, cut⟩
  · next noPoint =>
    have cut := IsCutBehind.whole isDigit (ends run) fun next =>
      have ⟨rest, spelled⟩ := List.head?_eq_some_iff.mp next
      noPoint rest spelled
    rw [split] at cut
    exact ⟨_, cut⟩

section Prefixes

variable {whole after other other' : List Char} (isDigit : ∀ c ∈ whole, c.isDigit = true)
  (ends : ∀ c ∈ after.head?, c.isDigit = false)
include isDigit ends

/-- Digits at the front are among the digits at the front. -/
theorem prefix_of_isDigit (isDigit' : ∀ c ∈ other, c.isDigit = true)
    (starts : other <+: whole ++ after) :
    other <+: whole := by
  have taken := (takeWhile_of_stop isDigit ends).1
  obtain ⟨back, same⟩ := starts
  rw [← taken, ← same, List.takeWhile_append_of_pos isDigit']
  exact List.prefix_append _ _

/-- A point behind digits at the front is the one behind all digits at the front. -/
theorem eq_of_point (isDigit' : ∀ c ∈ other, c.isDigit = true)
    (starts : other ++ '.' :: other' <+: whole ++ after) :
    other = whole ∧ '.' :: other' <+: after := by
  obtain ⟨back, same⟩ := starts
  obtain ⟨taken, left⟩ := takeWhile_of_stop isDigit ends
  have point : ∀ c ∈ ('.' :: (other' ++ back)).head?, c.isDigit = false := by simp
  obtain ⟨taken', left'⟩ := takeWhile_of_stop isDigit' point
  have same : whole ++ after = other ++ '.' :: (other' ++ back) := by simpa using same.symm
  rw [same] at taken left
  refine ⟨taken'.symm.trans taken, back, ?_⟩
  exact left'.symm.trans left

end Prefixes

theorem ne_nil_iff_of_isDigit {digits : List Char} (isDigit : ∀ c ∈ digits, c.isDigit = true) :
    digits ≠ [] ↔ ∃ c ∈ digits, c.isDigit = true := by
  constructor
  · intro nonempty
    obtain ⟨c, member⟩ := List.exists_mem_of_ne_nil digits nonempty
    exact ⟨c, member, isDigit c member⟩
  · rintro ⟨c, member, _⟩
    exact List.ne_nil_of_mem member

theorem NumberRun.hasDigit_iff_ne_nil {cut : NumberRun} :
    cut.hasDigit = true ↔ cut.whole ≠ [] ∨ cut.fraction ≠ [] := by
  simp [hasDigit]

namespace IsCutBehind

variable {run decimal : List Char} {cut : NumberRun}

theorem run_eq (isCut : IsCutBehind run decimal cut) : run = decimal ++ cut.beyond := by
  cases isCut with
  | whole => rfl
  | point => simp

/-- **A run is cut behind the longest decimal at its front.** -/
theorem isLongestDecimal (isCut : IsCutBehind run decimal cut) : IsLongestDecimal run decimal := by
  cases isCut with
  | whole isDigit ends noPoint =>
    refine ⟨.whole isDigit, List.prefix_append _ _, fun other isDecimal starts => ?_⟩
    cases isDecimal with
    | whole isDigit' => exact (prefix_of_isDigit isDigit ends isDigit' starts).length_le
    | point isDigit' _ =>
      -- The point of such a decimal would be the one that does not follow.
      obtain ⟨_, back, spelled⟩ := eq_of_point isDigit ends isDigit' starts
      exact absurd (congrArg List.head? spelled.symm) noPoint
  | @point whole fraction beyond isDigit isDigit' ends =>
    have point : ∀ c ∈ ('.' :: (fraction ++ beyond)).head?, c.isDigit = false := by simp
    refine ⟨.point isDigit isDigit', ⟨beyond, by simp⟩, fun other isDecimal starts => ?_⟩
    cases isDecimal with
    | whole other =>
      have short := (prefix_of_isDigit isDigit point other starts).length_le
      rw [List.length_append]
      omega
    | point other other' =>
      -- Both have the same point, and the digits behind it end where the run has others.
      obtain ⟨rfl, starts'⟩ := eq_of_point isDigit point other starts
      have short := prefix_of_isDigit isDigit' ends other' (List.cons_prefix_cons.mp starts').2
      simpa using short.length_le

theorem hasDigit_iff (isCut : IsCutBehind run decimal cut) :
    cut.hasDigit = true ↔ ∃ c ∈ decimal, c.isDigit = true := by
  rw [NumberRun.hasDigit_iff_ne_nil]
  cases isCut with
  | whole isDigit => simpa using ne_nil_iff_of_isDigit isDigit
  | point isDigit isDigit' =>
    rw [ne_nil_iff_of_isDigit isDigit, ne_nil_iff_of_isDigit isDigit']
    simp [or_and_right, exists_or]

/-- The whole run is a number exactly if it is its own decimal and has a digit. -/
theorem isNumber_iff (isCut : IsCutBehind run decimal cut) :
    cut.isNumber = true ↔ decimal = run ∧ ∃ c ∈ decimal, c.isDigit = true := by
  have nothing : cut.beyond = [] ↔ decimal = run := by
    rw [isCut.run_eq]
    exact List.self_eq_append_right.symm
  rw [NumberRun.isNumber, Bool.and_eq_true, List.isEmpty_iff, isCut.hasDigit_iff, nothing, and_comm]

end IsCutBehind

/-! ## Reading a run -/

/-- Whether a run at a cursor, behind which `rest` is left, is read by a decimal at its front as a
value: the number nearest to that decimal, or no number if this has no digit. The run is passed, and
noted once if it is more than the decimal or has no digit in this, but not otherwise. -/
structure ReadsRun (cursor : Cursor) (run rest decimal : List Char) (value : Float) : Prop where
  expr : (readNumber cursor).1 = .number value
  nearest : (∃ c ∈ decimal, c.isDigit = true) →
    ∃ literal : Literal, literal.chars = decimal ∧ Binary64.IsRounded literal.decimal value
  blank : (¬ ∃ c ∈ decimal, c.isDigit = true) → value.isNaN = true
  silent : (decimal = run ∧ ∃ c ∈ decimal, c.isDigit = true) →
    (readNumber cursor).2 = { cursor with rest, position := cursor.position + Text.byteLength run }
  noted : ¬ (decimal = run ∧ ∃ c ∈ decimal, c.isDigit = true) →
    (readNumber cursor).2 = { cursor with
      rest
      position := cursor.position + Text.byteLength run
      findings := cursor.findings.push (.invalidNumber (String.ofList run)
        ⟨cursor.position, cursor.position + Text.byteLength run⟩) }

/-- All of the run is taken, and nothing behind it. -/
theorem readNumber_of_run (cursor : Cursor) {run rest : List Char}
    (split : cursor.rest = run ++ rest) (numeric : ∀ c ∈ run, isNumeric c = true)
    (maximal : ∀ c ∈ rest.head?, isNumeric c = false) :
    readNumber cursor = (.number (NumberRun.ofChars run).value,
      if (NumberRun.ofChars run).isNumber then
        { cursor with rest, position := cursor.position + Text.byteLength run }
      else { cursor with
        rest
        position := cursor.position + Text.byteLength run
        findings := cursor.findings.push (.invalidNumber (String.ofList run)
          ⟨cursor.position, cursor.position + Text.byteLength run⟩) }) := by
  obtain ⟨taken, left⟩ := takeWhile_of_stop numeric maximal
  simp only [readNumber, Cursor.takeWhile, split, taken, left, Cursor.note]

/-- **A run of digits and points is read by the longest decimal at its front.** -/
theorem readNumber_reads_longest (cursor : Cursor) {run rest : List Char}
    (split : cursor.rest = run ++ rest) (numeric : ∀ c ∈ run, isNumeric c = true)
    (maximal : ∀ c ∈ rest.head?, isNumeric c = false) :
    ∃ decimal value, IsLongestDecimal run decimal ∧ ReadsRun cursor run rest decimal value := by
  obtain ⟨decimal, isCut⟩ := exists_isCutBehind run
  have reads := readNumber_of_run cursor split numeric maximal
  refine ⟨decimal, (NumberRun.ofChars run).value, isCut.isLongestDecimal, ?_, ?_, ?_, ?_, ?_⟩
  · rw [reads]
  · intro digit
    obtain ⟨literal, spelled, value⟩ :=
      Literal.exists_of_hasDigit (isCut.hasDigit_iff.mpr digit)
    have chars : literal.chars = decimal :=
      List.append_cancel_right (spelled.symm.trans isCut.run_eq)
    rw [← value]
    exact ⟨literal, chars, literal.value_isRounded⟩
  · intro none
    rw [NumberRun.value, if_neg fun digit => none (isCut.hasDigit_iff.mp digit)]
    decide +kernel
  · intro whole
    rw [reads, if_pos (isCut.isNumber_iff.mpr whole)]
  · intro more
    rw [reads, if_neg fun number => more (isCut.isNumber_iff.mp number)]

/-- A second point is passed with the run, and the run is noted. -/
theorem readNumber_reads_longest_points :
    (readNumber (.start {} ['1', '.', '2', '.', '3', '+', 'f'])).2.findings =
        #[.invalidNumber "1.2.3" ⟨0, 5⟩] ∧
      ∃ decimal value, IsLongestDecimal ['1', '.', '2', '.', '3'] decimal ∧
        ReadsRun (.start {} ['1', '.', '2', '.', '3', '+', 'f']) ['1', '.', '2', '.', '3']
          ['+', 'f'] decimal value :=
  ⟨by decide +kernel,
    readNumber_reads_longest _ rfl (by simp [isNumeric]) (by simp [isNumeric])⟩

end Waveform.Formula
