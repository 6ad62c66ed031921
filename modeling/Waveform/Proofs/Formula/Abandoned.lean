import Waveform.Proofs.Formula.Followed

/-!
# Abandoned readings

A reading that is abandoned for a limit counts as zero. Its findings are those of the parts that
were read, the fatal one, and behind it those about calls of unknown names that were open there,
from the innermost to the outermost (`Parsed.IsAbandonedAt`). A descent finds the same, and no
reading leaves a level that it has not entered (`parse_abandoned`).
-/

set_option autoImplicit false

namespace Waveform

/-- What is left behind by a reading that was abandoned at this byte of its text: the number zero
and just one fatal finding, and none about text that is left over. Behind the fatal finding there
are those about the names that mean nothing of calls that were open there, from the innermost to the
outermost. -/
structure Parsed.IsAbandonedAt (parsed : Parsed) (place : Nat) : Prop where
  expr : parsed.expr = .zero
  once : parsed.diagnostics.countP Diagnostic.isFatal = 1
  nothingLeft : ∀ finding ∈ parsed.diagnostics, finding.kind ≠ .trailingInput
  calls : ∃ piece noted fatal calls, piece <+: parsed.normalized.toList ∧
    place = Text.byteLength piece ∧ parsed.diagnostics = noted ++ fatal :: calls ∧
    fatal.isFatal = true ∧ (∀ call ∈ calls, Formula.IsOpenCall 0 piece call) ∧
    calls.Pairwise fun call outer => outer.StartsBefore call

namespace Formula

theorem Stops.isAbandonedAt {limits : Limits} {text : List Char} {last : Descent}
    {piece : List Char} {noted : List Diagnostic} {fatal : Diagnostic} {calls : List Diagnostic}
    (stops : Stops limits ⟨.start limits text, 0, none⟩ last piece noted fatal calls) :
    (Parsed.mk .zero last.cursor.findings.toList (String.ofList text)).IsAbandonedAt
      (Text.byteLength piece) := by
  have findings : last.cursor.findings.toList = noted ++ fatal :: calls := stops.findings
  obtain ⟨isFatal, notLeft⟩ := stops.isFatal_and_kind_ne
  have ofParts : ∀ finding ∈ noted ++ calls, isOfPart finding = true := by
    intro finding member
    rcases List.mem_append.mp member with early | call
    · exact stops.ofParts finding early
    · obtain ⟨_, _, _, _, _, _, _, _, _, rfl⟩ := stops.areOpen finding call
      rfl
  refine ⟨rfl, ?_, ?_, piece, noted, fatal, calls, ?_, rfl, findings, isFatal, stops.areOpen,
    stops.inward⟩
  · have others : (noted ++ calls).countP Diagnostic.isFatal = 0 :=
      List.countP_eq_zero.mpr
        fun finding member => by simp [(of_isOfPart (ofParts finding member)).1]
    rw [List.countP_append] at others
    rw [findings, List.countP_append, List.countP_cons_of_pos isFatal]
    omega
  · intro finding member
    rw [findings] at member
    rcases List.mem_append.mp member with early | late
    · exact (of_isOfPart (ofParts finding (List.mem_append_left _ early))).2
    · rcases List.mem_cons.mp late with rfl | call
      · exact notLeft
      · exact (of_isOfPart (ofParts finding (List.mem_append_right _ call))).2
  · rw [String.toList_ofList]
    exact stops.starts

/-- **An abandoned reading is clean, and no level is left that was not entered.** -/
theorem parse_abandoned (formula : String) (limits : Limits) :
    ∃ last, Descent.run limits (Text.normalChars formula.toList) =
        some ((parse formula limits).expr, last) ∧
      last.cursor.findings.toList = (parse formula limits).diagnostics ∧
      ((parse formula limits).isFatal = false → last.abandoned = none ∧ last.level = 0) ∧
      ((parse formula limits).isFatal = true →
        ∃ place, last.abandoned = some place ∧ last.level ≤ 1 ∧
          (parse formula limits).IsAbandonedAt place) := by
  rw [parse_eq]
  generalize Text.normalChars formula.toList = text
  have follows := follows_sum limits text
  unfold Descent.run readAll
  generalize readSum limits (operand limits limits.depth) (.start limits text) = outcome,
    Descent.sum limits (Descent.operand limits limits.depth) ⟨.start limits text, 0, none⟩ = run
    at follows ⊢
  cases follows with
  | completes opens passes =>
    have fine := passes.not_isFatal_finish rfl
    refine ⟨_, rfl, rfl, fun _ => ⟨rfl, rfl⟩, fun fatal => ?_⟩
    obtain ⟨finding, member, isFatal⟩ := List.any_eq_true.mp fatal
    rw [fine finding member] at isFatal
    cases isFatal
  | @stops _ last piece _ _ _ stops =>
    have level : last.level ≤ 1 := by
      rcases stops.limit with ⟨_, level⟩ | ⟨_, level⟩
      · exact level.trans_le (Nat.zero_le 1)
      · exact level.le
    have abandoned : last.abandoned = some (Text.byteLength piece) :=
      stops.abandoned.trans (congrArg some (Nat.zero_add _))
    obtain ⟨fatal, member, isFatal⟩ :=
      List.countP_pos_iff.mp (Nat.lt_of_lt_of_eq Nat.one_pos stops.isAbandonedAt.once.symm)
    refine ⟨last, ?_, rfl, fun clean => ?_, fun _ => ⟨_, abandoned, level, stops.isAbandonedAt⟩⟩
    · change some (if last.abandoned.isSome = true then _ else _) = _
      rw [abandoned]
      rfl
    · rw [Parsed.isFatal, List.any_eq_true.mpr ⟨fatal, member, isFatal⟩] at clean
      cases clean

theorem parse_abandoned_nested :
    (parse "1+foo(2*bar((t" { depth := 2 }).isFatal = true ∧
      (parse "1+foo(2*bar((t" { depth := 2 }).IsAbandonedAt 12 := by
  have fatal : (parse "1+foo(2*bar((t" { depth := 2 }).isFatal = true := by decide +kernel
  have place : (Descent.run { depth := 2 } (Text.normalChars "1+foo(2*bar((t".toList)).map
      (·.2.abandoned) = some (some 12) := by decide +kernel
  obtain ⟨last, run, _, _, abandoned⟩ := parse_abandoned "1+foo(2*bar((t" { depth := 2 }
  obtain ⟨_, here, _, isAbandonedAt⟩ := abandoned fatal
  rw [run, Option.map_some, here] at place
  cases place
  exact ⟨fatal, isAbandonedAt⟩

end Formula

end Waveform
