import Mathlib.Data.List.TakeWhile
import Waveform.Proofs.Formula.Reading

/-!
# What a reading goes past

A part of a formula is a piece of text that closes only parentheses that it opens (`Opens`): a
closing one is passed only behind what an opening one has begun. So a call is still open at the end
of a piece if what stands behind its parenthesis is such a piece (`IsOpenCall`). Its name is a whole
one, since a reading does not stop within a run of letters (`Apart`).
-/

set_option autoImplicit false

namespace Waveform

/-- Whether a finding starts before another one. -/
def Diagnostic.StartsBefore (finding other : Diagnostic) : Prop :=
  ∃ span ∈ finding.span?, ∃ span' ∈ other.span?, span.start < span'.start

namespace Formula

open Text

/-! ## Pieces that close nothing from before -/

/-- Whether all parentheses that are closed in a piece of text are opened in it before. -/
def Opens (piece : List Char) : Prop :=
  ∀ front, front <+: piece → front.count ')' ≤ front.count '('

namespace Opens

variable {piece first second : List Char}

theorem of_not_mem (plain : ')' ∉ piece) : Opens piece := by
  intro front starts
  have none : front.count ')' = 0 :=
    List.count_eq_zero.mpr fun member => plain (starts.subset member)
  rw [none]
  exact Nat.zero_le _

theorem nil : Opens [] :=
  of_not_mem List.not_mem_nil

theorem append (opens : Opens first) (opens' : Opens second) : Opens (first ++ second) := by
  intro front starts
  rcases List.prefix_or_prefix_of_prefix starts (List.prefix_append first second) with short | long
  · exact opens front short
  · obtain ⟨back, rfl⟩ := long
    have whole := opens first (List.prefix_refl first)
    have rest := opens' back ((List.prefix_append_right_inj first).mp starts)
    rw [List.count_append, List.count_append]
    exact Nat.add_le_add whole rest

/-- A piece in parentheses. -/
theorem enclosed (opens : Opens piece) : Opens ('(' :: (piece ++ [')'])) := by
  intro front starts
  cases front with
  | nil => exact Nat.le_refl 0
  | cons c front =>
    obtain ⟨rfl, starts'⟩ := List.cons_prefix_cons.mp starts
    have inside : front.count ')' ≤ front.count '(' + 1 := by
      rcases List.prefix_concat_iff.mp starts' with rfl | short
      · have whole := opens piece (List.prefix_refl piece)
        rw [List.count_append, List.count_append]
        exact Nat.add_le_add whole (by decide)
      · exact Nat.le_succ_of_le (opens front short)
    rwa [List.count_cons_of_ne (by decide), List.count_cons_self]

end Opens

/-! ## Pieces that cut no name -/

/-- Whether no run of lower-case letters goes on from one piece of text into the next one. -/
def Apart (front rest : List Char) : Prop :=
  ∀ c ∈ front.getLast?, ∀ d ∈ rest.head?, c.isLower = true → d.isLower = false

namespace Apart

variable {first second rest : List Char}

theorem nil (rest : List Char) : Apart [] rest :=
  nofun

theorem of_getLast? (plain : ∀ c ∈ first.getLast?, c.isLower = false) : Apart first rest := by
  intro c last d _ lower
  cases lower.symm.trans (plain c last)

theorem concat {c : Char} (plain : c.isLower = false) : Apart (first ++ [c]) rest := by
  refine of_getLast? fun d last => ?_
  obtain rfl : c = d := Option.some.inj (List.getLast?_concat.symm.trans last)
  exact plain

theorem of_not_isLower {c : Char} (plain : c.isLower = false) : Apart [c] rest :=
  (concat plain : Apart ([] ++ [c]) rest)

theorem of_isNumeric (numeric : ∀ c ∈ first, isNumeric c = true) : Apart first rest := by
  intro c last d _ lower
  cases (numeric c (List.mem_of_getLast? last)).symm.trans (isNumeric_of_isLower lower)

/-- A name is all of the letters at the front of a text. -/
theorem name (text : List Char) :
    Apart (text.takeWhile Char.isLower) (text.dropWhile Char.isLower) := by
  intro c _ d next _
  have stops := List.head?_dropWhile_not Char.isLower text
  rw [Option.mem_def.mp next] at stops
  simpa using stops

theorem append (apart : Apart first (second ++ rest)) (apart' : Apart second rest) :
    Apart (first ++ second) rest := by
  intro c last
  rw [List.getLast?_append] at last
  cases ends : second.getLast? with
  | none =>
    obtain rfl := List.getLast?_eq_none_iff.mp ends
    rw [ends] at last
    exact apart c last
  | some d =>
    rw [ends] at last
    obtain rfl := Option.some.inj last
    exact apart' d ends

theorem of_prefix {piece : List Char} (apart : Apart first rest) (starts : piece <+: rest) :
    Apart first piece := by
  intro c last d next
  obtain ⟨more, rfl⟩ := List.head?_eq_some_iff.mp next
  obtain ⟨back, rfl⟩ := starts
  exact apart c last d rfl

/-- What is in front of a name does not end in a letter. -/
theorem not_isLower_getLast? (apart : Apart first (second ++ rest)) (nonempty : second ≠ [])
    (letters : ∀ c ∈ second, c.isLower = true) : ∀ c ∈ first.getLast?, c.isLower = false := by
  intro c last
  obtain ⟨d, behind, rfl⟩ := List.exists_cons_of_ne_nil nonempty
  have lower := letters d List.mem_cons_self
  cases lowerFirst : c.isLower with
  | false => rfl
  | true => cases lower.symm.trans (apart c last d rfl lowerFirst)

end Apart

/-! ## Open calls -/

/-- The finding that the name that starts at a position means nothing. -/
def unknownName (position : Nat) (name : List Char) : Diagnostic :=
  .unknownIdentifier (String.ofList name) ⟨position, position + byteLength name⟩

/-- Whether a finding is about a call that is open at the end of a piece of text which starts at a
position: about a name that means nothing, with no letter in front of it, and behind which a
parenthesis is opened that the piece does not close. -/
def IsOpenCall (position : Nat) (piece : List Char) (finding : Diagnostic) : Prop :=
  ∃ front name inside, piece = front ++ (name ++ ['('] ++ inside) ∧ Opens inside ∧
    name ≠ [] ∧ (∀ c ∈ name, c.isLower = true) ∧ (∀ c ∈ front.getLast?, c.isLower = false) ∧
    Builtin.named? (String.ofList name) = none ∧
    finding = unknownName (position + byteLength front) name

theorem IsOpenCall.behind {position : Nat} {front piece : List Char} {finding : Diagnostic}
    (apart : Apart front piece) (isOpen : IsOpenCall (position + byteLength front) piece finding) :
    IsOpenCall position (front ++ piece) finding := by
  obtain ⟨front', name, inside, rfl, opens, nonempty, letters, whole, unknown, rfl⟩ := isOpen
  refine ⟨front ++ front', name, inside, ?_, opens, nonempty, letters, ?_, unknown, ?_⟩
  · exact (List.append_assoc _ _ _).symm
  · rw [List.append_assoc] at apart
    exact (apart.append (.of_getLast? whole)).not_isLower_getLast? nonempty letters
  · rw [byteLength_append, Nat.add_assoc]

/-! ## What a production goes past -/

/-- Whether a production goes past a piece of text with these findings, which are about parts of the
formula. -/
structure Passes (cursor behind : Cursor) (piece : List Char) (noted : List Diagnostic) : Prop where
  rest : cursor.rest = piece ++ behind.rest
  apart : Apart piece behind.rest
  position : behind.position = cursor.position + byteLength piece
  spare : behind.spare ≤ cursor.spare
  findings : behind.findings.toList = cursor.findings.toList ++ noted
  ofParts : ∀ finding ∈ noted, isOfPart finding = true

namespace Passes

variable {cursor middle behind : Cursor} {piece piece' : List Char} {noted noted' : List Diagnostic}

theorem of_charge {spare : Nat} (fewer : spare ≤ cursor.spare) :
    Passes cursor { cursor with spare } [] [] where
  rest := rfl
  apart := .nil _
  position := rfl
  spare := fewer
  findings := (List.append_nil _).symm
  ofParts := nofun

theorem trans (first : Passes cursor middle piece noted)
    (second : Passes middle behind piece' noted') :
    Passes cursor behind (piece ++ piece') (noted ++ noted') where
  rest := by rw [first.rest, second.rest, List.append_assoc]
  apart := Apart.append (second.rest ▸ first.apart) second.apart
  position := by rw [second.position, first.position, byteLength_append, Nat.add_assoc]
  spare := Nat.le_trans second.spare first.spare
  findings := by rw [second.findings, first.findings, List.append_assoc]
  ofParts finding member := by
    rcases List.mem_append.mp member with early | late
    · exact first.ofParts finding early
    · exact second.ofParts finding late

theorem skip {c : Char} (starts : cursor.rest.head? = some c) (plain : c.isLower = false) :
    Passes cursor cursor.skip [c] [] := by
  obtain ⟨rest, spelled⟩ := List.head?_eq_some_iff.mp starts
  have skipped : cursor.skip = { cursor with rest, position := cursor.position + c.utf8Size } := by
    simp [Cursor.skip, spelled]
  rw [skipped]
  exact ⟨spelled, .of_not_isLower plain, rfl, Nat.le_refl _, (List.append_nil _).symm, nofun⟩

theorem takeWhile {keep : Char → Bool}
    (apart : Apart (cursor.rest.takeWhile keep) (cursor.rest.dropWhile keep)) :
    Passes cursor (cursor.takeWhile keep).2 (cursor.takeWhile keep).1 [] where
  rest := List.takeWhile_append_dropWhile.symm
  apart := apart
  position := rfl
  spare := Nat.le_refl _
  findings := (List.append_nil _).symm
  ofParts := nofun

theorem note (passes : Passes cursor behind piece noted) {finding : Diagnostic}
    (ofPart : isOfPart finding = true) :
    Passes cursor (behind.note finding) piece (noted ++ [finding]) where
  rest := passes.rest
  apart := passes.apart
  position := passes.position
  spare := passes.spare
  findings := by
    rw [Cursor.note, Array.toList_push, passes.findings, List.append_assoc]
  ofParts other member := by
    rcases List.mem_append.mp member with early | last
    · exact passes.ofParts other early
    · rw [List.mem_singleton.mp last, ofPart]

/-- A closing parenthesis is passed if there is one. -/
theorem close (cursor : Cursor) : (∃ noted, Passes cursor cursor.close [] noted) ∨
    Passes cursor cursor.close [')'] [] := by
  unfold Cursor.close
  split
  · next rest spelled => exact .inr (skip (by rw [spelled]; rfl) rfl)
  · exact .inl ⟨_, (of_charge (Nat.le_refl cursor.spare)).note rfl⟩

/-- The parentheses around a piece. -/
theorem enclosed (starts : cursor.rest.head? = some '(') (opens : Opens piece)
    (passes : Passes cursor.skip behind piece noted) :
    ∃ piece noted, Opens piece ∧ Passes cursor behind.close piece noted := by
  have inner := (skip starts rfl).trans passes
  rcases close behind with ⟨missing, open'⟩ | closed
  · exact ⟨_, _, .append (.append (.of_not_mem (by decide)) opens) .nil, inner.trans open'⟩
  · exact ⟨_, _, opens.enclosed, inner.trans closed⟩

/-- A formula that is read to its end has no fatal finding. -/
theorem not_isFatal_finish (passes : Passes cursor behind piece noted)
    (none : cursor.findings.toList = []) :
    ∀ finding ∈ behind.finish.findings.toList, finding.isFatal = false := by
  have findings : behind.findings.toList = noted := by
    rw [passes.findings, none, List.nil_append]
  unfold Cursor.finish
  split
  · intro finding member
    rw [findings] at member
    exact (of_isOfPart (passes.ofParts finding member)).1
  · intro finding member
    rw [Cursor.note, Array.toList_push, findings] at member
    rcases List.mem_append.mp member with early | last
    · exact (of_isOfPart (passes.ofParts finding early)).1
    · rw [List.mem_singleton.mp last]
      rfl

end Passes

end Formula

end Waveform
