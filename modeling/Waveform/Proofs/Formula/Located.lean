import Waveform.Proofs.Formula.Limits
import Waveform.Proofs.Text.Bytes

/-!
# Findings point at what they name

A finding that names a piece of the formula gives the place of that piece. Its span starts and ends
at boundaries between characters of the normal form, and what stands between them is the piece. A
finding that something is missing gives the boundary where it is missing
(`parse_findings_pointInto`).

Places are bytes, so this rests on an invariant of the readers: the cursor stands behind a piece at
the front of the text, at the number of bytes of that piece (`Cursor.IsIn`). Abandoned readings have
findings too, but no cursor behind them, and that is why outcomes are followed here (`StaysIn`) and
not readings without limits.
-/

set_option autoImplicit false

namespace Waveform

/-! ## What a finding says about a text -/

/-- Whether a span starts and ends between characters of a text and has a piece of it. -/
def Span.Shows (span : Span) (text piece : String) : Prop :=
  ∃ start stop : text.Pos,
    span = ⟨start.offset.byteIdx, stop.offset.byteIdx⟩ ∧ text.extract start stop = piece

/-- Whether a span is that of the one byte behind a boundary between characters of a text. -/
def Span.IsBehind (span : Span) (text : String) : Prop :=
  ∃ place : text.Pos, span = .single place.offset.byteIdx

namespace Diagnostic

/-- Whether what a finding names is where it says. Findings about limits name nothing, and those
about whole summands have no place in the text. -/
def Names (finding : Diagnostic) (text : String) : Prop :=
  match finding with
  | .unexpectedToken (some c) span => span.Shows text (String.singleton c)
  | .unknownIdentifier name span | .missingArgument name span => span.Shows text name
  | .invalidNumber run span => span.Shows text run
  | .trailingInput rest span => span.Shows text rest
  | .unexpectedToken none span | .unclosedParen span => span.IsBehind text
  | .maxDepthExceeded _ | .maxNodesExceeded _ => True
  | .unrecognizedTerm _ | .degeneratePulse _ => False

/-- Whether a finding names what is where it says, and its span, if it has one, is not empty. -/
structure PointsInto (finding : Diagnostic) (text : String) : Prop where
  valid : ∀ span ∈ finding.span?, span.isValid = true
  names : finding.Names text

variable {finding : Diagnostic} {span : Span} {text : String}

theorem PointsInto.of_span (here : finding.span? = some span) (valid : span.isValid = true)
    (names : finding.Names text) : finding.PointsInto text := by
  refine ⟨fun other member => ?_, names⟩
  rw [here] at member
  rwa [← Option.some.inj member]

/-- A limit that is exceeded is found at no place. -/
theorem PointsInto.of_isFatal (fatal : finding.isFatal = true) : finding.PointsInto text := by
  cases finding with
  | maxDepthExceeded | maxNodesExceeded =>
    refine ⟨fun span none => ?_, trivial⟩
    cases none
  | unexpectedToken | unknownIdentifier | missingArgument | invalidNumber | unclosedParen
  | trailingInput | unrecognizedTerm | degeneratePulse => cases fatal

end Diagnostic

namespace Formula

variable {text : List Char}

/-! ## Cursors in a text -/

/-- Whether a cursor stands behind a piece at the front of a text, and all that was found until
there points into the text. -/
structure Cursor.IsIn (text : List Char) (cursor : Cursor) : Prop where
  reached : ∃ front, text = front ++ cursor.rest ∧ cursor.position = Text.byteLength front
  found : ∀ finding ∈ cursor.findings, finding.PointsInto (String.ofList text)

namespace Cursor.IsIn

variable {cursor : Cursor} {finding : Diagnostic}

theorem start (limits : Limits) (text : List Char) : (Cursor.start limits text).IsIn text :=
  ⟨⟨[], rfl, rfl⟩, fun _ member => absurd member (Array.not_mem_empty _)⟩

theorem push (isIn : cursor.IsIn text) (points : finding.PointsInto (String.ofList text)) :
    ∀ other ∈ cursor.findings.push finding, other.PointsInto (String.ofList text) := by
  intro other member
  rcases Array.mem_push.mp member with early | rfl
  · exact isIn.found other early
  · exact points

theorem note (isIn : cursor.IsIn text) (points : finding.PointsInto (String.ofList text)) :
    (cursor.note finding).IsIn text :=
  ⟨isIn.reached, isIn.push points⟩

/-- A cursor that goes on over characters that are next stays in the text. -/
theorem advance (isIn : cursor.IsIn text) {taken rest : List Char}
    (split : cursor.rest = taken ++ rest) :
    ({ cursor with
      rest, position := cursor.position + Text.byteLength taken } : Cursor).IsIn text := by
  obtain ⟨front, whole, position⟩ := isIn.reached
  refine ⟨⟨front ++ taken, ?_, ?_⟩, isIn.found⟩
  · rw [whole, split, List.append_assoc]
  · rw [Text.byteLength_append, ← position]

theorem takeWhile (isIn : cursor.IsIn text) (keep : Char → Bool) :
    (cursor.takeWhile keep).2.IsIn text :=
  isIn.advance List.takeWhile_append_dropWhile.symm

theorem skip (isIn : cursor.IsIn text) : cursor.skip.IsIn text := by
  unfold Cursor.skip
  split
  · exact isIn
  · next c rest starts =>
    have split : cursor.rest = [c] ++ rest := starts
    exact isIn.advance split

/-! ### What is found at a cursor -/

/-- Characters that are next are between the cursor and the place behind them. -/
theorem shows (isIn : cursor.IsIn text) {taken rest : List Char} (nonempty : taken ≠ [])
    (split : cursor.rest = taken ++ rest) :
    (Span.mk cursor.position (cursor.position + Text.byteLength taken)).isValid = true ∧
      (Span.mk cursor.position (cursor.position + Text.byteLength taken)).Shows
        (String.ofList text) (String.ofList taken) := by
  obtain ⟨front, whole, position⟩ := isIn.reached
  have parts : String.ofList text =
      String.ofList front ++ String.ofList taken ++ String.ofList rest := by
    rw [whole, split, ← List.append_assoc, String.ofList_append, String.ofList_append]
  obtain ⟨start, stop, starts, stops, piece⟩ := Text.exists_extract_eq parts
  rw [← Text.byteLength_eq] at starts stops
  rw [← Text.byteLength_eq] at stops
  constructor
  · obtain ⟨c, later, rfl⟩ := List.exists_cons_of_ne_nil nonempty
    have positive := c.utf8Size_pos
    refine decide_eq_true (Nat.lt_add_of_pos_right ?_)
    rw [Text.byteLength_cons]
    omega
  · exact ⟨start, stop, by rw [starts, stops, position], piece⟩

/-- The cursor stands between characters. -/
theorem isBehind (isIn : cursor.IsIn text) :
    (Span.single cursor.position).IsBehind (String.ofList text) := by
  obtain ⟨front, whole, position⟩ := isIn.reached
  have parts : String.ofList text = String.ofList front ++ String.ofList cursor.rest := by
    rw [← String.ofList_append, ← whole]
  obtain ⟨place, same⟩ := Text.exists_place parts
  exact ⟨place, by rw [same, position, Text.byteLength_eq]⟩

/-- What ends at the cursor although it should go on points there. -/
theorem pointsInto_single (isIn : cursor.IsIn text)
    (here : finding.span? = some (.single cursor.position))
    (names : (Span.single cursor.position).IsBehind (String.ofList text) →
      finding.Names (String.ofList text)) : finding.PointsInto (String.ofList text) :=
  .of_span here (Span.isValid_single _) (names isIn.isBehind)

theorem close (isIn : cursor.IsIn text) : cursor.close.IsIn text := by
  unfold Cursor.close
  split
  · exact isIn.skip
  · exact isIn.note (isIn.pointsInto_single rfl id)

/-- Text that is left over is found where it starts. -/
theorem finish (isIn : cursor.IsIn text) : cursor.finish.IsIn text := by
  unfold Cursor.finish
  split
  · exact isIn
  · next nonempty =>
    obtain ⟨valid, shows⟩ := isIn.shows nonempty (List.append_nil _).symm
    exact isIn.note (.of_span rfl valid shows)

end Cursor.IsIn

/-! ## Outcomes -/

/-- Whether a result is good or, if the reading was abandoned, all that was found points into the
text. -/
def Outcome.Stays {α : Type} (text : List Char) (good : α → Prop) : Outcome α → Prop
  | .ok result => good result
  | .error findings => ∀ finding ∈ findings, finding.PointsInto (String.ofList text)

theorem Outcome.Stays.bind {α β : Type} {good : α → Prop} {good' : β → Prop}
    {outcome : Outcome α} {next : α → Outcome β} (first : Outcome.Stays text good outcome)
    (second : ∀ result, good result → Outcome.Stays text good' (next result)) :
    Outcome.Stays text good' (outcome >>= next) := by
  cases outcome with
  | ok result => exact second result first
  | error findings => exact first

/-- Whether an outcome leaves the cursor in the text. -/
abbrev EndsIn (text : List Char) {α : Type} (outcome : Outcome (α × Cursor)) : Prop :=
  Outcome.Stays text (fun result => result.2.IsIn text) outcome

/-- Whether a reader leaves every cursor in the text. -/
def StaysIn (text : List Char) (read : Reader) : Prop :=
  ∀ cursor, cursor.IsIn text → EndsIn text (read cursor)

section Chains

variable {limits : Limits} {operator? : Char → Option BinaryOp} {read : Reader} {cursor : Cursor}

theorem stays_charge (limits : Limits) (isIn : cursor.IsIn text) :
    Outcome.Stays text (fun charged => charged.IsIn text) (cursor.charge limits) := by
  unfold Cursor.charge
  split
  · exact isIn.push (.of_isFatal rfl)
  · exact ⟨isIn.reached, isIn.found⟩

/-- Links lead from cursor to cursor, by induction on how many may be read. -/
theorem endsIn_readLinks (stays : StaysIn text read) (budget : Nat) (isIn : cursor.IsIn text) :
    EndsIn text (readLinks limits operator? read budget cursor) := by
  induction budget generalizing cursor with
  | zero =>
    unfold readLinks
    split
    · exact isIn
    · exact isIn.push (.of_isFatal rfl)
  | succ budget ih =>
    unfold readLinks
    split
    · exact isIn
    · refine (stays_charge limits isIn).bind fun charged isIn => ?_
      refine (stays charged.skip isIn.skip).bind fun operand isIn => ?_
      exact (ih isIn).bind fun links isIn => isIn

theorem StaysIn.readChain (stays : StaysIn text read) :
    StaysIn text (readChain limits operator? read) := by
  intro cursor isIn
  refine (stays cursor isIn).bind fun head isIn => ?_
  exact (endsIn_readLinks stays _ isIn).bind fun links isIn => isIn

theorem StaysIn.readSum (stays : StaysIn text read) : StaysIn text (readSum limits read) :=
  stays.readChain.readChain

theorem StaysIn.readGroup (stays : StaysIn text read) : StaysIn text (readGroup limits read) := by
  intro cursor isIn
  exact (stays.readSum cursor.skip isIn.skip).bind fun inner isIn => isIn.close

end Chains

/-! ## Operands -/

section Operands

variable {limits : Limits} {deeper : Option Reader} {cursor : Cursor}

theorem isIn_readNumber (isIn : cursor.IsIn text) {c : Char} {rest : List Char}
    (starts : cursor.rest = c :: rest) (numeric : isNumeric c = true) :
    (readNumber cursor).2.IsIn text := by
  have nonempty : cursor.rest.takeWhile isNumeric ≠ [] := by simp [starts, numeric]
  obtain ⟨valid, shows⟩ := isIn.shows nonempty List.takeWhile_append_dropWhile.symm
  have behind := isIn.takeWhile isNumeric
  simp only [readNumber]
  split
  · exact behind
  · exact behind.note (.of_span rfl valid shows)

/-- What is read for a name leaves the cursor in the text. What is found about the name points to
its letters, also if the reading of its argument was abandoned. -/
theorem endsIn_readName (inside : ∀ read ∈ deeper, StaysIn text read) (isIn : cursor.IsIn text)
    {c : Char} {rest : List Char} (starts : cursor.rest = c :: rest) (lower : c.isLower = true) :
    EndsIn text (readName limits deeper cursor) := by
  have nonempty : cursor.rest.takeWhile Char.isLower ≠ [] := by simp [starts, lower]
  obtain ⟨valid, shows⟩ := isIn.shows nonempty List.takeWhile_append_dropWhile.symm
  have behind := isIn.takeWhile Char.isLower
  unfold readName
  dsimp only
  split
  · exact behind
  · exact behind
  · exact behind
  · split
    · cases deeper with
      | none => exact behind.push (.of_isFatal rfl)
      | some read =>
        have group : EndsIn text (readGroup limits read (cursor.takeWhile Char.isLower).2) :=
          (inside read rfl).readGroup _ behind
        dsimp only
        -- the group of a function, then that behind a name that means nothing; each may be
        -- abandoned
        split
        · next outcome =>
          rw [outcome] at group
          exact group
        · next outcome =>
          rw [outcome] at group
          exact group
        · next outcome =>
          rw [outcome] at group
          exact Cursor.IsIn.note group (.of_span rfl valid shows)
        · next outcome =>
          rw [outcome] at group
          intro other member
          rcases Array.mem_push.mp member with early | rfl
          · exact group other early
          · exact .of_span rfl valid shows
    · exact behind.note (.of_span rfl valid shows)
    · exact behind.note (.of_span rfl valid shows)

theorem endsIn_readNegation (inside : ∀ read ∈ deeper, StaysIn text read)
    (isIn : cursor.IsIn text) : EndsIn text (readNegation limits deeper cursor) := by
  unfold readNegation
  cases deeper with
  | none => exact isIn.push (.of_isFatal rfl)
  | some read => exact (inside read rfl cursor.skip isIn.skip).bind fun operand isIn => isIn

theorem endsIn_readPrimary (inside : ∀ read ∈ deeper, StaysIn text read)
    (isIn : cursor.IsIn text) : EndsIn text (readPrimary limits deeper cursor) := by
  unfold readPrimary
  split
  · exact isIn.note (isIn.pointsInto_single rfl id)
  · next c rest starts =>
    split
    · cases deeper with
      | none => exact isIn.push (.of_isFatal rfl)
      | some read => exact (inside read rfl).readGroup cursor isIn
    · split
      · next numeric => exact isIn_readNumber isIn starts numeric
      · split
        · next lower => exact endsIn_readName inside isIn starts lower
        · obtain ⟨valid, shows⟩ := isIn.shows (List.cons_ne_nil c []) starts
          exact isIn.note (.of_span rfl valid shows)

theorem staysIn_operandWith (inside : ∀ read ∈ deeper, StaysIn text read) :
    StaysIn text (operandWith limits deeper) := by
  intro cursor isIn
  refine (stays_charge limits isIn).bind fun charged isIn => ?_
  split
  · exact endsIn_readNegation inside isIn
  · exact endsIn_readPrimary inside isIn

/-- Operands leave the cursor in the text, by induction on the levels that they may go down. -/
theorem staysIn_operand (text : List Char) (limits : Limits) (levels : Nat) :
    StaysIn text (operand limits levels) := by
  induction levels with
  | zero => exact staysIn_operandWith fun read missing => by cases missing
  | succ levels ih =>
    refine staysIn_operandWith fun read given => ?_
    cases given
    exact ih

end Operands

/-! ## Formulas -/

theorem readAll_pointsInto (limits : Limits) (text : List Char) :
    ∀ finding ∈ (readAll limits text).2, finding.PointsInto (String.ofList text) := by
  have sum : EndsIn text (readSum limits (operand limits limits.depth) (.start limits text)) :=
    (staysIn_operand text limits limits.depth).readSum _ (.start limits text)
  unfold readAll
  split
  · next outcome =>
    rw [outcome] at sum
    exact sum.finish.found
  · next outcome =>
    rw [outcome] at sum
    exact sum

/-- **Every finding about a formula points at what it names.** Whatever text is read under whatever
limits, the span of a finding is not empty. Where the finding names a piece of the normal form, the
span starts and ends between characters and has exactly this piece; where something is missing, the
span is that of one byte at a boundary between characters. -/
theorem parse_findings_pointInto (formula : String) (limits : Limits) :
    ∀ finding ∈ (parse formula limits).diagnostics,
      finding.PointsInto (parse formula limits).normalized := by
  intro finding member
  rw [parse_eq] at member ⊢
  exact readAll_pointsInto limits _ finding (Array.mem_toList_iff.mp member)

/-- A character of two bytes that is not understood has a span of two bytes, counted behind the
white space that is left out. -/
theorem parse_findings_pointInto_accent :
    .unexpectedToken (some 'é') ⟨2, 4⟩ ∈ (parse "2 + É").diagnostics ∧
      (Span.mk 2 4).Shows "2+é" "é" := by
  have member : .unexpectedToken (some 'é') ⟨2, 4⟩ ∈ (parse "2 + É").diagnostics := by
    decide +kernel
  have normal : (parse "2 + É").normalized = "2+é" := by
    decide +kernel
  have points := parse_findings_pointInto "2 + É" {} _ member
  rw [normal] at points
  exact ⟨member, points.names⟩

end Formula

end Waveform
