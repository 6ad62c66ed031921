import Waveform.Proofs.Formula.Cost
import Waveform.Proofs.Text.Bytes
import Waveform.Proofs.Text.Settled

/-!
# Text that is left over

Where a formula goes on behind its sum, the rest is left over: it is noted, and the formula is read
as if it ended there (`parse_stopsBefore`). Nothing else is found differently, apart from a
character that no operand starts with and that is left over itself. Without it the text ends there
instead.

The rules of the grammar look one character ahead, so they do not say themselves that a text may be
cut off where a reading ends. It may, since each of these looks either asks for a character that the
rule takes, or goes on unless it sees a certain character, which it does not see at the end of the
text either (`Place.IsCut.head?`). The induction over readings carries the place in the shorter text
(`Reads.cut`).
-/

set_option autoImplicit false

namespace Waveform

/-- What becomes of a finding in a text that ends at a place: no character is there that could be
unexpected. -/
def Diagnostic.endedAt (place : Nat) (finding : Diagnostic) : Diagnostic :=
  match finding with
  | .unexpectedToken _ span =>
    if span.start = place then .unexpectedToken none (.single place) else finding
  | _ => finding

namespace Diagnostic

variable {finding : Diagnostic} {got : Option Char} {span : Span} {place : Nat}

theorem endedAt_of_kind_ne (other : finding.kind ≠ .unexpectedToken) :
    finding.endedAt place = finding := by
  cases finding with
  | unexpectedToken => exact absurd rfl other
  | unknownIdentifier | missingArgument | invalidNumber | unclosedParen | trailingInput
  | maxDepthExceeded | maxNodesExceeded | unrecognizedTerm | degeneratePulse => rfl

theorem endedAt_of_start_eq (here : span.start = place) :
    (unexpectedToken got span).endedAt place = .unexpectedToken none (.single place) :=
  if_pos here

theorem endedAt_of_start_ne (other : span.start ≠ place) :
    (unexpectedToken got span).endedAt place = .unexpectedToken got span :=
  if_neg other

end Diagnostic

namespace Formula

/-! ## Places in a text that is cut off -/

variable {back : List Char} {stop : Nat}

/-- Whether `short` is the same place in the text without its end `back`, which stops at the byte
`stop`. -/
structure Place.IsCut (back : List Char) (stop : Nat) (place short : Place) : Prop where
  rest : place.rest = short.rest ++ back
  position : place.position = short.position
  ends : short.position + Text.byteLength short.rest = stop

namespace Place.IsCut

variable {place short : Place}

/-- What is next in the shorter text was next before. -/
theorem head? (cut : IsCut back stop place short) :
    ∀ c ∈ short.rest.head?, place.rest.head? = some c := by
  intro c next
  rw [cut.rest, List.head?_append, Option.mem_def.mp next]
  rfl

/-- Where nothing of `back` is taken, the same is taken from the shorter text. -/
theorem behind (cut : IsCut back stop place short) {taken : List Char}
    (split : place.rest = taken ++ (place.behind taken).rest)
    (kept : back <:+ (place.behind taken).rest) :
    short.rest = taken ++ (short.behind taken).rest ∧
      IsCut back stop (place.behind taken) (short.behind taken) := by
  obtain ⟨later, same⟩ := kept
  have whole : short.rest ++ back = taken ++ later ++ back := by
    rw [← cut.rest, split, ← same, List.append_assoc]
  have rest : short.rest = taken ++ later := List.append_cancel_right whole
  have left : (short.behind taken).rest = later := by simp [Place.behind, rest]
  have ends := cut.ends
  rw [rest, Text.byteLength_append] at ends
  refine ⟨by rw [left, rest], ⟨by rw [left, same], ?_, ?_⟩⟩
  · simp [Place.behind, cut.position]
  · rw [left, ← ends, Place.behind, Nat.add_assoc]

theorem starts (cut : IsCut back stop place short) {c : Char} (starts : place.rest.head? = some c)
    (kept : back <:+ (place.behind [c]).rest) :
    short.rest.head? = some c ∧ IsCut back stop (place.behind [c]) (short.behind [c]) := by
  obtain ⟨split, behind⟩ := cut.behind (Place.rest_of_head? starts) kept
  exact ⟨by rw [split]; rfl, behind⟩

/-- A run that does not reach `back` is the same in the shorter text. -/
theorem span (cut : IsCut back stop place short) {keep : Char → Bool} {taken : List Char}
    (spelled : place.span keep = taken) (kept : back <:+ (place.behind taken).rest) :
    short.span keep = taken ∧ IsCut back stop (place.behind taken) (short.behind taken) := by
  subst spelled
  obtain ⟨split, behind⟩ := cut.behind (place.span_append_behind keep) kept
  refine ⟨?_, behind⟩
  have stops : ∀ c ∈ (short.behind (place.span keep)).rest.head?, keep c = false := by
    intro c next
    have rejected := List.head?_dropWhile_not keep place.rest
    rw [← place.behind_span_rest, behind.head? c next] at rejected
    exact rejected
  rw [Place.span, split]
  exact (takeWhile_of_stop (fun c member => List.mem_takeWhile_imp member) stops).1

theorem extent (cut : IsCut back stop place short) (taken : List Char) :
    short.extent taken = place.extent taken := by
  simp [Place.extent, Place.behind, cut.position]

end Place.IsCut

/-! ## Readings of a text that is cut off -/

namespace Yield

/-- What a reading yields in a text that ends at the byte `stop`, where it leads to `after`. -/
def endedAt (yield : Yield) (stop : Nat) (after : Place) : Yield :=
  { yield with findings := yield.findings.map (.endedAt stop), place := after }

theorem after_endedAt (second first : Yield) (stop : Nat) (middle last : Place) :
    (second.endedAt stop last).after (first.endedAt stop middle) =
      (second.after first).endedAt stop last := by
  simp [after, endedAt]

theorem noted_endedAt (yield : Yield) (finding : Diagnostic) (stop : Nat) (after : Place) :
    (yield.noted finding).endedAt stop after =
      (yield.endedAt stop after).noted (finding.endedAt stop) := by
  simp [noted, endedAt]

theorem leaf_endedAt (expr : Expr) (finding : Diagnostic) (place : Place) (stop : Nat)
    (after : Place) : (Yield.leaf expr [finding] place).endedAt stop after =
      .leaf expr [finding.endedAt stop] after :=
  rfl

/-- A parenthesis that is closed before `back` is closed in the shorter text, and one that is
missing is missing there. -/
theorem exists_closed_endedAt {yield : Yield} {after : Place}
    (cut : Place.IsCut back stop yield.place after) (kept : back <:+ yield.closed.place.rest) :
    ∃ last, Place.IsCut back stop yield.closed.place last ∧
      (yield.endedAt stop after).closed = yield.closed.endedAt stop last := by
  by_cases close : yield.place.rest.head? = some ')'
  · rw [closed_of_close close] at kept ⊢
    obtain ⟨follows, behind⟩ := cut.starts close kept
    exact ⟨_, behind, closed_of_close follows⟩
  · have missing : after.rest.head? ≠ some ')' := fun follows => close (cut.head? ')' follows)
    rw [closed_of_open close, closed_of_open missing]
    refine ⟨after, cut, ?_⟩
    rw [noted_endedAt, cut.position]
    rfl

end Yield

/-- An operand with nothing inside is the same in the shorter text, also if that ends in front of a
character that no operand starts with: then the operand is missing. -/
theorem Leaf.cut {place short : Place} {yield : Yield} (leaf : Leaf place yield)
    (cut : Place.IsCut back stop place short) (kept : back <:+ yield.place.rest) :
    ∃ after, Place.IsCut back stop yield.place after ∧
      Leaf short (yield.endedAt stop after) := by
  cases leaf with
  | @none position =>
    obtain ⟨left, position'⟩ := short
    obtain rfl : position = position' := cut.position
    obtain ⟨rfl, _⟩ := List.append_eq_nil_iff.mp cut.rest.symm
    refine ⟨_, cut, ?_⟩
    rw [Yield.leaf_endedAt, Diagnostic.endedAt_of_start_eq cut.ends, ← cut.ends]
    exact .none
  | @unexpected c rest position notMinus notOpen notNumeric notLower =>
    obtain ⟨left, position'⟩ := short
    obtain rfl : position = position' := cut.position
    refine ⟨_, cut, ?_⟩
    rw [Yield.leaf_endedAt]
    cases left with
    | nil =>
      rw [Diagnostic.endedAt_of_start_eq cut.ends, ← cut.ends]
      exact .none
    | cons d left =>
      obtain ⟨rfl, _⟩ := List.cons.inj cut.rest
      have positive := c.utf8Size_pos
      have ends : position + (c.utf8Size + Text.byteLength left) = stop := cut.ends
      rw [Diagnostic.endedAt_of_start_ne (by dsimp only; omega)]
      exact .unexpected notMinus notOpen notNumeric notLower
  | number nonempty isNumber =>
    obtain ⟨spelled, behind⟩ := cut.span rfl kept
    rw [← spelled] at nonempty isNumber
    have leaf := Leaf.number nonempty isNumber
    rw [spelled] at leaf
    exact ⟨_, behind, leaf⟩
  | invalid nonempty isNoNumber =>
    obtain ⟨spelled, behind⟩ := cut.span rfl kept
    rw [← spelled] at nonempty isNoNumber
    have leaf := Leaf.invalid nonempty isNoNumber
    rw [spelled, cut.extent] at leaf
    exact ⟨_, behind, leaf⟩
  | letter known spelled =>
    obtain ⟨spelled, behind⟩ := cut.span spelled kept
    exact ⟨_, behind, .letter known spelled⟩
  | pi spelled =>
    obtain ⟨spelled, behind⟩ := cut.span spelled kept
    exact ⟨_, behind, .pi spelled⟩
  | bare nonempty spelled other noArgument =>
    obtain ⟨spelled, behind⟩ := cut.span spelled kept
    have leaf := Leaf.bare nonempty spelled other fun follows =>
      noArgument (behind.head? '(' follows)
    rw [cut.extent] at leaf
    refine ⟨_, behind, ?_⟩
    rw [Yield.leaf_endedAt, Diagnostic.endedAt_of_kind_ne]
    · exact leaf
    · split <;> exact Diagnostic.Kind.noConfusion

/-- **A reading does not depend on the text behind its end.** Whatever stands there may be cut off,
and only a character that was unexpected there is not found. -/
theorem Reads.cut {part : Part} {place : Place} {yield : Yield} (reads : Reads part place yield)
    {short : Place} (cut : Place.IsCut back stop place short) (kept : back <:+ yield.place.rest) :
    ∃ after, Place.IsCut back stop yield.place after ∧
      Reads part short (yield.endedAt stop after) := by
  induction reads generalizing short with
  | chain _ more ihFirst ihMore =>
    obtain ⟨middle, cutMiddle, first⟩ := ihFirst cut (kept.trans more.place_suffix)
    obtain ⟨last, cutLast, links⟩ := ihMore cutMiddle kept
    refine ⟨last, cutLast, ?_⟩
    rw [← Yield.after_endedAt _ _ stop middle]
    exact .chain first links
  | stop ends =>
    refine ⟨short, cut, ?_⟩
    refine .stop ?_
    cases next : short.rest.head? with
    | none => rfl
    | some c => rwa [← cut.head? c next]
  | link follows fits first more ihFirst ihMore =>
    have keptFirst := kept.trans more.place_suffix
    obtain ⟨follows, cutOperand⟩ := cut.starts follows (keptFirst.trans first.place_suffix)
    obtain ⟨middle, cutMiddle, first⟩ := ihFirst cutOperand keptFirst
    obtain ⟨last, cutLast, links⟩ := ihMore cutMiddle kept
    refine ⟨last, cutLast, ?_⟩
    rw [← Yield.after_endedAt _ _ stop middle]
    exact .link follows fits first links
  | minus starts inner ih =>
    obtain ⟨starts, cutInner⟩ := cut.starts starts (kept.trans inner.place_suffix)
    obtain ⟨last, cutLast, operand⟩ := ih cutInner kept
    exact ⟨last, cutLast, .minus starts operand⟩
  | group starts inner ih =>
    have keptInner := kept.trans (Yield.closed_place_suffix _)
    obtain ⟨starts, cutInner⟩ := cut.starts starts (keptInner.trans inner.place_suffix)
    obtain ⟨middle, cutMiddle, sum⟩ := ih cutInner keptInner
    obtain ⟨last, cutLast, closed⟩ := Yield.exists_closed_endedAt cutMiddle kept
    have group := Reads.group starts sum
    rw [closed] at group
    exact ⟨last, cutLast, group⟩
  | call spelled starts inner ih =>
    have keptInner := kept.trans (Yield.closed_place_suffix _)
    have keptName := keptInner.trans inner.place_suffix
    obtain ⟨spelled, cutName⟩ := cut.span spelled (keptName.trans (Place.behind_rest_suffix _ _))
    obtain ⟨starts, cutInner⟩ := cutName.starts starts keptName
    obtain ⟨middle, cutMiddle, sum⟩ := ih cutInner keptInner
    obtain ⟨last, cutLast, closed⟩ := Yield.exists_closed_endedAt cutMiddle kept
    have call := Reads.call spelled starts sum
    rw [closed] at call
    exact ⟨last, cutLast, call⟩
  | unknown nonempty spelled other unnamed starts inner ih =>
    have keptInner := kept.trans (Yield.closed_place_suffix _)
    have keptName := keptInner.trans inner.place_suffix
    obtain ⟨spelled, cutName⟩ := cut.span spelled (keptName.trans (Place.behind_rest_suffix _ _))
    obtain ⟨starts, cutInner⟩ := cutName.starts starts keptName
    obtain ⟨middle, cutMiddle, sum⟩ := ih cutInner keptInner
    obtain ⟨last, cutLast, closed⟩ := Yield.exists_closed_endedAt cutMiddle kept
    have unknown := Reads.unknown nonempty spelled other unnamed starts sum
    rw [closed, cut.extent] at unknown
    refine ⟨last, cutLast, ?_⟩
    change Reads .operand short (Yield.endedAt (Yield.noted _ _) stop last).deeper.charged
    rw [Yield.noted_endedAt]
    exact unknown
  | leaf leaf =>
    obtain ⟨after, cutAfter, leaf⟩ := leaf.cut cut kept
    exact ⟨after, cutAfter, .leaf leaf⟩

/-! ## Formulas -/

/-- A formula is read the same when it ends where its sum does. -/
theorem ReadsAll.exists_cut {text : List Char} {yield : Yield} (reads : ReadsAll text yield) :
    ∃ front, text = front ++ yield.place.rest ∧ yield.place.position = Text.byteLength front ∧
      ReadsAll front (yield.endedAt (Text.byteLength front) ⟨[], Text.byteLength front⟩) := by
  obtain ⟨front, split⟩ := Reads.place_suffix reads
  have cut : Place.IsCut yield.place.rest (Text.byteLength front) ⟨text, 0⟩ ⟨front, 0⟩ :=
    ⟨split.symm, rfl, Nat.zero_add _⟩
  obtain ⟨⟨left, position⟩, cutLast, short⟩ := Reads.cut reads cut (List.suffix_refl _)
  obtain rfl : left = [] := List.self_eq_append_left.mp cutLast.rest
  obtain rfl : position = Text.byteLength front := cutLast.ends
  exact ⟨front, split.symm, cutLast.position, short⟩

/-- What is found about text that is left over, if there is any. -/
def leftOver (front rest : String) : List Diagnostic :=
  if rest = "" then []
  else [.trailingInput rest ⟨front.utf8ByteSize, front.utf8ByteSize + rest.utf8ByteSize⟩]

theorem allFindings_eq {yield : Yield} {front : List Char}
    (position : yield.place.position = Text.byteLength front) :
    yield.allFindings =
      yield.findings ++ leftOver (String.ofList front) (String.ofList yield.place.rest) := by
  unfold Yield.allFindings leftOver
  split
  · next nothing => simp [nothing]
  · next nonempty =>
    rw [if_neg (by simpa using nonempty), position, Text.byteLength_eq, Text.byteLength_eq]

/-- A formula is read to its end exactly when its cost is within the limits. -/
theorem isFatal_parse_eq_false_iff {formula : String} {yield : Yield}
    (reads : ReadsAll (Text.normalChars formula.toList) yield) (limits : Limits) :
    (parse formula limits).isFatal = false ↔ yield.Within limits.depth limits.nodes := by
  have beyond := isFatal_readAll_iff reads limits
  rw [← Array.any_toList] at beyond
  rw [parse_eq, Parsed.isFatal, ← Bool.not_eq_true, beyond, Yield.Within]
  omega

/-- Whether a formula that was read as `parsed` stops before `rest`: this is left over behind
`front` and found last, if it is not empty, and `front` alone is read the same under the same
limits. -/
structure StopsBefore (parsed : Parsed) (limits : Limits) (front rest : String)
    (earlier : List Diagnostic) : Prop where
  normalized : parsed.normalized = front ++ rest
  diagnostics : parsed.diagnostics = earlier ++ leftOver front rest
  onlyLast : ∀ finding ∈ earlier, finding.kind ≠ .trailingInput
  alone : parse front limits =
    { expr := parsed.expr
      diagnostics := earlier.map (.endedAt front.utf8ByteSize)
      normalized := front }
  notFatal : (parse front limits).isFatal = false

/-- **Text that is left over never changes the value.** A formula that is not abandoned stops before
the text that is left over. This is found at most once and last. The text in front of it, which ends
where the span of that finding starts, has the same expression and the same findings by itself, but
a character that was unexpected there is now the end of the text. -/
theorem parse_stopsBefore (formula : String) (limits : Limits)
    (notFatal : (parse formula limits).isFatal = false) :
    ∃ front rest earlier, StopsBefore (parse formula limits) limits front rest earlier := by
  obtain ⟨yield, reads⟩ := exists_readsAll (Text.normalChars formula.toList)
  obtain ⟨front, split, position, short⟩ := reads.exists_cut
  have within := (isFatal_parse_eq_false_iff reads limits).mp notFatal
  have whole : parse formula limits = ⟨yield.expr, yield.allFindings,
      String.ofList (Text.normalChars formula.toList)⟩ := by
    rw [parse_eq, readAll_of_within reads limits within]
  have normal : Text.normalChars (String.ofList front).toList = front := by
    have sublist : front.Sublist (Text.normalChars formula.toList) := by
      rw [split]
      exact List.sublist_append_left front yield.place.rest
    rw [String.toList_ofList]
    exact Text.normalChars_of_sublist sublist
  have alone : ReadsAll (Text.normalChars (String.ofList front).toList)
      (yield.endedAt (Text.byteLength front) ⟨[], Text.byteLength front⟩) := by
    rwa [normal]
  refine ⟨String.ofList front, String.ofList yield.place.rest, yield.findings, ?_⟩
  rw [whole]
  refine ⟨?_, allFindings_eq position, ?_, ?_, ?_⟩
  · rw [split, String.ofList_append]
  · intro finding member same
    have ofPart := reads.isOfPart finding member
    rw [isOfPart, same] at ofPart
    cases ofPart
  · rw [parse_eq, readAll_of_within alone limits within, normal, ← Text.byteLength_eq]
    rfl
  · exact (isFatal_parse_eq_false_iff alone limits).mpr within

/-- A group ends in front of a character that no operand starts with. -/
theorem parse_stopsBefore_accents :
    (parse "2 * (1 + É É").isFatal = false ∧
      (parse "2 * (1 + É É").diagnostics =
        [.unexpectedToken (some 'é') ⟨5, 7⟩, .unclosedParen (.single 5),
          .trailingInput "éé" ⟨5, 9⟩] ∧
      ∃ front rest earlier, StopsBefore (parse "2 * (1 + É É") {} front rest earlier := by
  have notFatal : (parse "2 * (1 + É É").isFatal = false := by
    decide +kernel
  exact ⟨notFatal, by decide +kernel, parse_stopsBefore "2 * (1 + É É" {} notFatal⟩

end Formula

end Waveform
