import Waveform.Proofs.Expr.Chain
import Waveform.Proofs.Formula.Reading

/-!
# Limits only cut readings off

A reading under limits goes through exactly when the reading without limits costs no
more than they allow, and then it is that reading (`CutOff`). Otherwise it is abandoned,
with a fatal finding. Each step of the reader has one lemma that carries this from the
parts of the step to the whole, and one induction over the reading without limits puts
them together (`Reads.cutOff`).

Nodes are charged before anything else is looked at, and levels are taken before what
is inside is read. So the costs of a reading are those of the parts that it comes past,
and neither what is dropped nor what is noted changes them.
-/

set_option autoImplicit false

namespace Waveform.Formula

/-! ## Cursors and places -/

namespace Cursor

/-- Where a cursor stands. -/
def place (cursor : Cursor) : Place :=
  ⟨cursor.rest, cursor.position⟩

/-- The cursor at another place. -/
def moved (cursor : Cursor) (place : Place) : Cursor :=
  { cursor with rest := place.rest, position := place.position }

/-- The cursor behind a reading that went through. -/
def after (cursor : Cursor) (yield : Yield) : Cursor where
  rest := yield.place.rest
  position := yield.place.position
  spare := cursor.spare - yield.charge
  findings := cursor.findings ++ yield.findings

@[simp]
theorem place_after (cursor : Cursor) (yield : Yield) : (cursor.after yield).place = yield.place :=
  rfl

@[simp]
theorem place_moved (cursor : Cursor) (place : Place) : (cursor.moved place).place = place := rfl

theorem after_after (cursor : Cursor) (first second : Yield) :
    (cursor.after first).after second = cursor.after (second.after first) := by
  have findings : cursor.findings ++ first.findings ++ second.findings =
      cursor.findings ++ (first.findings ++ second.findings) :=
    Array.toList_inj.mp (by simp)
  simp only [after, Yield.after, Nat.sub_sub, findings]

theorem after_stop (cursor : Cursor) (expr : Expr) (place : Place) :
    cursor.after (.stop expr place) = cursor.moved place := by
  simp [after, Yield.stop, moved]

theorem moved_place (cursor : Cursor) : cursor.moved cursor.place = cursor := rfl

theorem after_noted (cursor : Cursor) (yield : Yield) (finding : Diagnostic) :
    cursor.after (yield.noted finding) = (cursor.after yield).note finding := by
  have findings : cursor.findings ++ (yield.findings ++ [finding]) =
      (cursor.findings ++ yield.findings).push finding :=
    Array.toList_inj.mp (by simp)
  simp only [after, Yield.noted, note, findings]

theorem skip_eq_moved {cursor : Cursor} {c : Char} (starts : cursor.place.rest.head? = some c) :
    cursor.skip = cursor.moved (cursor.place.behind [c]) := by
  obtain ⟨rest, spelled⟩ := List.head?_eq_some_iff.mp starts
  have spelled : cursor.rest = c :: rest := spelled
  simp [skip, moved, place, Place.behind, spelled]

theorem after_closed (cursor : Cursor) (yield : Yield) :
    cursor.after yield.closed = (cursor.after yield).close := by
  unfold close Yield.closed
  split
  · next rest spelled =>
    have spelled : (cursor.after yield).place.rest = ')' :: rest := spelled
    have starts : (cursor.after yield).place.rest.head? = some ')' := by rw [spelled]; rfl
    rw [place_after] at spelled
    rw [skip_eq_moved starts]
    split
    · rfl
    · next other => exact absurd spelled (other _)
  · next other =>
    split
    · next rest spelled => exact absurd spelled (other _)
    · exact after_noted cursor yield _

theorem takeWhile_eq (cursor : Cursor) (keep : Char → Bool) :
    cursor.takeWhile keep =
      (cursor.place.span keep, cursor.moved (cursor.place.behind (cursor.place.span keep))) := by
  simp only [takeWhile, moved, Place.behind_span_rest]
  rfl

/-- Without a node to spare the reading is abandoned. -/
theorem charge_of_spare_eq_zero {limits : Limits} {cursor : Cursor} (none : cursor.spare = 0) :
    cursor.charge limits = .error (cursor.findings.push (.maxNodesExceeded limits.nodes)) := by
  simp [charge, none]

theorem charge_of_spare_eq_succ {limits : Limits} {cursor : Cursor} {spare : Nat}
    (some : cursor.spare = spare + 1) : cursor.charge limits = .ok { cursor with spare } := by
  simp [charge, some]

end Cursor

/-! ## What limits do to a reading -/

/-- Whether a reading costs no more than the levels and nodes that are left. -/
def Yield.Within (yield : Yield) (levels spare : Nat) : Prop :=
  yield.nesting ≤ levels ∧ yield.charge ≤ spare

/-- Whether a reading was abandoned, with a fatal finding. -/
def Abandoned {α : Type} (outcome : Outcome α) : Prop :=
  ∃ findings, outcome = .error findings ∧ ∃ finding ∈ findings, finding.isFatal = true

theorem Abandoned.push {α : Type} (findings : Array Diagnostic) {finding : Diagnostic}
    (fatal : finding.isFatal = true) :
    Abandoned (.error (findings.push finding) : Outcome α) :=
  ⟨_, rfl, finding, by simp, fatal⟩

theorem Abandoned.bind {α β : Type} {outcome : Outcome α} (abandoned : Abandoned outcome)
    (next : α → Outcome β) : Abandoned (outcome >>= next) := by
  obtain ⟨findings, rfl, fatal⟩ := abandoned
  exact ⟨findings, rfl, fatal⟩

/-- An outcome is that of a reading, unless its cost is more than what is left; then the
reading was abandoned. -/
structure CutOff (levels : Nat) (cursor : Cursor) (yield : Yield)
    (outcome : Outcome (Expr × Cursor)) : Prop where
  completes : yield.Within levels cursor.spare → outcome = .ok (yield.expr, cursor.after yield)
  abandons : ¬ yield.Within levels cursor.spare → Abandoned outcome

namespace CutOff

variable {limits : Limits} {levels : Nat} {cursor : Cursor} {yield : Yield}
  {outcome : Outcome (Expr × Cursor)}

/-- A reading that costs nothing is not cut off. -/
theorem of_free (charge : yield.charge = 0) (nesting : yield.nesting = 0)
    (completes : outcome = .ok (yield.expr, cursor.after yield)) :
    CutOff levels cursor yield outcome where
  completes _ := completes
  abandons beyond := absurd (And.intro (by omega) (by omega)) beyond

/-- Two readings in a row. -/
theorem bind {first second : Yield} {next : Expr × Cursor → Outcome (Expr × Cursor)}
    (head : CutOff levels cursor first outcome)
    (tail : CutOff levels (cursor.after first) second (next (first.expr, cursor.after first))) :
    CutOff levels cursor (second.after first) (outcome >>= next) where
  completes within := by
    obtain ⟨nesting, charge⟩ := within
    simp only [Yield.after] at nesting charge
    have firstWithin : first.Within levels cursor.spare := ⟨by omega, by omega⟩
    have secondWithin : second.Within levels (cursor.after first).spare := by
      refine ⟨by omega, ?_⟩
      simp only [Cursor.after]
      omega
    rw [head.completes firstWithin]
    have step := tail.completes secondWithin
    rwa [Cursor.after_after] at step
  abandons beyond := by
    by_cases firstWithin : first.Within levels cursor.spare
    · rw [head.completes firstWithin]
      refine tail.abandons fun secondWithin => beyond ?_
      obtain ⟨nesting, charge⟩ := firstWithin
      obtain ⟨nesting', charge'⟩ := secondWithin
      simp only [Cursor.after] at charge'
      exact ⟨by simp only [Yield.after]; omega, by simp only [Yield.after]; omega⟩
    · exact (head.abandons firstWithin).bind next

/-- Another expression is made of what was read. -/
theorem map (build : Expr → Expr) (inner : CutOff levels cursor yield outcome) :
    CutOff levels cursor (yield.map build)
      (outcome >>= fun result => .ok (build result.1, result.2)) where
  completes within := by
    rw [inner.completes within]
    rfl
  abandons beyond := (inner.abandons beyond).bind _

/-- The closing parenthesis is read, or missed. -/
theorem closed (inner : CutOff levels cursor yield outcome) :
    CutOff levels cursor yield.closed
      (outcome >>= fun result => .ok (result.1, result.2.close)) where
  completes within := by
    rw [Yield.Within, yield.closed_charge, yield.closed_nesting] at within
    rw [inner.completes within, Cursor.after_closed, Yield.closed_expr]
    rfl
  abandons beyond := by
    rw [Yield.Within, yield.closed_charge, yield.closed_nesting] at beyond
    exact (inner.abandons beyond).bind _

/-- A node is charged first. -/
theorem charged {next : Cursor → Outcome (Expr × Cursor)}
    (rest : ∀ spare, cursor.spare = spare + 1 →
      CutOff levels { cursor with spare } yield (next { cursor with spare })) :
    CutOff levels cursor yield.charged (cursor.charge limits >>= next) := by
  cases left : cursor.spare with
  | zero =>
    refine ⟨?_, ?_⟩
    · intro within
      obtain ⟨_, charge⟩ := within
      simp only [Yield.charged] at charge
      omega
    · intro _
      rw [Cursor.charge_of_spare_eq_zero left]
      exact (Abandoned.push _ rfl).bind next
  | succ spare =>
    have step := rest spare left
    rw [Cursor.charge_of_spare_eq_succ left]
    refine ⟨?_, ?_⟩
    · intro within
      obtain ⟨nesting, charge⟩ := within
      simp only [Yield.charged] at nesting charge
      refine (step.completes ⟨nesting, by show yield.charge ≤ spare; omega⟩).trans ?_
      have fewer : spare - yield.charge = cursor.spare - (yield.charge + 1) := by omega
      simp only [Cursor.after, Yield.charged, fewer]
    · intro beyond
      refine step.abandons fun within => beyond ?_
      obtain ⟨nesting, charge⟩ := within
      have charge : yield.charge ≤ spare := charge
      exact ⟨nesting, by simp only [Yield.charged]; omega⟩

end CutOff

/-- What reads operands one level deeper, if a level is left. -/
def deeper? (limits : Limits) : Nat → Option Reader
  | 0 => none
  | levels + 1 => some (operand limits levels)

theorem operand_eq (limits : Limits) (levels : Nat) (cursor : Cursor) :
    operand limits levels cursor = operandWith limits (deeper? limits levels) cursor := by
  cases levels <;> rfl

/-- A level is taken first: without one the reading is abandoned. -/
theorem CutOff.deeper {levels : Nat} {cursor : Cursor} {yield : Yield}
    {outcome : Outcome (Expr × Cursor)} (none : levels = 0 → Abandoned outcome)
    (some : ∀ fewer, levels = fewer + 1 → CutOff fewer cursor yield outcome) :
    CutOff levels cursor yield.deeper outcome := by
  cases levels with
  | zero =>
    refine ⟨?_, fun _ => none rfl⟩
    intro within
    obtain ⟨nesting, _⟩ := within
    simp only [Yield.deeper] at nesting
    omega
  | succ fewer =>
    have step := some fewer rfl
    refine ⟨?_, ?_⟩
    · intro within
      obtain ⟨nesting, charge⟩ := within
      simp only [Yield.deeper] at nesting
      exact step.completes ⟨by omega, charge⟩
    · intro beyond
      refine step.abandons fun within => beyond ?_
      obtain ⟨nesting, charge⟩ := within
      exact ⟨by simp only [Yield.deeper]; omega, charge⟩

/-- Where the cursor stands does not matter to what is behind the reading. -/
theorem CutOff.of_moved {levels : Nat} {cursor : Cursor} {place : Place} {yield : Yield}
    {outcome : Outcome (Expr × Cursor)}
    (cutOff : CutOff levels (cursor.moved place) yield outcome) :
    CutOff levels cursor yield outcome :=
  ⟨cutOff.completes, cutOff.abandons⟩

/-! ## The steps of the reader -/

section Steps

variable {limits : Limits} {levels : Nat} {cursor : Cursor}

/-- A sign and the operand behind it. -/
theorem cutOff_readNegation {operand : Yield} (starts : cursor.place.rest.head? = some '-')
    (inner : ∀ fewer, levels = fewer + 1 →
      CutOff fewer cursor operand
        (Formula.operand limits fewer (cursor.moved (cursor.place.behind ['-'])))) :
    CutOff levels cursor (operand.map .neg).deeper
      (readNegation limits (deeper? limits levels) cursor) := by
  refine CutOff.deeper ?_ ?_
  · intro none
    subst none
    exact Abandoned.push _ rfl
  · intro fewer left
    have mapped := (inner fewer left).map .neg
    subst left
    rw [← Cursor.skip_eq_moved starts] at mapped
    exact mapped

/-- A sum in parentheses, from the cursor in front of the opening one. -/
theorem cutOff_readGroup {sum : Yield} {read : Reader}
    (starts : cursor.place.rest.head? = some '(')
    (inner : CutOff levels cursor sum
      (readSum limits read (cursor.moved (cursor.place.behind ['('])))) :
    CutOff levels cursor sum.closed (readGroup limits read cursor) := by
  unfold readGroup
  rw [Cursor.skip_eq_moved starts]
  exact inner.closed

/-- What a name stands for, from the cursor in front of it. -/
theorem readName_letter {name : Char} {deeper : Option Reader} (known : name = 'f' ∨ name = 't')
    (spelled : cursor.place.span Char.isLower = [name]) :
    readName limits deeper cursor =
      .ok (.variable name, cursor.moved (cursor.place.behind [name])) := by
  unfold readName
  simp only [Cursor.takeWhile_eq, spelled]
  rcases known with rfl | rfl <;> rfl

theorem readName_pi {deeper : Option Reader}
    (spelled : cursor.place.span Char.isLower = ['p', 'i']) :
    readName limits deeper cursor =
      .ok (.number Kernel.pi, cursor.moved (cursor.place.behind ['p', 'i'])) := by
  unfold readName
  simp only [Cursor.takeWhile_eq, spelled]

section Names

variable {name : List Char} (spelled : cursor.place.span Char.isLower = name)
  (other : name ≠ ['f'] ∧ name ≠ ['t'] ∧ name ≠ ['p', 'i'])
include spelled other

theorem readName_bare {deeper : Option Reader}
    (noArgument : (cursor.place.behind name).rest.head? ≠ some '(') :
    readName limits deeper cursor =
      .ok (.zero, (cursor.moved (cursor.place.behind name)).note
        (if (Builtin.named? (String.ofList name)).isSome then
            .missingArgument (String.ofList name) (cursor.place.extent name)
          else .unknownIdentifier (String.ofList name) (cursor.place.extent name))) := by
  unfold readName
  simp only [Cursor.takeWhile_eq, spelled]
  split
  · exact absurd rfl other.1
  · exact absurd rfl other.2.1
  · exact absurd rfl other.2.2
  · split
    · next starts => exact absurd starts noArgument
    · next named _ => simp only [named]; rfl
    · next named _ => simp only [named]; rfl

/-- A name in front of a parenthesis goes one level deeper, whether it is a function's or
not. -/
theorem readName_argument {deeper : Option Reader}
    (starts : (cursor.place.behind name).rest.head? = some '(') :
    readName limits deeper cursor =
      match deeper with
      | none => .error (cursor.tooDeep limits)
      | some read =>
        match Builtin.named? (String.ofList name),
          readGroup limits read (cursor.moved (cursor.place.behind name)) with
        | some function, .ok (argument, behind) => .ok (.call function argument, behind)
        | some _, .error findings => .error findings
        | none, .ok (_, behind) =>
          .ok (.zero,
            behind.note (.unknownIdentifier (String.ofList name) (cursor.place.extent name)))
        | none, .error findings =>
          .error (findings.push
            (.unknownIdentifier (String.ofList name) (cursor.place.extent name))) := by
  have behind : (cursor.moved (cursor.place.behind name)).rest.head? = some '(' := starts
  unfold readName
  simp only [Cursor.takeWhile_eq, spelled]
  split
  · exact absurd rfl other.1
  · exact absurd rfl other.2.1
  · exact absurd rfl other.2.2
  · simp only [behind]
    rfl

variable (starts : (cursor.place.behind name).rest.head? = some '(')
  {sum : Yield} (inner : ∀ fewer, levels = fewer + 1 →
    CutOff fewer cursor sum (readSum limits (operand limits fewer)
      (cursor.moved ((cursor.place.behind name).behind ['(']))))
include starts

/-- Without a level a name in front of a parenthesis is abandoned. -/
theorem readName_argument_of_shallow : Abandoned (readName limits (deeper? limits 0) cursor) := by
  rw [readName_argument spelled other starts]
  exact Abandoned.push _ rfl

include inner

omit spelled other in
/-- An argument, from the cursor in front of the name. -/
theorem cutOff_argument {fewer : Nat} (left : levels = fewer + 1) :
    CutOff fewer cursor sum.closed
      (readGroup limits (operand limits fewer) (cursor.moved (cursor.place.behind name))) := by
  have sum := inner fewer left
  have group : CutOff fewer (cursor.moved (cursor.place.behind name)) _ _ :=
    cutOff_readGroup starts ⟨sum.completes, sum.abandons⟩
  exact group.of_moved

/-- A call, from the cursor in front of its name. -/
theorem cutOff_readName_call {function : Builtin}
    (named : Builtin.named? (String.ofList name) = some function) :
    CutOff levels cursor (sum.closed.map (.call function)).deeper
      (readName limits (deeper? limits levels) cursor) := by
  refine CutOff.deeper ?_ ?_
  · intro none
    subst none
    exact readName_argument_of_shallow spelled other starts
  · intro fewer left
    have argument := cutOff_argument starts inner left
    have mapped := argument.map (.call function)
    subst left
    rw [readName_argument spelled other starts, named]
    simp only [deeper?]
    cases outcome : readGroup limits (operand limits fewer)
        (cursor.moved (cursor.place.behind name)) with
    | ok result => rw [outcome] at mapped; exact mapped
    | error findings => rw [outcome] at mapped; exact mapped

/-- A name that means nothing and its argument, from the cursor in front of the name. The
finding is left also when the argument was abandoned. -/
theorem cutOff_readName_unknown (unnamed : Builtin.named? (String.ofList name) = none) :
    CutOff levels cursor
      ((sum.closed.map fun _ => .zero).noted
        (.unknownIdentifier (String.ofList name) (cursor.place.extent name))).deeper
      (readName limits (deeper? limits levels) cursor) := by
  refine CutOff.deeper ?_ ?_
  · intro none
    subst none
    exact readName_argument_of_shallow spelled other starts
  · intro fewer left
    have argument := cutOff_argument starts inner left
    subst left
    rw [readName_argument spelled other starts, unnamed]
    simp only [deeper?]
    refine ⟨?_, ?_⟩
    · intro within
      rw [argument.completes within]
      simp only [Cursor.after_noted]
      rfl
    · intro beyond
      obtain ⟨findings, outcome, finding, member, fatal⟩ := argument.abandons beyond
      rw [outcome]
      exact ⟨_, rfl, finding, by simp [member], fatal⟩

end Names

/-! ### Operands -/

theorem readPrimary_of_lower {deeper : Option Reader} {c : Char}
    (starts : cursor.place.rest.head? = some c) (lower : c.isLower = true) :
    readPrimary limits deeper cursor = readName limits deeper cursor := by
  obtain ⟨rest, spelled⟩ := List.head?_eq_some_iff.mp starts
  have spelled : cursor.rest = c :: rest := spelled
  unfold readPrimary
  simp only [spelled, ne_open_of_isLower lower, isNumeric_of_isLower lower, lower, if_true,
    if_false, Bool.false_eq_true]

theorem readPrimary_of_open {deeper : Option Reader}
    (starts : cursor.place.rest.head? = some '(') :
    readPrimary limits deeper cursor =
      match deeper with
      | none => .error (cursor.tooDeep limits)
      | some read => readGroup limits read cursor := by
  obtain ⟨rest, spelled⟩ := List.head?_eq_some_iff.mp starts
  have spelled : cursor.rest = '(' :: rest := spelled
  unfold readPrimary
  rw [spelled]
  exact if_pos rfl

theorem readPrimary_of_numeric {deeper : Option Reader} {c : Char}
    (starts : cursor.place.rest.head? = some c) (numeric : isNumeric c = true) :
    readPrimary limits deeper cursor = .ok (readNumber cursor) := by
  obtain ⟨rest, spelled⟩ := List.head?_eq_some_iff.mp starts
  have spelled : cursor.rest = c :: rest := spelled
  have notOpen : c ≠ '(' := by rintro rfl; cases numeric
  unfold readPrimary
  simp only [spelled, notOpen, numeric, if_true, if_false]

/-- An operand with nothing inside is read as such under all limits. -/
theorem readPrimary_of_leaf {deeper : Option Reader} {yield : Yield}
    (leaf : Leaf cursor.place yield) :
    readPrimary limits deeper cursor =
      .ok (yield.expr, cursor.after { yield with charge := 0 }) := by
  obtain ⟨place, hplace⟩ : ∃ place, cursor.place = place := ⟨_, rfl⟩
  rw [hplace] at leaf
  cases leaf with
  | @none position =>
    have spelled : cursor.rest = [] := congrArg Place.rest hplace
    have located : cursor.position = position := congrArg Place.position hplace
    change _ = Except.ok (Expr.zero, cursor.after ((Yield.stop .zero ⟨[], position⟩).noted _))
    rw [Cursor.after_noted, Cursor.after_stop, ← hplace, Cursor.moved_place]
    simp only [readPrimary, spelled, located]
  | @unexpected c rest position notMinus notOpen notNumeric notLower =>
    have spelled : cursor.rest = c :: rest := congrArg Place.rest hplace
    have located : cursor.position = position := congrArg Place.position hplace
    change _ =
      Except.ok (Expr.zero, cursor.after ((Yield.stop .zero ⟨c :: rest, position⟩).noted _))
    rw [Cursor.after_noted, Cursor.after_stop, ← hplace, Cursor.moved_place]
    simp only [readPrimary, spelled, located, notOpen, notNumeric, notLower, if_false,
      Bool.false_eq_true]
  | number nonempty isNumber =>
    subst hplace
    obtain ⟨c, taken, spelled⟩ := List.exists_cons_of_ne_nil nonempty
    obtain ⟨starts, numeric⟩ := Place.head?_of_span spelled
    rw [readPrimary_of_numeric starts numeric]
    simp only [readNumber, Cursor.takeWhile_eq, isNumber, if_true]
    exact congrArg (fun behind => Except.ok (_, behind)) (Cursor.after_stop _ .zero _).symm
  | invalid nonempty isNoNumber =>
    subst hplace
    obtain ⟨c, taken, spelled⟩ := List.exists_cons_of_ne_nil nonempty
    obtain ⟨starts, numeric⟩ := Place.head?_of_span spelled
    rw [readPrimary_of_numeric starts numeric]
    simp only [readNumber, Cursor.takeWhile_eq, isNoNumber, if_false, Bool.false_eq_true]
    change _ = Except.ok (_, cursor.after ((Yield.stop .zero _).noted _))
    rw [Cursor.after_noted, Cursor.after_stop]
    rfl
  | letter known spelled =>
    subst hplace
    obtain ⟨starts, lower⟩ := Place.head?_of_span spelled
    rw [readPrimary_of_lower starts lower, readName_letter known spelled,
      ← Cursor.after_stop _ .zero]
    rfl
  | pi spelled =>
    subst hplace
    obtain ⟨starts, lower⟩ := Place.head?_of_span spelled
    rw [readPrimary_of_lower starts lower, readName_pi spelled, ← Cursor.after_stop _ .zero]
    rfl
  | bare nonempty spelled other noArgument =>
    subst hplace
    obtain ⟨c, taken, rfl⟩ := List.exists_cons_of_ne_nil nonempty
    obtain ⟨starts, lower⟩ := Place.head?_of_span spelled
    rw [readPrimary_of_lower starts lower, readName_bare spelled other noArgument,
      ← Cursor.after_stop _ .zero, ← Cursor.after_noted]
    rfl

/-- An operand without a sign is charged, and then read as a primary. -/
theorem cutOff_operand_of_plain {yield : Yield} (plain : cursor.place.rest.head? ≠ some '-')
    (primary : ∀ start : Cursor, start.place = cursor.place →
      CutOff levels start yield (readPrimary limits (deeper? limits levels) start)) :
    CutOff levels cursor yield.charged (operand limits levels cursor) := by
  have plain : cursor.rest.head? ≠ some '-' := plain
  rw [operand_eq]
  unfold operandWith
  simp only [plain, if_false]
  exact CutOff.charged fun spare _ => primary { cursor with spare } rfl

/-- An operand that starts with a name is charged, and then the name is read. -/
theorem cutOff_operand_of_name {name : List Char} {yield : Yield} (nonempty : name ≠ [])
    (spelled : cursor.place.span Char.isLower = name)
    (read : ∀ start : Cursor, start.place = cursor.place →
      CutOff levels start yield (readName limits (deeper? limits levels) start)) :
    CutOff levels cursor yield.charged (operand limits levels cursor) := by
  obtain ⟨c, taken, rfl⟩ := List.exists_cons_of_ne_nil nonempty
  obtain ⟨starts, lower⟩ := Place.head?_of_span spelled
  have plain : cursor.place.rest.head? ≠ some '-' := by
    rw [starts]
    rintro ⟨⟩
    cases lower
  refine cutOff_operand_of_plain plain ?_
  intro start same
  rw [← same] at starts
  rw [readPrimary_of_lower starts lower]
  exact read start same

theorem cutOff_operand_of_leaf {yield : Yield} (leaf : Leaf cursor.place yield) :
    CutOff levels cursor yield (operand limits levels cursor) := by
  obtain ⟨charge, nesting⟩ := leaf.cost
  have free : ({ yield with charge := 0 } : Yield).charged = yield := by
    cases yield
    cases charge
    rfl
  rw [← free]
  refine cutOff_operand_of_plain leaf.head?_ne_minus fun start same => ?_
  rw [← same] at leaf
  have completes : readPrimary limits (deeper? limits levels) start = _ := readPrimary_of_leaf leaf
  exact CutOff.of_free rfl nesting completes

/-- An operand with a sign is charged, and the operand behind the sign is read. -/
theorem cutOff_operand_of_minus {yield : Yield} (starts : cursor.place.rest.head? = some '-')
    (inner : ∀ (fewer : Nat) (start : Cursor), start.place = cursor.place.behind ['-'] →
      CutOff fewer start yield (operand limits fewer start)) :
    CutOff levels cursor (yield.inside .neg) (operand limits levels cursor) := by
  have minus : cursor.rest.head? = some '-' := starts
  rw [operand_eq]
  unfold operandWith
  simp only [minus, if_true]
  refine CutOff.charged ?_
  intro spare _
  have charged : ({ cursor with spare } : Cursor).place.rest.head? = some '-' := starts
  exact cutOff_readNegation charged fun fewer _ => (inner fewer _ rfl).of_moved

end Steps

/-! ## Chains -/

/-- What reads the operands of a level. -/
def Level.reader (limits : Limits) (levels : Nat) : Level → Reader
  | .additive => readProduct limits (operand limits levels)
  | .multiplicative => operand limits levels

/-- Reads the links behind an expression, and gives the chain of both. -/
def readFrom (limits : Limits) (level : Level) (read : Reader) (sofar : Expr) (budget : Nat) :
    Reader :=
  fun cursor => do
    let (links, behind) ← readLinks limits level.operator? read budget cursor
    return (Expr.chain sofar links, behind)

section Links

variable {limits : Limits} {level : Level} {read : Reader} {sofar : Expr} {budget : Nat}
  {cursor : Cursor}

theorem readFrom_of_stop (ends : cursor.place.rest.head?.bind level.operator? = none) :
    readFrom limits level read sofar budget cursor = .ok (sofar, cursor) := by
  have ends : cursor.rest.head?.bind level.operator? = none := ends
  unfold readFrom readLinks
  simp only [ends]
  rfl

/-- Links that were read are of the level. -/
theorem strength?_of_readLinks {links : List (BinaryOp × Expr)} {behind : Cursor}
    (reads : readLinks limits level.operator? read budget cursor = .ok (links, behind)) :
    Expr.strength? links = none ∨ Expr.strength? links = some level.precedence := by
  unfold readLinks at reads
  split at reads
  · cases reads
    exact .inl rfl
  · next op found =>
    obtain ⟨c, _, spelled⟩ := Option.bind_eq_some_iff.mp found
    obtain ⟨_, rfl⟩ := Level.operator?_eq_some_iff.mp spelled
    refine .inr ?_
    split at reads
    · cases reads
    · next budget =>
      cases charge : cursor.charge limits with
      | error findings => rw [charge] at reads; cases reads
      | ok charged =>
        cases first : read charged.skip with
        | error findings => simp only [charge, first, bind, Except.bind] at reads; cases reads
        | ok operand =>
          cases more : readLinks limits op.level.operator? read budget operand.2 with
          | error findings =>
            simp only [charge, first, more, bind, Except.bind] at reads
            cases reads
          | ok rest =>
            simp only [charge, first, more, bind, Except.bind, pure, Except.pure] at reads
            cases reads
            exact congrArg some (Level.precedence_level op).symm

variable {op : BinaryOp} (follows : cursor.place.rest.head? = some op.symbol)
  (fits : op.level = level)
include follows fits

theorem operator?_of_follows : cursor.rest.head?.bind level.operator? = some op := by
  rw [show cursor.rest.head? = some op.symbol from follows, ← fits]
  exact Level.operator?_symbol op

theorem readFrom_of_exhausted :
    readFrom limits level read sofar 0 cursor =
      .error (cursor.findings.push (.maxNodesExceeded limits.nodes)) := by
  unfold readFrom readLinks
  simp only [operator?_of_follows follows fits]
  rfl

/-- A link is charged and read, and the others are read behind the chain with it. -/
theorem readFrom_of_link :
    readFrom limits level read sofar (budget + 1) cursor =
      cursor.charge limits >>= fun charged => read charged.skip >>= fun operand =>
        readFrom limits level read (Expr.binary sofar op operand.1) budget operand.2 := by
  unfold readFrom
  rw [readLinks]
  simp only [operator?_of_follows follows fits]
  cases cursor.charge limits with
  | error findings => rfl
  | ok charged =>
    cases first : read charged.skip with
    | error findings => simp only [bind, Except.bind, first]
    | ok operand =>
      cases more : readLinks limits level.operator? read budget operand.2 with
      | error findings => simp only [bind, Except.bind, first, more]
      | ok rest =>
        have strength := strength?_of_readLinks more
        rw [← fits, Level.precedence_level] at strength
        simp only [bind, Except.bind, first, more, pure, Except.pure]
        rw [Expr.chain_binary sofar op operand.1 strength]

theorem cutOff_link {levels : Nat} {operand links : Yield} (enough : cursor.spare ≤ budget)
    (first : ∀ start : Cursor, start.place = cursor.place.behind [op.symbol] →
      CutOff levels start operand (read start))
    (more : ∀ (budget : Nat) (behind : Cursor), behind.place = operand.place →
      behind.spare ≤ budget → CutOff levels behind links
        (readFrom limits level read (Expr.binary sofar op operand.expr) budget behind)) :
    CutOff levels cursor (links.after operand.charged)
      (readFrom limits level read sofar budget cursor) := by
  have order : links.after operand.charged = (links.after operand).charged := by
    simp only [Yield.after, Yield.charged, Yield.mk.injEq, true_and, and_true]
    omega
  rw [order]
  cases budget with
  | zero =>
    refine ⟨?_, ?_⟩
    · intro within
      obtain ⟨_, charge⟩ := within
      simp only [Yield.charged] at charge
      omega
    · intro _
      rw [readFrom_of_exhausted follows fits]
      exact Abandoned.push _ rfl
  | succ budget =>
    rw [readFrom_of_link follows fits]
    refine CutOff.charged ?_
    intro spare left
    have charged : ({ cursor with spare } : Cursor).place.rest.head? = some op.symbol := follows
    rw [Cursor.skip_eq_moved charged]
    refine (first _ rfl).of_moved.bind (more budget _ rfl ?_)
    have few : spare - operand.charge ≤ budget := by omega
    exact few

end Links

/-! ## The simulation -/

/-- What reads a part. The budget bounds the links that are read at the place itself. -/
def Part.reader (limits : Limits) (levels budget : Nat) : Part → Reader
  | .operand => Formula.operand limits levels
  | .chain level => readChain limits level.operator? (level.reader limits levels)
  | .links level sofar => readFrom limits level (level.reader limits levels) sofar budget

theorem Level.reader_part (limits : Limits) (levels budget : Nat) (level : Level) :
    level.part.reader limits levels budget = level.reader limits levels := by
  cases level <;> rfl

/-- **Limits only cut readings off.** -/
theorem Reads.cutOff {part : Part} {place : Place} {yield : Yield}
    (reads : Reads part place yield) (limits : Limits) :
    ∀ (levels budget : Nat) (cursor : Cursor), cursor.place = place → cursor.spare ≤ budget →
      CutOff levels cursor yield (part.reader limits levels budget cursor) := by
  induction reads with
  | @chain level place head links _ _ first more =>
    intro levels budget cursor here enough
    have head' := first levels budget cursor here enough
    rw [Level.reader_part] at head'
    exact head'.bind (more levels _ (cursor.after head) rfl (Nat.le_refl _))
  | @stop level sofar place ends =>
    intro levels budget cursor here _
    subst here
    refine CutOff.of_free rfl rfl ?_
    rw [Cursor.after_stop, Cursor.moved_place]
    exact readFrom_of_stop ends
  | @link level sofar place op operand links follows fits _ _ first more =>
    intro levels budget cursor here enough
    subst here
    refine cutOff_link follows fits enough (fun start moved => ?_) fun budget behind there few =>
      more levels budget behind there few
    have operand' := first levels _ start moved (Nat.le_refl _)
    rwa [Level.reader_part] at operand'
  | minus starts _ inner =>
    intro levels budget cursor here _
    subst here
    exact cutOff_operand_of_minus starts fun fewer start moved =>
      inner fewer _ start moved (Nat.le_refl _)
  | @group place sum starts _ inner =>
    intro levels budget cursor here _
    subst here
    have plain : cursor.place.rest.head? ≠ some '-' := by
      rw [starts]
      decide
    refine cutOff_operand_of_plain plain ?_
    intro start same
    rw [← same] at starts inner
    refine CutOff.deeper ?_ ?_
    · intro none
      subst none
      rw [readPrimary_of_open starts]
      exact Abandoned.push _ rfl
    · intro fewer left
      subst left
      rw [readPrimary_of_open starts]
      exact cutOff_readGroup starts (inner fewer _ _ rfl (Nat.le_refl _)).of_moved
  | @call place function sum spelled starts _ inner =>
    intro levels budget cursor here _
    subst here
    refine cutOff_operand_of_name (name_ne_nil function) spelled ?_
    intro start same
    rw [← same] at spelled starts inner
    have named : Builtin.named? (String.ofList function.name.toList) = some function := by
      rw [String.ofList_toList]
      exact Builtin.named?_name function
    exact cutOff_readName_call spelled (name_ne function) starts
      (fun fewer _ => (inner fewer _ _ rfl (Nat.le_refl _)).of_moved) named
  | @unknown place name sum nonempty spelled other unnamed starts _ inner =>
    intro levels budget cursor here _
    subst here
    refine cutOff_operand_of_name nonempty spelled ?_
    intro start same
    rw [← same] at spelled starts inner ⊢
    exact cutOff_readName_unknown spelled other starts
      (fun fewer _ => (inner fewer _ _ rfl (Nat.le_refl _)).of_moved) unnamed
  | leaf leaf =>
    intro levels budget cursor here _
    subst here
    exact cutOff_operand_of_leaf leaf

/-! ## Formulas -/

/-- The reading of a whole formula, which starts at its first character. -/
def ReadsAll (text : List Char) (yield : Yield) : Prop :=
  Reads (.chain .additive) ⟨text, 0⟩ yield

/-- The findings about a whole formula, text that is left behind the sum included. -/
def Yield.allFindings (yield : Yield) : List Diagnostic :=
  match yield.place.rest with
  | [] => yield.findings
  | rest =>
    yield.findings ++ [.trailingInput (String.ofList rest)
      ⟨yield.place.position, yield.place.position + Text.byteLength rest⟩]

theorem exists_readsAll (text : List Char) : ∃ yield, ReadsAll text yield :=
  Reads.exists_yield _ _

section All

variable {text : List Char} {yield : Yield} (reads : ReadsAll text yield) (limits : Limits)
include reads

omit reads in
theorem finish_after (cursor : Cursor) (empty : cursor.findings = #[]) :
    (cursor.after yield).finish.findings.toList = yield.allFindings := by
  obtain ⟨expr, findings, charge, nesting, ⟨rest, position⟩⟩ := yield
  cases rest with
  | nil => simp [Cursor.finish, Cursor.after, Yield.allFindings, empty]
  | cons c rest => simp [Cursor.finish, Cursor.after, Cursor.note, Yield.allFindings, empty]

/-- Within the limits a formula is read as it is without. -/
theorem readAll_of_within (within : yield.Within limits.depth limits.nodes) :
    readAll limits text = (yield.expr, yield.allFindings.toArray) := by
  have cutOff := reads.cutOff limits limits.depth _ (.start limits text) rfl (Nat.le_refl _)
  have outcome : readSum limits (operand limits limits.depth) (.start limits text) =
      .ok (yield.expr, (Cursor.start limits text).after yield) := cutOff.completes within
  unfold readAll
  rw [outcome]
  refine Prod.ext rfl (Array.toList_inj.mp ?_)
  exact finish_after (.start limits text) rfl

/-- Beyond the limits the reading of a formula is abandoned. -/
theorem readAll_of_beyond (beyond : ¬ yield.Within limits.depth limits.nodes) :
    (readAll limits text).2.any Diagnostic.isFatal = true := by
  have cutOff := reads.cutOff limits limits.depth _ (.start limits text) rfl (Nat.le_refl _)
  obtain ⟨findings, outcome, finding, member, fatal⟩ := cutOff.abandons beyond
  have outcome : readSum limits (operand limits limits.depth) (.start limits text) =
      .error findings := outcome
  unfold readAll
  rw [outcome]
  obtain ⟨index, bound, same⟩ := Array.mem_iff_getElem.mp member
  exact Array.any_eq_true.mpr ⟨index, bound, by rw [same, fatal]⟩

/-- No finding about a formula is fatal within the limits. -/
theorem not_isFatal_of_mem_allFindings :
    ∀ finding ∈ yield.allFindings, finding.isFatal = false := by
  intro finding member
  unfold Yield.allFindings at member
  split at member
  · exact reads.not_isFatal finding member
  · rcases List.mem_append.mp member with inside | trailing
    · exact reads.not_isFatal finding inside
    · rw [List.mem_singleton.mp trailing]
      rfl

end All

/-- A formula is parsed as its normal form is read. -/
theorem parse_eq (text : String) (limits : Limits) :
    parse text limits =
      { expr := (readAll limits (Text.normalChars text.toList)).1
        diagnostics := (readAll limits (Text.normalChars text.toList)).2.toList
        normalized := String.ofList (Text.normalChars text.toList) } :=
  rfl

end Waveform.Formula
