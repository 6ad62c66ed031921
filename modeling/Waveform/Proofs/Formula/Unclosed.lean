import Waveform.Proofs.Formula.Acceptance
import Waveform.Proofs.Text.Bytes

/-!
# Missing closing parentheses

Where a formula ends before some of its groups and calls are closed, these are closed at its end.
So a formula that is understood may leave out the closing parentheses that it ends with: it is read
as the same expression under the same limits, and each of them leaves one finding, at the end of the
formula (`parse_of_unclosed`).

The parentheses that are left out belong to the operand that a phrase ends with, since what a chain
has before its last operand is followed by an operator. That is the case split of the induction over
phrases (`Phrase.readsUnclosed`): a chain passes the end on to its last operand, a group or call
closes itself there, and whatever ends with no parenthesis leaves none out.
-/

set_option autoImplicit false

namespace Waveform.Formula

/-- Closing parentheses in a row. -/
def closers (count : Nat) : List Char :=
  List.replicate count ')'

/-- The findings that closing parentheses are missing at a place. -/
def unclosed (count place : Nat) : List Diagnostic :=
  List.replicate count (.unclosedParen (.single place))

theorem closers_succ (count : Nat) : closers (count + 1) = closers count ++ [')'] :=
  List.replicate_succ'

theorem unclosed_succ (count place : Nat) :
    unclosed (count + 1) place = unclosed count place ++ [.unclosedParen (.single place)] :=
  List.replicate_succ'

theorem ne_closers_cons {c : Char} {count : Nat} (notClose : c ≠ ')') (front back : List Char) :
    closers count ≠ front ++ c :: back := by
  intro same
  have member : c ∈ closers count := by
    rw [same]
    exact List.mem_append_right front List.mem_cons_self
  exact notClose (List.eq_of_mem_replicate member)

/-- Closing parentheses that a text ends with stand behind any other character of it. -/
theorem exists_of_append_closers {front back text : List Char} {c : Char} {count : Nat}
    (notClose : c ≠ ')') (same : front ++ c :: back = text ++ closers count) :
    ∃ rest, text = front ++ c :: rest ∧ back = rest ++ closers count := by
  rcases List.append_eq_append_iff.mp same with ⟨later, rfl, behind⟩ | ⟨later, _, behind⟩
  · cases later with
    | nil => exact absurd behind.symm (ne_closers_cons notClose [] back)
    | cons d rest =>
      obtain ⟨rfl, rfl⟩ := List.cons.inj behind
      exact ⟨rest, rfl, rfl⟩
  · exact absurd behind (ne_closers_cons notClose later back)

theorem exists_of_cons_closers {back text : List Char} {c : Char} {count : Nat} (notClose : c ≠ ')')
    (same : c :: back = text ++ closers count) :
    ∃ rest, text = c :: rest ∧ back = rest ++ closers count := by
  have whole : [] ++ c :: back = text ++ closers count := same
  exact exists_of_append_closers notClose whole

/-- A text without closing parentheses ends with none. -/
theorem eq_zero_of_append_closers {chars text : List Char} {count : Nat}
    (open? : ∀ c ∈ chars, c ≠ ')') (same : chars = text ++ closers count) : count = 0 := by
  cases count with
  | zero => rfl
  | succ count =>
    have member : ')' ∈ chars := by
      rw [same, closers_succ]
      simp
    exact absurd rfl (open? ')' member)

namespace Phrase

variable {category : Category}

/-- What a phrase is read as if the text ends before its last closing parentheses. -/
def unclosedYield (phrase : Phrase category) (missing stop : Nat) : Yield :=
  ⟨phrase.tree, unclosed missing stop, phrase.charge, phrase.nesting, ⟨[], stop⟩⟩

/-- Whether a phrase is read as itself from texts in which closing parentheses at its end are
missing. -/
def IsReadUnclosed (phrase : Phrase category) : Prop :=
  ∀ (text : List Char) (missing position : Nat), phrase.chars = text ++ closers missing →
    Reads category.part ⟨text, position⟩
      (phrase.unclosedYield missing (position + Text.byteLength text))

/-- A phrase of which nothing is missing is read as itself. -/
theorem reads_complete (phrase : Phrase category) (position : Nat) :
    Reads category.part ⟨phrase.chars, position⟩
      (phrase.unclosedYield 0 (position + Text.byteLength phrase.chars)) := by
  have reads := phrase.reads [] position (Category.ends_nil category)
  rwa [List.append_nil] at reads

/-- A phrase without closing parentheses has none that could be missing. -/
theorem isReadUnclosed_of_open {phrase : Phrase category}
    (isOpen : ∀ c ∈ phrase.chars, c ≠ ')') : phrase.IsReadUnclosed := by
  intro text missing position same
  obtain rfl := eq_zero_of_append_closers isOpen same
  obtain rfl : phrase.chars = text := same.trans (List.append_nil text)
  exact phrase.reads_complete position

/-- A chain of one operand ends where the operand does. -/
theorem isReadUnclosed_single {level : Level} {only : Phrase level.inside}
    (isRead : only.IsReadUnclosed) : (single only).IsReadUnclosed := by
  intro text missing position same
  have first := isRead text missing position same
  rw [Category.part_inside] at first
  have reads := Reads.chain first (.stop rfl)
  rwa [Yield.stop_after] at reads

/-- A chain ends where its last operand does. -/
theorem isReadUnclosed_link {level : Level} {before : Phrase (.chain level)} {op : BinaryOp}
    {last : Phrase level.inside} (fits : op.level = level) (continued : before.IsContinued)
    (isRead : last.IsReadUnclosed) : (link before op fits last).IsReadUnclosed := by
  intro text missing position same
  have notClose : op.symbol ≠ ')' := by cases op <;> decide
  obtain ⟨rest, rfl, behind⟩ := exists_of_append_closers notClose same
  have first := isRead rest missing
    (position + Text.byteLength before.chars + op.symbol.utf8Size) behind
  have reads := continued.reads_link fits first (.stop rfl)
  have stop : position + Text.byteLength before.chars + op.symbol.utf8Size + Text.byteLength rest =
      position + Text.byteLength (before.chars ++ op.symbol :: rest) := by
    simp only [Text.byteLength_append, Text.byteLength_cons]
    omega
  have whole (place : Place) (stop : Nat) :
      ((Yield.stop (Expr.binary before.tree op last.tree) ⟨[], stop⟩).after
        (last.unclosedYield missing stop).charged).after (before.yield place) =
          (link before op fits last).unclosedYield missing stop := by
    simp only [Yield.after, Yield.stop, Yield.charged, yield, unclosedYield, tree, charge, nesting,
      List.nil_append, List.append_nil, Nat.max_zero, Yield.mk.injEq, true_and, and_true]
    omega
  rw [← stop, ← whole]
  exact reads

/-- A sum in parentheses is read up to where the text ends, and closed there or by the parenthesis
that is not missing. -/
theorem exists_closed {inner : Phrase .sum} (isRead : inner.IsReadUnclosed) {text : List Char}
    {missing : Nat} (same : inner.chars ++ [')'] = text ++ closers missing) (position : Nat) :
    ∃ sum, Reads (.chain .additive) ⟨text, position⟩ sum ∧
      sum.closed = inner.unclosedYield missing (position + Text.byteLength text) := by
  cases missing with
  | zero =>
    obtain rfl : inner.chars ++ [')'] = text := same.trans (List.append_nil text)
    exact reads_closed inner.reads [] position
  | succ missing =>
    rw [closers_succ, ← List.append_assoc] at same
    have reads := isRead text missing position (List.append_cancel_right same)
    refine ⟨_, reads, ?_⟩
    have noted (stop : Nat) :
        (inner.unclosedYield missing stop).closed = inner.unclosedYield (missing + 1) stop := by
      rw [unclosedYield, unclosedYield, unclosed_succ]
      rfl
    exact noted _

theorem isReadUnclosed_group {inner : Phrase .sum} (isRead : inner.IsReadUnclosed) :
    (group inner).IsReadUnclosed := by
  intro text missing position same
  obtain ⟨rest, rfl, behind⟩ := exists_of_cons_closers (by decide) same
  obtain ⟨sum, reads, closed⟩ := exists_closed isRead behind (position + '('.utf8Size)
  have starts : (⟨'(' :: rest, position⟩ : Place).rest.head? = some '(' := rfl
  have group := Reads.group starts reads
  rw [closed, Nat.add_assoc] at group
  exact group

theorem isReadUnclosed_call {function : Builtin} {argument : Phrase .sum}
    (isRead : argument.IsReadUnclosed) : (call function argument).IsReadUnclosed := by
  intro text missing position same
  have text' : (call function argument).chars =
      function.name.toList ++ '(' :: (argument.chars ++ [')']) := by simp [chars]
  rw [text'] at same
  obtain ⟨rest, rfl, behind⟩ := exists_of_append_closers (by decide) same
  obtain ⟨sum, reads, closed⟩ := exists_closed isRead behind
    (position + Text.byteLength function.name.toList + '('.utf8Size)
  have spelled : (⟨function.name.toList ++ '(' :: rest, position⟩ : Place).span Char.isLower =
      function.name.toList := span_of_ends (isLower_of_mem_name function) (by simp) position
  have name := Place.behind_append function.name.toList ('(' :: rest) position
  have starts : ((⟨function.name.toList ++ '(' :: rest, position⟩ : Place).behind
      function.name.toList).rest.head? = some '(' := by
    rw [name]
    rfl
  have call := Reads.call spelled starts (by rw [name]; exact reads)
  have stop : position + Text.byteLength function.name.toList + '('.utf8Size +
      Text.byteLength rest = position + Text.byteLength (function.name.toList ++ '(' :: rest) := by
    simp only [Text.byteLength_append, Text.byteLength_cons]
    omega
  rw [closed, stop] at call
  exact call

theorem isReadUnclosed_minus {operand : Phrase .operand} (isRead : operand.IsReadUnclosed) :
    (minus operand).IsReadUnclosed := by
  intro text missing position same
  obtain ⟨rest, rfl, behind⟩ := exists_of_cons_closers (by decide) same
  have inner := isRead rest missing (position + '-'.utf8Size) behind
  have starts : (⟨'-' :: rest, position⟩ : Place).rest.head? = some '-' := rfl
  have minus := Reads.minus starts inner
  rw [Nat.add_assoc] at minus
  exact minus

/-- **A phrase is read as itself where the closing parentheses at its end are missing.** -/
theorem readsUnclosed (phrase : Phrase category) : phrase.IsReadUnclosed := by
  induction phrase with
  | single only ih => exact isReadUnclosed_single ih
  | link before op fits last first second =>
    exact isReadUnclosed_link fits before.isContinued_or_isRead second
  | minus operand ih => exact isReadUnclosed_minus ih
  | plain primary ih => exact ih
  | group inner ih => exact isReadUnclosed_group ih
  | literal number =>
    refine isReadUnclosed_of_open ?_
    rintro c member rfl
    cases number.isNumeric_of_mem_chars ')' member
  | letter name known =>
    refine isReadUnclosed_of_open (List.forall_mem_singleton.mpr ?_)
    rcases known with rfl | rfl <;> decide
  | pi =>
    exact isReadUnclosed_of_open (List.forall_mem_cons.mpr
      ⟨by decide, List.forall_mem_singleton.mpr (by decide)⟩)
  | call function argument ih => exact isReadUnclosed_call ih

end Phrase

/-! ## Formulas -/

/-- A formula that is understood with closing parentheses at its end is read as the same expression
without them. -/
theorem readAll_of_unclosed {text : List Char} {missing : Nat} {limits : Limits}
    (clean : (readAll limits (text ++ closers missing)).2 = #[]) :
    readAll limits text = ((readAll limits (text ++ closers missing)).1,
      (unclosed missing (Text.byteLength text)).toArray) := by
  obtain ⟨phrase, derives⟩ := exists_derives_of_readAll clean
  have reads := phrase.readsUnclosed text missing 0 derives.text
  rw [Nat.zero_add] at reads
  rw [readAll_of_derives derives]
  exact readAll_of_within reads limits ⟨derives.nesting, derives.charge⟩

/-- **Closing parentheses that are missing at the end of a formula are added there.** If a formula
is understood with closing parentheses behind it, then without them, under the same limits, it is
read as the same expression, and each of them leaves one finding, that it is missing at the end of
the normal form. -/
theorem parse_of_unclosed (formula : String) (missing : Nat) (limits : Limits)
    (clean : (parse (formula ++ String.ofList (closers missing)) limits).diagnostics = []) :
    parse formula limits =
      { expr := (parse (formula ++ String.ofList (closers missing)) limits).expr
        diagnostics := unclosed missing (normalize formula).utf8ByteSize
        normalized := normalize formula } := by
  have closers_normal : Text.normalChars (closers missing) = closers missing := by
    refine Text.normalChars_of_isNormal fun c member => ?_
    rw [List.eq_of_mem_replicate member]
    decide
  have normal : Text.normalChars (formula ++ String.ofList (closers missing)).toList =
      Text.normalChars formula.toList ++ closers missing := by
    rw [String.toList_append, String.toList_ofList, Text.normalChars_append, closers_normal]
  have whole := parse_eq (formula ++ String.ofList (closers missing)) limits
  rw [normal] at whole
  rw [whole] at clean ⊢
  rw [parse_eq, readAll_of_unclosed (Array.toList_eq_nil_iff.mp clean), normalize,
    ← Text.byteLength_eq]

/-- Groups and calls are closed at the end, whatever they are in. -/
theorem parse_of_unclosed_nested :
    let formula := "2 * (1 - Rect(-(F/pi"
    (parse (formula ++ String.ofList (closers 3))).diagnostics = [] ∧
      parse formula = ⟨(parse (formula ++ String.ofList (closers 3))).expr,
        unclosed 3 (normalize formula).utf8ByteSize, normalize formula⟩ := by
  intro formula
  have clean : (parse (formula ++ String.ofList (closers 3))).diagnostics = [] := by
    decide +kernel
  exact ⟨clean, parse_of_unclosed formula 3 {} clean⟩

end Waveform.Formula
