import Waveform.Proofs.Formula.Acceptance

/-!
# What a formula costs

Every text has a number of levels and a number of nodes that its reading needs. Limits
below either abandon the reading, and all others leave the same result
(`parse_cutOff`).

A text that is understood needs the nodes of its expression and one more for each of its
groups, the pairs of parentheses that are not around the argument of a function. Which
pairs these are can be told from the text alone: their opening parenthesis stands behind
no letter.
-/

set_option autoImplicit false

namespace Waveform.Formula

/-! ## Groups in a text -/

/-- Counts the pairs of parentheses that are groups. `behindLetter` tells whether the
text stands behind a letter, and `opened` which of the parentheses that are open there
are those of groups, the innermost first. -/
def countGroups (behindLetter : Bool) (opened : List Bool) : List Char → Nat
  | [] => 0
  | c :: rest =>
    if c = '(' then countGroups false ((!behindLetter) :: opened) rest
    else if c = ')' then
      (opened.head?.getD false).toNat + countGroups false opened.tail rest
    else countGroups c.isLower opened rest

/-- How many pairs of parentheses in a text are groups. -/
def groupingPairs (text : List Char) : Nat :=
  countGroups false [] text

section Count

variable {behindLetter : Bool} {opened : List Bool} {rest : List Char}

@[simp]
theorem countGroups_open (behindLetter : Bool) (opened : List Bool) (rest : List Char) :
    countGroups behindLetter opened ('(' :: rest) =
      countGroups false ((!behindLetter) :: opened) rest := rfl

@[simp]
theorem countGroups_close (behindLetter isGroup : Bool) (opened : List Bool) (rest : List Char) :
    countGroups behindLetter (isGroup :: opened) (')' :: rest) =
      isGroup.toNat + countGroups false opened rest := rfl

theorem countGroups_plain {c : Char} (notOpen : c ≠ '(') (notClose : c ≠ ')') :
    countGroups behindLetter opened (c :: rest) = countGroups c.isLower opened rest := by
  rw [countGroups, if_neg notOpen, if_neg notClose]

/-- Only in front of an opening parenthesis does it matter whether a letter comes
before. -/
theorem countGroups_of_ne_open (next : rest.head? ≠ some '(') :
    countGroups behindLetter opened rest = countGroups false opened rest := by
  cases rest with
  | nil => rfl
  | cons c rest =>
    have notOpen : c ≠ '(' := fun same => next (congrArg some same)
    simp only [countGroups, if_neg notOpen]

/-- Characters that are no parentheses are passed over. -/
theorem countGroups_append {taken : List Char} (plain : ∀ c ∈ taken, c ≠ '(' ∧ c ≠ ')')
    (next : rest.head? ≠ some '(') :
    countGroups behindLetter opened (taken ++ rest) = countGroups false opened rest := by
  induction taken generalizing behindLetter with
  | nil => exact countGroups_of_ne_open next
  | cons c taken ih =>
    obtain ⟨notOpen, notClose⟩ := plain c (List.mem_cons_self ..)
    rw [List.cons_append, countGroups_plain notOpen notClose]
    exact ih fun d member => plain d (List.mem_cons_of_mem _ member)

/-- A parenthesis behind a name is not that of a group. -/
theorem countGroups_name {name : List Char} (nonempty : name ≠ [])
    (lower : ∀ c ∈ name, c.isLower = true) :
    countGroups behindLetter opened (name ++ '(' :: rest) =
      countGroups false (false :: opened) rest := by
  induction name generalizing behindLetter with
  | nil => exact absurd rfl nonempty
  | cons c name ih =>
    have letter : c.isLower = true := lower c (List.mem_cons_self ..)
    have notClose : c ≠ ')' := by
      rintro rfl
      cases letter
    rw [List.cons_append, countGroups_plain (ne_open_of_isLower letter) notClose, letter]
    by_cases last : name = []
    · subst last
      rfl
    · exact ih last fun d member => lower d (List.mem_cons_of_mem _ member)

end Count

/-! ## Groups and nodes of a phrase -/

namespace Phrase

theorem countGroups_literal (literal : Literal) (opened : List Bool) {rest : List Char}
    (next : rest.head? ≠ some '(') :
    countGroups false opened (literal.chars ++ rest) = countGroups false opened rest := by
  refine countGroups_append ?_ next
  intro c member
  have numeric := literal.isNumeric_of_mem_chars c member
  constructor <;> rintro rfl <;> exact absurd numeric (by decide)

theorem next_close (rest : List Char) : (')' :: rest).head? ≠ some '(' := by
  rw [List.head?_cons]
  decide

/-- The groups of a phrase are those that its characters show. -/
theorem countGroups_chars {category : Category} (phrase : Phrase category) :
    ∀ (opened : List Bool) {rest : List Char}, rest.head? ≠ some '(' →
      countGroups false opened (phrase.chars ++ rest) =
        phrase.groups + countGroups false opened rest := by
  induction phrase with
  | single only ih => exact ih
  | link before op fits last first second =>
    intro opened rest next
    have symbol : op.symbol ≠ '(' ∧ op.symbol ≠ ')' ∧ op.symbol.isLower = false := by
      cases op <;> exact ⟨by decide, by decide, rfl⟩
    obtain ⟨notOpen, notClose, notLower⟩ := symbol
    have symbol : (op.symbol :: (last.chars ++ rest)).head? ≠ some '(' :=
      fun same => notOpen (Option.some.inj same)
    rw [chars, List.append_assoc, List.cons_append, first opened symbol,
      countGroups_plain notOpen notClose, notLower, second opened next, groups, Nat.add_assoc]
  | minus operand ih =>
    intro opened rest next
    rw [chars, List.cons_append, countGroups_plain (by decide) (by decide)]
    exact ih opened next
  | plain primary ih => exact ih
  | group inner ih =>
    intro opened rest next
    have text : (group inner).chars ++ rest = '(' :: (inner.chars ++ ')' :: rest) := by
      simp [chars]
    rw [text, countGroups_open, ih _ (next_close rest), countGroups_close, groups, Nat.add_assoc]
    rfl
  | literal number =>
    intro opened rest next
    rw [chars, countGroups_literal number opened next, groups, Nat.zero_add]
  | letter name known =>
    intro opened rest next
    have plain : name ≠ '(' ∧ name ≠ ')' := by rcases known with rfl | rfl <;> decide
    rw [chars, countGroups_append (List.forall_mem_singleton.mpr plain) next, groups, Nat.zero_add]
  | pi =>
    intro opened rest next
    have plain : ∀ c ∈ ['p', 'i'], c ≠ '(' ∧ c ≠ ')' :=
      List.forall_mem_cons.mpr ⟨by decide, List.forall_mem_singleton.mpr (by decide)⟩
    rw [chars, countGroups_append plain next, groups, Nat.zero_add]
  | call function argument ih =>
    intro opened rest next
    have text : (call function argument).chars ++ rest =
        function.name.toList ++ '(' :: (argument.chars ++ ')' :: rest) := by
      simp [chars]
    rw [text, countGroups_name (name_ne_nil function) (isLower_of_mem_name function),
      ih _ (next_close rest), countGroups_close, groups]
    exact congrArg _ (Nat.zero_add _)

/-- A phrase is charged the nodes of its expression and its groups. -/
theorem charge_eq {category : Category} (phrase : Phrase category) :
    phrase.charge = phrase.tree.nodeCount + phrase.groups := by
  induction phrase with
  | single only ih => exact ih
  | link before op fits last first second =>
    simp only [charge, tree, groups, Expr.nodeCount_binary, first, second]
    omega
  | minus operand ih =>
    simp only [charge, tree, groups, Expr.nodeCount, ih]
    omega
  | plain primary ih => exact ih
  | group inner ih =>
    simp only [charge, tree, groups, ih]
    omega
  | literal | letter | pi => rfl
  | call function argument ih =>
    simp only [charge, tree, groups, Expr.nodeCount, ih]
    omega

theorem groups_eq (phrase : Phrase .sum) : phrase.groups = groupingPairs phrase.chars := by
  have next : ([] : List Char).head? ≠ some '(' := by decide
  have count := phrase.countGroups_chars [] next
  rw [List.append_nil] at count
  exact count.symm

end Phrase

/-! ## Cutting off -/

section All

variable {text : List Char} {yield : Yield} (reads : ReadsAll text yield) (limits : Limits)
include reads

/-- The reading of a formula is abandoned exactly when its cost is beyond the limits. -/
theorem isFatal_readAll_iff :
    (readAll limits text).2.any Diagnostic.isFatal = true ↔
      limits.depth < yield.nesting ∨ limits.nodes < yield.charge := by
  by_cases within : yield.Within limits.depth limits.nodes
  · obtain ⟨nesting, charge⟩ := within
    rw [readAll_of_within reads limits ⟨nesting, charge⟩]
    refine ⟨?_, fun beyond => by omega⟩
    intro fatal
    obtain ⟨index, bound, fatal⟩ := Array.any_eq_true.mp fatal
    have member := Array.getElem_mem bound
    rw [List.mem_toArray] at member
    have notFatal := not_isFatal_of_mem_allFindings reads _ member
    cases fatal.symm.trans notFatal
  · refine ⟨?_, fun _ => readAll_of_beyond reads limits within⟩
    intro _
    by_contra neither
    exact within ⟨by omega, by omega⟩

/-- A formula that is understood costs the nodes of its expression and its groups. -/
theorem charge_of_clean (clean : yield.allFindings = []) :
    yield.charge = yield.expr.nodeCount + groupingPairs text := by
  obtain ⟨findings, ends⟩ := Yield.allFindings_eq_nil_iff.mp clean
  obtain ⟨phrase, spells⟩ := Reads.understood reads findings
  have whole := spells.text
  rw [ends, List.append_nil] at whole
  have whole : text = phrase.chars := whole
  rw [← spells.charge, phrase.charge_eq, spells.tree, phrase.groups_eq, whole]

end All

/-- **The limits only cut readings off.** Every text needs a depth and a number of nodes:
limits below them are fatal, and all others give one result. When that is understood, the
nodes are those of the expression and one for each group. -/
theorem parse_cutOff (text : String) : ∃ (depth nodes : Nat) (parsed : Parsed),
    (∀ limits, (parse text limits).isFatal = true ↔ limits.depth < depth ∨ limits.nodes < nodes) ∧
    (∀ limits, (parse text limits).isFatal = false → parse text limits = parsed) ∧
    (parsed.isClean = true →
      nodes = parsed.expr.nodeCount + groupingPairs (Text.normalChars text.toList)) := by
  obtain ⟨yield, reads⟩ := exists_readsAll (Text.normalChars text.toList)
  have fatal (limits : Limits) : (parse text limits).isFatal = true ↔
      limits.depth < yield.nesting ∨ limits.nodes < yield.charge := by
    rw [← isFatal_readAll_iff reads limits, parse_eq, Parsed.isFatal, Array.any_toList]
  refine ⟨yield.nesting, yield.charge,
    ⟨yield.expr, yield.allFindings, String.ofList (Text.normalChars text.toList)⟩, fatal,
    ?_, ?_⟩
  · intro limits notFatal
    have within : yield.Within limits.depth limits.nodes := by
      have neither := (fatal limits).not.mp (by rw [notFatal]; exact Bool.false_ne_true)
      exact ⟨by omega, by omega⟩
    rw [parse_eq, readAll_of_within reads limits within]
  · intro clean
    exact charge_of_clean reads (List.isEmpty_iff.mp clean)

/-- The depth two and seven nodes are enough here, and neither one level nor six nodes are. -/
example :
    let text := "2*(sin(f)-1)"
    let parsed := parse text { depth := 2, nodes := 7 }
    parsed.isClean = true ∧ parsed.expr.nodeCount = 6 ∧ groupingPairs text.toList = 1 ∧
      (parse text { depth := 1, nodes := 7 }).isFatal = true ∧
      (parse text { depth := 2, nodes := 6 }).isFatal = true := by
  decide +kernel

end Waveform.Formula
