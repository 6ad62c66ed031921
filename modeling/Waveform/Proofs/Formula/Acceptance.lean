import Mathlib.Data.List.TakeWhile
import Waveform.Proofs.Expr.Chain
import Waveform.Proofs.Formula.Limits
import Waveform.Proofs.Formula.Literals

/-!
# What is understood is the grammar

A formula is read without a finding exactly when it is a phrase of the grammar that
costs no more than the limits allow, and then the expression has the value of the
phrase.

In one direction a reading without findings gives a phrase for what was read
(`Reads.understood`). In the other a phrase is read as itself wherever no character
stands behind it that would be read as a part of it (`Phrase.reads`). For a chain this
is proved of its beginnings, with the links that are still to come: links are read from
the left, and so are phrases of a chain put together.
-/

set_option autoImplicit false

namespace Waveform.Formula

/-! ## Places in front of a text -/

namespace Place

theorem span_append_behind (place : Place) (keep : Char → Bool) :
    place.rest = place.span keep ++ (place.behind (place.span keep)).rest := by
  rw [behind_span_rest]
  exact List.takeWhile_append_dropWhile.symm

theorem behind_append (taken rest : List Char) (position : Nat) :
    (⟨taken ++ rest, position⟩ : Place).behind taken =
      ⟨rest, position + Text.byteLength taken⟩ := by
  simp [behind]

theorem rest_of_head? {place : Place} {c : Char} (starts : place.rest.head? = some c) :
    place.rest = c :: (place.behind [c]).rest := by
  obtain ⟨rest, spelled⟩ := List.head?_eq_some_iff.mp starts
  simp [behind, spelled]

end Place

/-! ## Literals and runs -/

/-- A run ends where a character follows that does not belong to it. -/
theorem takeWhile_of_stop {keep : Char → Bool} {taken rest : List Char}
    (kept : ∀ c ∈ taken, keep c = true) (stops : ∀ c ∈ rest.head?, keep c = false) :
    (taken ++ rest).takeWhile keep = taken ∧ (taken ++ rest).dropWhile keep = rest := by
  have alone : rest.takeWhile keep = [] ∧ rest.dropWhile keep = rest := by
    cases rest with
    | nil => exact ⟨rfl, rfl⟩
    | cons c rest =>
      have first : ¬ keep c = true := by
        rw [stops c rfl]
        exact Bool.false_ne_true
      exact ⟨List.takeWhile_cons_of_neg first, List.dropWhile_cons_of_neg first⟩
  obtain ⟨none, all⟩ := alone
  rw [List.takeWhile_append_of_pos kept, List.dropWhile_append_of_pos kept, none, all]
  exact ⟨List.append_nil _, rfl⟩

namespace Literal

variable (literal : Literal)

/-- A literal is cut where its point is, and ends in front of any other character. -/
theorem ofChars_append {rest : List Char} (stops : ∀ c ∈ rest.head?, isNumeric c = false) :
    NumberRun.ofChars (literal.chars ++ rest) =
      ⟨literal.whole, literal.fraction.getD [], rest⟩ := by
  obtain ⟨whole, fraction, wholeDigits, fractionDigits, _⟩ := literal
  have noDigit : ∀ c ∈ rest.head?, c.isDigit = false :=
    fun c first => (Bool.or_eq_false_iff.mp (stops c first)).1
  cases fraction with
  | none =>
    obtain ⟨taken, left⟩ := takeWhile_of_stop wholeDigits noDigit
    have noPoint : ∀ behind, rest = '.' :: behind → False := by
      rintro behind rfl
      cases stops '.' rfl
    simp only [chars, NumberRun.ofChars, taken, left]
    rfl
  | some digits =>
    have point : ∀ c ∈ ('.' :: (digits ++ rest)).head?, c.isDigit = false := by simp
    obtain ⟨taken, left⟩ := takeWhile_of_stop wholeDigits point
    obtain ⟨taken', left'⟩ := takeWhile_of_stop fractionDigits noDigit
    simp only [Option.getD_some] at taken' left'
    simp [chars, NumberRun.ofChars, taken, left, taken', left']

theorem ofChars_chars :
    NumberRun.ofChars literal.chars = ⟨literal.whole, literal.fraction.getD [], []⟩ := by
  have alone : NumberRun.ofChars (literal.chars ++ []) =
      ⟨literal.whole, literal.fraction.getD [], []⟩ :=
    literal.ofChars_append (fun c member => by cases member)
  rwa [List.append_nil] at alone

theorem isNumber_chars : (NumberRun.ofChars literal.chars).isNumber = true := by
  rw [ofChars_chars, NumberRun.isNumber, NumberRun.hasDigit]
  rcases literal.has_digit with whole | fraction
  · simp [whole]
  · simp [fraction]

theorem value_ofChars_chars : (NumberRun.ofChars literal.chars).value = literal.value := by
  have digit : (NumberRun.ofChars literal.chars).hasDigit = true :=
    (Bool.and_eq_true_iff.mp literal.isNumber_chars).1
  rw [NumberRun.value, if_pos digit, ofChars_chars]
  rfl

theorem isNumeric_of_mem_chars : ∀ c ∈ literal.chars, isNumeric c = true := by
  intro c member
  obtain ⟨whole, fraction, wholeDigits, fractionDigits, _⟩ := literal
  cases fraction with
  | none => exact isNumeric_iff.mpr (.inl (wholeDigits c member))
  | some digits =>
    rcases List.mem_append.mp member with early | late
    · exact isNumeric_iff.mpr (.inl (wholeDigits c early))
    · rcases List.mem_cons.mp late with point | digit
      · exact isNumeric_iff.mpr (.inr point)
      · exact isNumeric_iff.mpr (.inl (fractionDigits c digit))

theorem chars_ne_nil : literal.chars ≠ [] := by
  intro none
  have isNumber := literal.isNumber_chars
  rw [none] at isNumber
  cases isNumber

/-- The longest decimal at the start of a text is a literal, if it has a digit. -/
theorem exists_of_hasDigit {text : List Char}
    (digit : (NumberRun.ofChars text).hasDigit = true) :
    ∃ literal : Literal, text = literal.chars ++ (NumberRun.ofChars text).beyond ∧
      literal.value = (NumberRun.ofChars text).value := by
  have parts := List.takeWhile_append_dropWhile (p := Char.isDigit) (l := text)
  have wholeDigits : ∀ c ∈ text.takeWhile Char.isDigit, c.isDigit = true :=
    fun c member => List.mem_takeWhile_imp member
  have value : (NumberRun.ofChars text).value = Decimal.Numeral.nearest
      { negative := false, whole := (NumberRun.ofChars text).whole,
        fraction := (NumberRun.ofChars text).fraction } := if_pos digit
  rw [value]
  unfold NumberRun.hasDigit at digit
  unfold NumberRun.ofChars at digit ⊢
  dsimp only at digit ⊢
  split at digit
  · next rest left =>
    rw [left] at parts
    have parts' := List.takeWhile_append_dropWhile (p := Char.isDigit) (l := rest)
    refine ⟨⟨text.takeWhile Char.isDigit, some (rest.takeWhile Char.isDigit), wholeDigits,
      fun c member => List.mem_takeWhile_imp member, ?_⟩, ?_, rfl⟩
    · simpa [Decidable.imp_iff_not_or] using digit
    · rw [chars, List.append_assoc, List.cons_append, parts', parts]
  · refine ⟨⟨text.takeWhile Char.isDigit, none, wholeDigits, by simp, ?_⟩, parts.symm, rfl⟩
    simpa [Decidable.imp_iff_not_or] using digit

/-- A run that is a number is a literal. -/
theorem exists_of_isNumber {run : List Char} (isNumber : (NumberRun.ofChars run).isNumber = true) :
    ∃ literal : Literal, literal.chars = run ∧ literal.value = (NumberRun.ofChars run).value := by
  obtain ⟨digit, all⟩ := Bool.and_eq_true_iff.mp isNumber
  obtain ⟨literal, spelled, same⟩ := exists_of_hasDigit digit
  rw [List.isEmpty_iff.mp all, List.append_nil] at spelled
  exact ⟨literal, spelled.symm, same⟩

end Literal

/-! ## What is read without findings is a phrase -/

/-- Whether a phrase is what was read from a place: it has the characters that were
taken, the expression and the costs. -/
structure Phrase.Spells {category : Category} (phrase : Phrase category) (place : Place)
    (yield : Yield) : Prop where
  text : place.rest = phrase.chars ++ yield.place.rest
  tree : phrase.tree = yield.expr
  charge : phrase.charge = yield.charge
  nesting : phrase.nesting = yield.nesting

namespace Yield

theorem closed_of_findings_eq_nil {yield : Yield} (clean : yield.closed.findings = []) :
    yield.findings = [] ∧ yield.place.rest = ')' :: yield.closed.place.rest := by
  unfold closed at clean ⊢
  split
  · next rest spelled =>
    simp only [spelled] at clean
    exact ⟨clean, Place.rest_of_head? (by rw [spelled]; rfl)⟩
  · next missing =>
    exfalso
    split at clean
    · next rest spelled => exact missing rest spelled
    · exact List.append_ne_nil_of_right_ne_nil _ (List.cons_ne_nil _ _) clean

theorem after_findings_eq_nil {first second : Yield} (clean : (second.after first).findings = []) :
    first.findings = [] ∧ second.findings = [] :=
  List.append_eq_nil_iff.mp clean

end Yield

namespace Phrase.Spells

variable {place : Place}

/-- The phrase of an operand without findings. -/
theorem exists_of_leaf {yield : Yield} (leaf : Leaf place yield) (clean : yield.findings = []) :
    ∃ phrase : Phrase .operand, phrase.Spells place yield := by
  cases leaf with
  | none | unexpected | invalid | bare => exact absurd clean (List.cons_ne_nil _ _)
  | number nonempty isNumber =>
    obtain ⟨literal, spelled, same⟩ := Literal.exists_of_isNumber isNumber
    refine ⟨.plain (.literal literal), ?_, congrArg Expr.number same, rfl, rfl⟩
    rw [chars, chars, spelled]
    exact place.span_append_behind isNumeric
  | letter known spelled =>
    refine ⟨.plain (.letter _ known), ?_, rfl, rfl, rfl⟩
    rw [chars, chars, ← spelled]
    exact place.span_append_behind Char.isLower
  | pi spelled =>
    refine ⟨.plain .pi, ?_, rfl, rfl, rfl⟩
    rw [chars, chars, ← spelled]
    exact place.span_append_behind Char.isLower

/-- The phrase of a sum in parentheses. -/
theorem group {sum : Yield} {inner : Phrase .sum} (starts : place.rest.head? = some '(')
    (clean : sum.closed.findings = []) (spells : inner.Spells (place.behind ['(']) sum) :
    (Phrase.plain (.group inner)).Spells place (sum.closed.inside id) := by
  obtain ⟨_, closes⟩ := Yield.closed_of_findings_eq_nil clean
  obtain ⟨text, tree, charge, nesting⟩ := spells
  refine ⟨?_, ?_, ?_, ?_⟩
  · rw [Place.rest_of_head? starts, text, closes]
    simp [chars, Yield.inside, Yield.charged, Yield.deeper, Yield.map]
  · exact tree.trans sum.closed_expr.symm
  · exact congrArg (· + 1) (charge.trans sum.closed_charge.symm)
  · exact congrArg (· + 1) (nesting.trans sum.closed_nesting.symm)

/-- The phrase of a call. -/
theorem call {function : Builtin} {sum : Yield} {argument : Phrase .sum}
    (spelled : place.span Char.isLower = function.name.toList)
    (starts : (place.behind function.name.toList).rest.head? = some '(')
    (clean : sum.closed.findings = [])
    (spells : argument.Spells ((place.behind function.name.toList).behind ['(']) sum) :
    (Phrase.plain (.call function argument)).Spells place
      (sum.closed.inside (.call function)) := by
  obtain ⟨_, closes⟩ := Yield.closed_of_findings_eq_nil clean
  obtain ⟨text, tree, charge, nesting⟩ := spells
  refine ⟨?_, ?_, ?_, ?_⟩
  · have split := place.span_append_behind Char.isLower
    rw [spelled, Place.rest_of_head? starts, text, closes] at split
    rw [split]
    simp [chars, Yield.inside, Yield.charged, Yield.deeper, Yield.map]
  · exact congrArg (Expr.call function) (tree.trans sum.closed_expr.symm)
  · exact congrArg (· + 1) (charge.trans sum.closed_charge.symm)
  · exact congrArg (· + 1) (nesting.trans sum.closed_nesting.symm)

/-- The phrase of a sign and the operand behind it. -/
theorem minus {yield : Yield} {inner : Phrase .operand} (starts : place.rest.head? = some '-')
    (spells : inner.Spells (place.behind ['-']) yield) :
    (Phrase.minus inner).Spells place (yield.inside .neg) := by
  obtain ⟨text, tree, charge, nesting⟩ := spells
  refine ⟨?_, congrArg Expr.neg tree, congrArg (· + 1) charge, congrArg (· + 1) nesting⟩
  rw [Place.rest_of_head? starts, text]
  rfl

/-- The phrase of a chain and one operand more. -/
theorem link {level : Level} {start : Place} {head operand : Yield} {op : BinaryOp}
    {before : Phrase (.chain level)} {last : Phrase level.inside}
    (follows : head.place.rest.head? = some op.symbol) (fits : op.level = level)
    (first : before.Spells start head)
    (second : last.Spells (head.place.behind [op.symbol]) operand) :
    (Phrase.link before op fits last).Spells start
      ((operand.charged.map (Expr.binary head.expr op)).after head) := by
  refine ⟨?_, ?_, ?_, ?_⟩
  · rw [first.text, Place.rest_of_head? follows, second.text]
    simp [chars, Yield.after, Yield.map, Yield.charged]
  · rw [Phrase.tree, first.tree, second.tree]
    rfl
  · simp only [Phrase.charge, first.charge, second.charge, Yield.after, Yield.map, Yield.charged]
    omega
  · rw [Phrase.nesting, first.nesting, second.nesting]
    rfl

end Phrase.Spells

/-- Whether what is read as a part from a place is a phrase. Links are a phrase together
with any that is read as the chain in front of them. -/
def Part.Understood : Part → Place → Yield → Prop
  | .chain level, place, yield => ∃ phrase : Phrase (.chain level), phrase.Spells place yield
  | .links level sofar, place, yield =>
    ∀ {start : Place} {head : Yield} (before : Phrase (.chain level)), before.Spells start head →
      head.place = place → head.expr = sofar →
      ∃ phrase : Phrase (.chain level), phrase.Spells start (yield.after head)
  | .operand, place, yield => ∃ phrase : Phrase .operand, phrase.Spells place yield

theorem Part.Understood.inside {level : Level} {place : Place} {yield : Yield}
    (understood : level.part.Understood place yield) :
    ∃ phrase : Phrase level.inside, phrase.Spells place yield := by
  cases level <;> exact understood

/-- **A reading without findings is that of a phrase.** -/
theorem Reads.understood {part : Part} {place : Place} {yield : Yield}
    (reads : Reads part place yield) (clean : yield.findings = []) :
    part.Understood place yield := by
  induction reads with
  | @chain level place head links _ _ first more =>
    obtain ⟨early, late⟩ := Yield.after_findings_eq_nil clean
    obtain ⟨only, spells⟩ := (first early).inside
    have single : (Phrase.single only).Spells place head :=
      ⟨spells.text, spells.tree, spells.charge, spells.nesting⟩
    exact more late _ single rfl rfl
  | @stop level sofar place ends =>
    intro start head before spells there same
    subst there same
    exact ⟨before, spells.text, spells.tree, spells.charge,
      spells.nesting.trans (Nat.max_zero _).symm⟩
  | @link level sofar place op operand links follows fits _ _ first more =>
    intro start head before spells there same
    subst there same
    obtain ⟨early, late⟩ := Yield.after_findings_eq_nil clean
    obtain ⟨last, reached⟩ := (first early).inside
    have longer := Phrase.Spells.link follows fits spells reached
    obtain ⟨phrase, whole⟩ := more late _ longer rfl rfl
    refine ⟨phrase, whole.text, whole.tree, whole.charge.trans ?_, whole.nesting.trans ?_⟩
    · simp only [Yield.after, Yield.map, Yield.charged, Nat.add_assoc]
    · simp only [Yield.after, Yield.map, Yield.charged, Nat.max_assoc]
  | minus starts _ inner =>
    obtain ⟨phrase, spells⟩ := inner clean
    exact ⟨_, spells.minus starts⟩
  | group starts _ inner =>
    obtain ⟨phrase, spells⟩ := inner (Yield.closed_of_findings_eq_nil clean).1
    exact ⟨_, spells.group starts clean⟩
  | call spelled starts _ inner =>
    obtain ⟨phrase, spells⟩ := inner (Yield.closed_of_findings_eq_nil clean).1
    exact ⟨_, spells.call spelled starts clean⟩
  | unknown => exact absurd clean (List.append_ne_nil_of_right_ne_nil _ (List.cons_ne_nil _ _))
  | leaf leaf => exact Phrase.Spells.exists_of_leaf leaf clean

/-! ## Phrases are read as themselves -/

namespace Category

/-- The part that phrases of a category are read as. -/
def part : Category → Part
  | .chain level => .chain level
  | .operand | .primary => .operand

/-- Whether a character behind a phrase is not read as a part of it. -/
def Rejects : Category → Char → Prop
  | .chain .additive, c =>
    isNumeric c = false ∧ c.isLower = false ∧ Level.multiplicative.operator? c = none ∧
      Level.additive.operator? c = none
  | .chain .multiplicative, c =>
    isNumeric c = false ∧ c.isLower = false ∧ Level.multiplicative.operator? c = none
  | .operand, c | .primary, c => isNumeric c = false ∧ c.isLower = false

/-- Whether a phrase of a category ends in front of a text. -/
def Ends (category : Category) (rest : List Char) : Prop :=
  ∀ c ∈ rest.head?, category.Rejects c

theorem ends_nil (category : Category) : category.Ends [] :=
  fun _ member => by cases member

theorem ends_cons {category : Category} {c : Char} {rest : List Char}
    (rejects : category.Rejects c) : category.Ends (c :: rest) := by
  intro d member
  cases member
  exact rejects

theorem ends_close (rest : List Char) : sum.Ends (')' :: rest) :=
  ends_cons ⟨by decide, by decide, by decide, by decide⟩

theorem part_inside (level : Level) : level.inside.part = level.part := by
  cases level <;> rfl

theorem rejects_chain {level : Level} {c : Char} :
    (chain level).Rejects c ↔ level.inside.Rejects c ∧ level.operator? c = none := by
  cases level with
  | additive => simp only [Rejects, Level.inside, and_assoc]
  | multiplicative => simp only [Rejects, Level.inside, and_assoc]

/-- An operand ends in front of an operator that joins it. -/
theorem inside_rejects_symbol {op : BinaryOp} {level : Level} (fits : op.level = level) :
    level.inside.Rejects op.symbol := by
  subst fits
  cases op with
  | add | sub => exact ⟨by decide, by decide, by decide⟩
  | mul | div => exact ⟨by decide, by decide⟩

end Category

namespace Phrase

/-- What a phrase is read as, with a place behind it. -/
def yield {category : Category} (phrase : Phrase category) (place : Place) : Yield :=
  ⟨phrase.tree, [], phrase.charge, phrase.nesting, place⟩

/-- Whether a phrase is read as itself in front of every text where it ends. -/
def IsRead {category : Category} (phrase : Phrase category) : Prop :=
  ∀ (rest : List Char) (position : Nat), category.Ends rest →
    Reads category.part ⟨phrase.chars ++ rest, position⟩
      (phrase.yield ⟨rest, position + Text.byteLength phrase.chars⟩)

/-- Whether a chain is read together with all links that may stand behind it. -/
def IsContinued {level : Level} (phrase : Phrase (.chain level)) : Prop :=
  ∀ (rest : List Char) (position : Nat) (links : Yield), level.inside.Ends rest →
    Reads (.links level phrase.tree) ⟨rest, position + Text.byteLength phrase.chars⟩ links →
    Reads (.chain level) ⟨phrase.chars ++ rest, position⟩
      (links.after (phrase.yield ⟨rest, position + Text.byteLength phrase.chars⟩))

theorem IsContinued.isRead {level : Level} {phrase : Phrase (.chain level)}
    (continued : phrase.IsContinued) : phrase.IsRead := by
  intro rest position ends
  have none : rest.head?.bind level.operator? = Option.none := by
    cases rest with
    | nil => rfl
    | cons c rest => exact (Category.rejects_chain.mp (ends c rfl)).2
  have inside : level.inside.Ends rest :=
    fun c member => (Category.rejects_chain.mp (ends c member)).1
  have reads := continued rest position _ inside (.stop none)
  have same := Yield.stop_after (phrase.yield ⟨rest, position + Text.byteLength phrase.chars⟩)
  exact same ▸ reads

/-- A chain of one operand is continued as the operand is. -/
theorem isContinued_single {level : Level} {only : Phrase level.inside} (isRead : only.IsRead) :
    (single only).IsContinued := by
  intro rest position links ends more
  have first := isRead rest position ends
  rw [Category.part_inside] at first
  exact .chain first more

/-- An operator, an operand and links are read behind a chain that is continued. -/
theorem IsContinued.reads_link {level : Level} {before : Phrase (.chain level)}
    (continued : before.IsContinued) {op : BinaryOp} (fits : op.level = level) {text : List Char}
    {position : Nat} {operand links : Yield}
    (first : Reads level.inside.part
      ⟨text, position + Text.byteLength before.chars + op.symbol.utf8Size⟩ operand)
    (more : Reads (.links level (Expr.binary before.tree op operand.expr)) operand.place links) :
    Reads (.chain level) ⟨before.chars ++ op.symbol :: text, position⟩
      ((links.after operand.charged).after
        (before.yield ⟨op.symbol :: text, position + Text.byteLength before.chars⟩)) := by
  have start : (⟨op.symbol :: text, position + Text.byteLength before.chars⟩ : Place).behind
      [op.symbol] = ⟨text, position + Text.byteLength before.chars + op.symbol.utf8Size⟩ :=
    Place.behind_append [op.symbol] _ _
  rw [Category.part_inside, ← start] at first
  exact continued (op.symbol :: text) position _
    (Category.ends_cons (Category.inside_rejects_symbol fits)) (.link rfl fits first more)

/-- A chain with one operand more is continued as the chain and the operand are. -/
theorem isContinued_link {level : Level} {before : Phrase (.chain level)} {op : BinaryOp}
    {last : Phrase level.inside} (fits : op.level = level) (continued : before.IsContinued)
    (isRead : last.IsRead) : (link before op fits last).IsContinued := by
  intro rest position links ends more
  have first := isRead rest
    (position + Text.byteLength before.chars + op.symbol.utf8Size) ends
  have stop : position + Text.byteLength before.chars + op.symbol.utf8Size +
      Text.byteLength last.chars =
      position + Text.byteLength (link before op fits last).chars := by
    simp only [chars, Text.byteLength_append, Text.byteLength_cons]
    omega
  rw [stop] at first
  have reads := continued.reads_link fits first more
  have text : before.chars ++ op.symbol :: (last.chars ++ rest) =
      (link before op fits last).chars ++ rest := by
    simp [chars]
  rw [text] at reads
  have same (place : Place) (here : Place) :
      (links.after (last.yield here).charged).after (before.yield place) =
        links.after ((link before op fits last).yield here) := by
    simp only [Yield.after, Yield.charged, yield, charge, nesting, List.nil_append, Nat.max_assoc,
      Yield.mk.injEq, true_and, and_true]
    omega
  rwa [same] at reads

/-- A run of characters is taken up to the text behind it. -/
theorem span_of_ends {keep : Char → Bool} {taken rest : List Char}
    (kept : ∀ c ∈ taken, keep c = true) (stops : ∀ c ∈ rest.head?, keep c = false)
    (position : Nat) : (⟨taken ++ rest, position⟩ : Place).span keep = taken :=
  (takeWhile_of_stop kept stops).1

theorem isRead_literal (literal : Literal) : (Phrase.literal literal).IsRead := by
  intro rest position ends
  have spelled : (⟨literal.chars ++ rest, position⟩ : Place).span isNumeric = literal.chars :=
    span_of_ends literal.isNumeric_of_mem_chars (fun c member => (ends c member).1) position
  have nonempty : (⟨literal.chars ++ rest, position⟩ : Place).span isNumeric ≠ [] := by
    rw [spelled]
    exact literal.chars_ne_nil
  have leaf := Leaf.number nonempty (by rw [spelled]; exact literal.isNumber_chars)
  rw [spelled, literal.value_ofChars_chars, Place.behind_append] at leaf
  exact .leaf leaf

theorem isRead_letter {name : Char} (known : name = 'f' ∨ name = 't') :
    (letter name known).IsRead := by
  intro rest position ends
  have lower : name.isLower = true := by rcases known with rfl | rfl <;> rfl
  have spelled : (⟨[name] ++ rest, position⟩ : Place).span Char.isLower = [name] :=
    span_of_ends (by simpa using lower) (fun c member => (ends c member).2) position
  have leaf := Leaf.letter known spelled
  rw [Place.behind_append] at leaf
  exact .leaf leaf

theorem isRead_pi : pi.IsRead := by
  intro rest position ends
  have spelled : (⟨['p', 'i'] ++ rest, position⟩ : Place).span Char.isLower = ['p', 'i'] :=
    span_of_ends (List.all_eq_true.mp rfl) (fun c member => (ends c member).2) position
  have leaf := Leaf.pi spelled
  rw [Place.behind_append] at leaf
  exact .leaf leaf

/-- A sum in front of a closing parenthesis is read with it. -/
theorem reads_closed {inner : Phrase .sum} (isRead : inner.IsRead) (rest : List Char)
    (position : Nat) : ∃ sum : Yield,
      Reads (.chain .additive) ⟨inner.chars ++ ')' :: rest, position⟩ sum ∧
        sum.closed = inner.yield ⟨rest, position + Text.byteLength (inner.chars ++ [')'])⟩ := by
  refine ⟨_, isRead (')' :: rest) position (Category.ends_close rest), ?_⟩
  simp [Yield.closed, yield, Place.behind, Nat.add_assoc]

theorem isRead_group {inner : Phrase .sum} (isRead : inner.IsRead) : (group inner).IsRead := by
  intro rest position _
  obtain ⟨sum, reads, closed⟩ := reads_closed isRead rest (position + '('.utf8Size)
  have text : (group inner).chars ++ rest = '(' :: (inner.chars ++ ')' :: rest) := by
    simp [chars]
  rw [text]
  have starts : (⟨'(' :: (inner.chars ++ ')' :: rest), position⟩ : Place).rest.head? = some '(' :=
    rfl
  have group := Reads.group starts reads
  rw [closed] at group
  have stop : position + '('.utf8Size + Text.byteLength (inner.chars ++ [')']) =
      position + Text.byteLength (Phrase.group inner).chars := by
    simp only [chars, List.cons_append, Text.byteLength_cons]
    omega
  rw [stop] at group
  exact group

theorem isRead_call {function : Builtin} {argument : Phrase .sum} (isRead : argument.IsRead) :
    (call function argument).IsRead := by
  intro rest position _
  obtain ⟨sum, reads, closed⟩ := reads_closed isRead rest
    (position + Text.byteLength function.name.toList + '('.utf8Size)
  have text : (call function argument).chars ++ rest =
      function.name.toList ++ '(' :: (argument.chars ++ ')' :: rest) := by
    simp [chars]
  rw [text]
  have spelled : (⟨function.name.toList ++ '(' :: (argument.chars ++ ')' :: rest), position⟩ :
      Place).span Char.isLower = function.name.toList :=
    span_of_ends (isLower_of_mem_name function) (by simp) position
  have behind := Place.behind_append function.name.toList
    ('(' :: (argument.chars ++ ')' :: rest)) position
  have starts : ((⟨function.name.toList ++ '(' :: (argument.chars ++ ')' :: rest), position⟩ :
      Place).behind function.name.toList).rest.head? = some '(' := by
    rw [behind]
    rfl
  have call := Reads.call spelled starts (by rw [behind]; exact reads)
  rw [closed] at call
  have stop : position + Text.byteLength function.name.toList + '('.utf8Size +
      Text.byteLength (argument.chars ++ [')']) =
      position + Text.byteLength (Phrase.call function argument).chars := by
    simp only [chars, Text.byteLength_append, Text.byteLength_cons]
    omega
  rw [stop] at call
  exact call

theorem isRead_minus {operand : Phrase .operand} (isRead : operand.IsRead) :
    (minus operand).IsRead := by
  intro rest position ends
  have inner := isRead rest (position + '-'.utf8Size) ends
  have starts : (⟨'-' :: (operand.chars ++ rest), position⟩ : Place).rest.head? = some '-' := rfl
  have minus := Reads.minus starts inner
  rw [Nat.add_assoc] at minus
  exact minus

/-- Chains are continued, and all other phrases are read as themselves. -/
theorem isContinued_or_isRead {category : Category} (phrase : Phrase category) :
    match category, phrase with
    | .chain _, phrase => phrase.IsContinued
    | .operand, phrase | .primary, phrase => phrase.IsRead := by
  induction phrase with
  | @single level only ih =>
    cases level with
    | additive => exact isContinued_single ih.isRead
    | multiplicative => exact isContinued_single ih
  | @link level before op fits last continued ih =>
    cases level with
    | additive => exact isContinued_link fits continued ih.isRead
    | multiplicative => exact isContinued_link fits continued ih
  | minus operand ih => exact isRead_minus ih
  | plain primary ih => exact ih
  | group inner ih => exact isRead_group ih.isRead
  | literal number => exact isRead_literal number
  | letter name known => exact isRead_letter known
  | pi => exact isRead_pi
  | call function argument ih => exact isRead_call ih.isRead

/-- **A phrase is read as itself where it ends.** -/
theorem reads {category : Category} (phrase : Phrase category) : phrase.IsRead := by
  have all := phrase.isContinued_or_isRead
  cases category with
  | chain level => exact IsContinued.isRead all
  | operand => exact all
  | primary => exact all

end Phrase

/-! ## Formulas -/

/-- The expression of a phrase has its value. -/
theorem Phrase.eval_tree {category : Category} (phrase : Phrase category) (x : Float) :
    phrase.tree.eval x = phrase.value x := by
  induction phrase with
  | single only ih => exact ih
  | link before op fits last first second =>
    rw [tree, Expr.eval_binary, first, second]
    rfl
  | minus operand ih =>
    rw [tree, Expr.eval, ih]
    rfl
  | plain primary ih => exact ih
  | group inner ih => exact ih
  | literal | letter | pi => rfl
  | call function argument ih =>
    rw [tree, Expr.eval, ih]
    rfl

/-- Whether a sum is all of a text and costs no more than the limits allow. -/
structure Phrase.Derives (phrase : Phrase .sum) (text : List Char) (limits : Limits) : Prop where
  text : phrase.chars = text
  nesting : phrase.nesting ≤ limits.depth
  charge : phrase.charge ≤ limits.nodes

theorem Yield.allFindings_eq_nil_iff {yield : Yield} :
    yield.allFindings = [] ↔ yield.findings = [] ∧ yield.place.rest = [] := by
  unfold allFindings
  split
  · next ends => simp [ends]
  · next rest left =>
    have nonempty : yield.place.rest ≠ [] := left
    simp [nonempty]

section All

variable {text : List Char} {limits : Limits}

/-- A text that is a phrase is read as its expression. -/
theorem readAll_of_derives {phrase : Phrase .sum} (derives : phrase.Derives text limits) :
    readAll limits text = (phrase.tree, #[]) := by
  have reads := phrase.reads [] 0 (Category.ends_nil _)
  rw [List.append_nil, derives.text] at reads
  exact readAll_of_within reads limits ⟨derives.nesting, derives.charge⟩

/-- A text that is read without findings is a phrase. -/
theorem exists_derives_of_readAll (clean : (readAll limits text).2 = #[]) :
    ∃ phrase : Phrase .sum, phrase.Derives text limits := by
  obtain ⟨yield, reads⟩ := exists_readsAll text
  by_cases within : yield.Within limits.depth limits.nodes
  · rw [readAll_of_within reads limits within] at clean
    have none : yield.allFindings = [] := by simpa using clean
    obtain ⟨findings, ends⟩ := Yield.allFindings_eq_nil_iff.mp none
    obtain ⟨phrase, spells⟩ := Reads.understood reads findings
    obtain ⟨nesting, charge⟩ := within
    have chars : phrase.chars = text := by
      have whole := spells.text
      rw [ends, List.append_nil] at whole
      exact whole.symm
    exact ⟨phrase, chars, spells.nesting ▸ nesting, spells.charge ▸ charge⟩
  · have fatal := readAll_of_beyond reads limits within
    rw [clean] at fatal
    exact absurd fatal (by simp)

end All

/-- **A formula is read without findings exactly when its normal form is a phrase within
the limits, and then its value is that of the phrase**, whose literals stand for the nearest
floating-point numbers. -/
theorem parse_accepts_phrases (text : String) (limits : Limits) :
    ((parse text limits).diagnostics = [] ↔
      ∃ phrase : Phrase .sum, phrase.Derives (Text.normalChars text.toList) limits) ∧
    (∀ phrase : Phrase .sum, phrase.Derives (Text.normalChars text.toList) limits →
      ∀ x, (parse text limits).expr.eval x = phrase.value x) ∧
    ∀ literal : Literal, Binary64.IsRounded literal.decimal literal.value := by
  have read (phrase : Phrase .sum)
      (derives : phrase.Derives (Text.normalChars text.toList) limits) :
      (parse text limits).expr = phrase.tree ∧ (parse text limits).diagnostics = [] := by
    rw [parse_eq, readAll_of_derives derives]
    exact ⟨rfl, rfl⟩
  refine ⟨⟨?_, fun ⟨phrase, derives⟩ => (read phrase derives).2⟩,
    ?_, Literal.value_isRounded⟩
  · intro clean
    exact exists_derives_of_readAll (Array.toList_eq_nil_iff.mp clean)
  · intro phrase derives x
    rw [(read phrase derives).1]
    exact phrase.eval_tree x

end Waveform.Formula
