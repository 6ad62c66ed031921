import Waveform.Proofs.Float.Laws
import Waveform.Proofs.Pulse.Spelled

/-!
# Bare variables

Before a formula is read as pulses, the offset zero is written into every bare variable. That
relates the normal form of the formula to the one that is read (`expands_normalChars`). Where
the latter is a row of spellings so is the former, and the pulses are the same
(`Expands.exists_spellings`). Of a single term it makes no difference to what it is read as
(`Expands.spelled?_eq`).
-/

set_option autoImplicit false

namespace Waveform.ClosedForm

open Formula Pulse

/-- Whether a text in normal form is another one with the offset zero in some of its bare
variables. -/
inductive Expands : List Char → List Char → Prop where
  | nil : Expands [] []
  | cons (c : Char) {short long : List Char} (rest : Expands short long) :
      Expands (c :: short) (c :: long)
  | bare {letter : Char} (known : letter = 'f' ∨ letter = 't') {short long : List Char}
      (rest : Expands short long) :
      Expands ('(' :: letter :: ')' :: short) ('(' :: letter :: '-' :: '0' :: ')' :: long)

theorem Expands.append_left {short long : List Char} (expands : Expands short long) :
    ∀ front : List Char, Expands (front ++ short) (front ++ long)
  | [] => expands
  | c :: front => .cons c (expands.append_left front)

/-- **Writing offsets into a formula expands its normal form.** -/
theorem expands_normalChars (text : List Char) :
    Expands (Text.normalChars text) (Text.normalChars (expandBare text)) := by
  induction text using expandBare.induct with
  | case1 rest ih => exact .bare (.inl rfl) ih
  | case2 rest ih => exact .bare (.inl rfl) ih
  | case3 rest ih => exact .bare (.inr rfl) ih
  | case4 rest ih => exact .bare (.inr rfl) ih
  | case5 c rest _ _ _ _ ih =>
    have unfolded : expandBare (c :: rest) = c :: expandBare rest := by
      rw [expandBare] <;> assumption
    have split (rest : List Char) :
        Text.normalChars (c :: rest) = Text.normalChars [c] ++ Text.normalChars rest :=
      Text.normalChars_append [c] rest
    rw [unfolded, split rest, split (expandBare rest)]
    exact ih.append_left _
  | case6 => exact .nil

/-! ## Taking spellings off -/

/-- Nothing is expanded in a text without an opening parenthesis. -/
theorem Expands.exists_append {front short long : List Char} (plain : ∀ c ∈ front, c ≠ '(')
    (expands : Expands short (front ++ long)) :
    ∃ rest, short = front ++ rest ∧ Expands rest long := by
  induction front generalizing short with
  | nil => exact ⟨short, rfl, expands⟩
  | cons c front ih =>
    have expands : Expands short (c :: (front ++ long)) := expands
    generalize same : front ++ long = tail at expands
    cases expands with
    | cons _ tail =>
      subst same
      obtain ⟨rest, rfl, behind⟩ :=
        ih (fun d member => plain d (List.mem_cons_of_mem c member)) tail
      exact ⟨rest, rfl, behind⟩
    | bare => exact absurd rfl (plain '(' List.mem_cons_self)

theorem ne_open_of_mem_literal (literal : Literal) : ∀ c ∈ literal.chars, c ≠ '(' := by
  rintro c member rfl
  cases literal.isNumeric_of_mem_chars '(' member

theorem ne_open_of_symbol (op : BinaryOp) : op.symbol ≠ '(' := by
  cases op <;> decide

theorem ne_close_of_symbol (op : BinaryOp) : op.symbol ≠ ')' := by
  cases op <;> decide

theorem ne_open_of_mem_offset (offset : Option (AdditiveOp × Literal)) :
    ∀ c ∈ offsetChars offset, c ≠ '(' := by
  cases offset with
  | none => exact fun c member => (List.not_mem_nil member).elim
  | some offset =>
    exact List.forall_mem_cons.mpr ⟨ne_open_of_symbol _, ne_open_of_mem_literal _⟩

theorem ne_open_of_mem_front (spelling : Spelling) : ∀ c ∈ spelling.frontChars, c ≠ '(' := by
  obtain ⟨sign, amplitude, shape, letter, known, offset, width⟩ := spelling
  have first : ∀ c ∈ signChars sign, c ≠ '(' := by
    cases sign with
    | none => exact fun c member => (List.not_mem_nil member).elim
    | some op => exact List.forall_mem_singleton.mpr (ne_open_of_symbol _)
  have second : ∀ c ∈ amplitudeChars amplitude, c ≠ '(' := by
    cases amplitude with
    | none => exact fun c member => (List.not_mem_nil member).elim
    | some number =>
      exact List.forall_mem_append.mpr
        ⟨ne_open_of_mem_literal number, List.forall_mem_singleton.mpr (by decide)⟩
  have third : ∀ c ∈ shape.name.toList, c ≠ '(' := by
    have all : shape.name.toList.all (· != '(') = true := by cases shape <;> decide
    simpa using all
  exact List.forall_mem_append.mpr ⟨List.forall_mem_append.mpr ⟨first, second⟩, third⟩

theorem ne_open_of_mem_back (spelling : Spelling) : ∀ c ∈ spelling.backChars, c ≠ '(' :=
  List.forall_mem_cons.mpr ⟨by decide, List.forall_mem_append.mpr
    ⟨ne_open_of_mem_literal _, List.forall_mem_singleton.mpr (by decide)⟩⟩

/-- The offset that was written in is zero. -/
theorem offset_eq_of_expanded {offset : Option (AdditiveOp × Literal)} {rest long : List Char}
    (same : offsetChars offset ++ ')' :: rest = '-' :: '0' :: ')' :: long) :
    rest = long ∧ 0 - offsetValue offset = 0 - offsetValue none := by
  cases offset with
  | none => cases (List.cons.inj same).1
  | some offset =>
    obtain ⟨⟨op, additive⟩, literal⟩ := offset
    obtain ⟨minus, spelled⟩ :
        op.symbol = '-' ∧ literal.chars ++ ')' :: rest = ['0'] ++ ')' :: long := List.cons.inj same
    obtain rfl : op = .sub := by cases op <;> first | rfl | cases minus
    have stops (behind : List Char) : ∀ c ∈ (')' :: behind).head?, isNumeric c = false := by
      intro c member
      cases member
      rfl
    have digits : ∀ c ∈ ['0'], isNumeric c = true := List.forall_mem_singleton.mpr rfl
    obtain ⟨taken, left⟩ := takeWhile_of_stop literal.isNumeric_of_mem_chars (stops rest)
    obtain ⟨taken', left'⟩ := takeWhile_of_stop digits (stops long)
    have chars : literal.chars = ['0'] := by
      rw [← taken, ← taken', spelled]
    have zero : Binary64.parts literal.value = .zero .positive := by
      rw [← literal.value_ofChars_chars, chars]
      exact Binary64.parts_ofScientific_zero false 0
    refine ⟨?_, ?_⟩
    · have behind : ')' :: rest = ')' :: long := by
        rw [← left, ← left', spelled]
      exact (List.cons.inj behind).2
    · have negated : Binary64.parts (-literal.value) = .zero .negative := by
        rw [Binary64.parts_neg, zero]
        rfl
      change 0 - -1 * literal.value = 0 - 0
      rw [Binary64.neg_one_mul, Binary64.zero_sub_zero negated,
        Binary64.zero_sub_zero Binary64.parts_zero]

/-- A shifted variable comes from itself or from a bare one. -/
theorem Expands.exists_offset {short rest : List Char} {letter : Char}
    {offset : Option (AdditiveOp × Literal)} (known : letter = 'f' ∨ letter = 't')
    (expands : Expands short ('(' :: (letter :: offsetChars offset ++ [')']) ++ rest)) :
    ∃ offset' short', short = '(' :: (letter :: offsetChars offset' ++ [')']) ++ short' ∧
      Expands short' rest ∧ 0 - offsetValue offset' = 0 - offsetValue offset := by
  have plain : ∀ c ∈ letter :: offsetChars offset ++ [')'], c ≠ '(' := by
    refine List.forall_mem_append.mpr ⟨List.forall_mem_cons.mpr ⟨?_, ne_open_of_mem_offset offset⟩,
      List.forall_mem_singleton.mpr (by decide)⟩
    rcases known with rfl | rfl <;> decide
  have expands : Expands short ('(' :: (letter :: offsetChars offset ++ [')'] ++ rest)) := expands
  generalize same : letter :: offsetChars offset ++ [')'] ++ rest = long at expands
  cases expands with
  | cons _ tail =>
    rw [← same] at tail
    obtain ⟨short', rfl, behind⟩ := tail.exists_append plain
    exact ⟨offset, short', rfl, behind, rfl⟩
  | @bare letter' _ short' long' tail =>
    have spelled : letter :: (offsetChars offset ++ ')' :: rest) =
        letter' :: '-' :: '0' :: ')' :: long' := by simpa using same
    obtain ⟨rfl, offsets⟩ := List.cons.inj spelled
    obtain ⟨rfl, value⟩ := offset_eq_of_expanded offsets
    exact ⟨none, short', rfl, tail, value.symm⟩

theorem Expands.exists_spelling {short rest : List Char} {spelling : Spelling}
    (expands : Expands short (spelling.chars ++ rest)) :
    ∃ (like : Spelling) (short' : List Char), short = like.chars ++ short' ∧ Expands short' rest ∧
      like.pulse = spelling.pulse ∧ like.sign = spelling.sign := by
  have split : spelling.chars ++ rest = spelling.frontChars ++ '(' ::
      ('(' :: (spelling.letter :: offsetChars spelling.offset ++ [')']) ++
        (spelling.backChars ++ rest)) := by
    simp [Spelling.chars]
  rw [split] at expands
  obtain ⟨behind, rfl, called⟩ := expands.exists_append (ne_open_of_mem_front spelling)
  generalize inner : '(' :: (spelling.letter :: offsetChars spelling.offset ++ [')']) ++
    (spelling.backChars ++ rest) = argument at called
  cases called with
  | cons _ tail =>
    subst inner
    obtain ⟨offset, behind, rfl, later, center⟩ := tail.exists_offset spelling.known
    obtain ⟨short', rfl, last⟩ := later.exists_append (ne_open_of_mem_back spelling)
    refine ⟨{ spelling with offset }, short', ?_, last, ?_, rfl⟩
    · simp [Spelling.chars, Spelling.frontChars, Spelling.backChars]
    · simp only [Spelling.pulse, center]
  | bare known =>
    obtain ⟨first, _⟩ := List.cons.inj inner
    subst first
    rcases known with known | known <;> cases known

/-- **What is expanded to a row of spellings is a row of spellings of the same pulses.** -/
theorem Expands.exists_spellings {spellings : List Spelling} {short : List Char}
    (expands : Expands short (spellings.map Spelling.chars).flatten) :
    ∃ likes : List Spelling, short = (likes.map Spelling.chars).flatten ∧
      likes.map Spelling.pulse = spellings.map Spelling.pulse ∧
      likes.map Spelling.sign = spellings.map Spelling.sign := by
  induction spellings generalizing short with
  | nil =>
    cases expands
    exact ⟨[], rfl, rfl, rfl⟩
  | cons spelling spellings ih =>
    obtain ⟨like, behind, rfl, tail, pulse, sign⟩ := expands.exists_spelling
    obtain ⟨likes, rfl, pulses, signs⟩ := ih tail
    exact ⟨like :: likes, rfl, congrArg₂ List.cons pulse pulses, congrArg₂ List.cons sign signs⟩

/-! ## Writing offsets into spellings -/

theorem Expands.exists_of_append {front short long : List Char} (plain : ∀ c ∈ front, c ≠ '(')
    (expands : Expands (front ++ short) long) :
    ∃ rest, long = front ++ rest ∧ Expands short rest := by
  induction front generalizing long with
  | nil => exact ⟨long, rfl, expands⟩
  | cons c front ih =>
    have expands : Expands (c :: (front ++ short)) long := expands
    generalize same : front ++ short = tail at expands
    cases expands with
    | cons _ tail =>
      subst same
      obtain ⟨rest, rfl, behind⟩ :=
        ih (fun d member => plain d (List.mem_cons_of_mem c member)) tail
      exact ⟨rest, rfl, behind⟩
    | bare => exact absurd rfl (plain '(' List.mem_cons_self)

/-- The offset that is written into a bare variable. -/
def zeroOffset : AdditiveOp × Literal :=
  (⟨.sub, rfl⟩, .ofDigit '0' rfl)

theorem sub_offsetValue_zeroOffset :
    0 - offsetValue (some zeroOffset) = 0 - offsetValue none := by
  have written : offsetChars (some zeroOffset) ++ [')'] = ['-', '0', ')'] := rfl
  exact (offset_eq_of_expanded written).2

theorem chars_eq (spelling : Spelling) :
    spelling.chars = spelling.frontChars ++ '(' :: '(' ::
      (spelling.letter :: offsetChars spelling.offset ++ ')' :: spelling.backChars) := by
  simp [Spelling.chars]

/-- What a spelling is expanded to is a spelling of the same pulse. -/
theorem Expands.exists_expanded {spelling : Spelling} {long : List Char}
    (expands : Expands spelling.chars long) :
    ∃ like : Spelling, long = like.chars ∧ like.pulse = spelling.pulse := by
  have back := ne_open_of_mem_back spelling
  rw [chars_eq] at expands
  obtain ⟨behind, rfl, called⟩ := expands.exists_of_append (ne_open_of_mem_front spelling)
  generalize inner : '(' :: (spelling.letter :: offsetChars spelling.offset ++
    ')' :: spelling.backChars) = argument at called
  cases called with
  | cons _ tail =>
    subst inner
    generalize shifted : spelling.letter :: offsetChars spelling.offset ++
      ')' :: spelling.backChars = argument at tail
    cases tail with
    | cons _ tail =>
      have plain : ∀ c ∈ argument, c ≠ '(' := by
        rw [← shifted]
        refine List.forall_mem_append.mpr ⟨List.forall_mem_cons.mpr
          ⟨?_, ne_open_of_mem_offset _⟩, List.forall_mem_cons.mpr ⟨by decide, back⟩⟩
        rcases spelling.known with known | known <;> rw [known] <;> decide
      rw [← List.append_nil argument] at tail
      obtain ⟨_, rfl, none⟩ := tail.exists_of_append plain
      cases none
      refine ⟨spelling, ?_, rfl⟩
      rw [chars_eq, ← shifted, List.append_nil]
    | @bare letter known short' long' tail =>
      have bare : spelling.letter :: (offsetChars spelling.offset ++ ')' :: spelling.backChars) =
          letter :: ')' :: short' := shifted
      obtain ⟨rfl, rest⟩ := List.cons.inj bare
      obtain ⟨noOffset, rfl⟩ : spelling.offset = none ∧ spelling.backChars = short' := by
        cases offset : spelling.offset with
        | none =>
          rw [offset] at rest
          exact ⟨rfl, (List.cons.inj rest).2⟩
        | some signed =>
          rw [offset] at rest
          exact absurd (List.cons.inj rest).1 (ne_close_of_symbol signed.1.val)
      rw [← List.append_nil spelling.backChars] at tail
      obtain ⟨_, rfl, none⟩ := tail.exists_of_append back
      cases none
      refine ⟨{ spelling with offset := some zeroOffset }, ?_, ?_⟩
      · rw [chars_eq, List.append_nil]
        rfl
      · simp only [Spelling.pulse, noOffset, sub_offsetValue_zeroOffset]
  | bare known =>
    obtain ⟨first, _⟩ := List.cons.inj inner
    subst first
    rcases known with known | known <;> cases known

/-- **Offsets that are written in do not change what a text is read as.** -/
theorem Expands.spelled?_eq {short long : List Char} (expands : Expands short long) :
    spelled? long = spelled? short := by
  cases found : spelled? short with
  | some pulse =>
    obtain ⟨spelling, rfl, rfl⟩ := exists_of_spelled? found
    obtain ⟨like, rfl, same⟩ := expands.exists_expanded
    rw [spelled?_chars, same]
  | none =>
    cases found' : spelled? long with
    | none => rfl
    | some pulse =>
      obtain ⟨spelling, rfl, rfl⟩ := exists_of_spelled? found'
      rw [← List.append_nil spelling.chars] at expands
      obtain ⟨like, rest, rfl, none, _⟩ := expands.exists_spelling
      cases none
      rw [List.append_nil, spelled?_chars] at found
      cases found

end Waveform.ClosedForm
