import Waveform.Proofs.Formula.Acceptance
import Waveform.Pulse.ClosedForm

/-!
# Spelled pulses

A text that is read as a pulse is made of parts in a fixed order: a sign, an amplitude, the
name of the shape, the shifted variable and the width. A spelling has these parts, its
characters and its pulse, and what is read as a pulse is a spelling of it
(`exists_of_spelled?`).

So a formula that is read as pulses without findings is a row of spellings, where all but the
first have a sign (`ClosedForm.exists_spellings`).
-/

set_option autoImplicit false

namespace Waveform.Pulse

open Formula

/-! ## Spellings -/

/-- A sign, as the operator that it is between summands. -/
abbrev AdditiveOp :=
  { op : BinaryOp // op.level = .additive }

/-- The factor that a sign stands for. -/
def AdditiveOp.factor (op : AdditiveOp) : Float :=
  match op.val with
  | .sub => -1
  | _ => 1

/-- A pulse as a formula spells it. -/
structure Spelling where
  sign : Option AdditiveOp
  amplitude : Option Literal
  shape : Shape
  letter : Char
  known : letter = 'f' ∨ letter = 't'
  /-- What is added to the variable or taken off it. -/
  offset : Option (AdditiveOp × Literal)
  width : Literal

/-- The characters of an optional sign. -/
def signChars (sign : Option AdditiveOp) : List Char :=
  sign.elim [] fun op => [op.val.symbol]

/-- The factor of an optional sign. -/
def signFactor (sign : Option AdditiveOp) : Float :=
  sign.elim 1 AdditiveOp.factor

/-- The characters of an optional amplitude. -/
def amplitudeChars (amplitude : Option Literal) : List Char :=
  amplitude.elim [] fun number => number.chars ++ ['*']

/-- An amplitude with its sign. -/
def signedAmplitude (sign : Option AdditiveOp) (amplitude : Option Literal) : Float :=
  amplitude.elim (signFactor sign) fun number => signFactor sign * number.value

/-- The characters of an optional offset. -/
def offsetChars (offset : Option (AdditiveOp × Literal)) : List Char :=
  offset.elim [] fun (op, number) => op.val.symbol :: number.chars

/-- What an optional offset adds to the variable. -/
def offsetValue (offset : Option (AdditiveOp × Literal)) : Float :=
  offset.elim 0 fun (op, number) => op.factor * number.value

namespace Spelling

/-- The characters in front of the first parenthesis. -/
def frontChars (spelling : Spelling) : List Char :=
  signChars spelling.sign ++ amplitudeChars spelling.amplitude ++ spelling.shape.name.toList

/-- The characters behind the shifted variable. -/
def backChars (spelling : Spelling) : List Char :=
  '/' :: spelling.width.chars ++ [')']

/-- The characters of a spelling. -/
def chars (spelling : Spelling) : List Char :=
  spelling.frontChars ++ '(' :: '(' :: spelling.letter :: offsetChars spelling.offset ++
    ')' :: spelling.backChars

/-- The pulse that is spelled. -/
def pulse (spelling : Spelling) : Pulse where
  amplitude := signedAmplitude spelling.sign spelling.amplitude
  shape := spelling.shape
  center := 0 - offsetValue spelling.offset
  width := spelling.width.value

end Spelling

/-! ## Reading the parts -/

section Take

variable {text rest : List Char}

theorem takeNumber?_eq_some {number : Float} (found : takeNumber? text = some (number, rest)) :
    ∃ literal : Literal, text = literal.chars ++ rest ∧ literal.value = number := by
  unfold takeNumber? at found
  dsimp only at found
  split at found
  · next digit =>
    cases found
    exact Literal.exists_of_hasDigit digit
  · cases found

theorem takeSign_eq {factor : Float} (found : takeSign text = (factor, rest)) :
    ∃ sign, text = signChars sign ++ rest ∧ signFactor sign = factor := by
  unfold takeSign at found
  split at found
  · cases found
    exact ⟨some ⟨.sub, rfl⟩, rfl, rfl⟩
  · cases found
    exact ⟨some ⟨.add, rfl⟩, rfl, rfl⟩
  · cases found
    exact ⟨none, rfl, rfl⟩

theorem takeAmplitude?_eq_some {value : Float} (found : takeAmplitude? text = some (value, rest)) :
    ∃ sign amplitude, text = signChars sign ++ amplitudeChars amplitude ++ rest ∧
      signedAmplitude sign amplitude = value := by
  unfold takeAmplitude? at found
  obtain ⟨factor, behind, signed⟩ : ∃ factor behind, takeSign text = (factor, behind) :=
    ⟨_, _, rfl⟩
  obtain ⟨sign, rfl, rfl⟩ := takeSign_eq signed
  rw [signed] at found
  dsimp only at found
  split at found
  · next number behind' taken =>
    cases found
    obtain ⟨literal, rfl, rfl⟩ := takeNumber?_eq_some taken
    exact ⟨sign, some literal, by simp [amplitudeChars], rfl⟩
  · cases found
  · cases found
    exact ⟨sign, none, by simp [amplitudeChars], rfl⟩

theorem takeShape?_eq_some {shape : Shape} (found : takeShape? text = some (shape, rest)) :
    text = shape.name.toList ++ rest := by
  unfold takeShape? at found
  split at found
  · cases found
    rfl
  · cases found
    rfl
  · cases found

theorem takeOffset?_eq_some {value : Float} (found : takeOffset? text = some (value, rest)) :
    ∃ offset, text = offsetChars offset ++ rest ∧ offsetValue offset = value := by
  unfold takeOffset? at found
  split at found
  · next c behind =>
    split at found
    · next signed =>
      obtain ⟨⟨number, behind'⟩, taken, same⟩ := Option.bind_eq_some_iff.mp found
      cases same
      obtain ⟨literal, rfl, rfl⟩ := takeNumber?_eq_some taken
      simp only [Bool.or_eq_true, decide_eq_true_eq] at signed
      rcases signed with rfl | rfl
      · exact ⟨some (⟨.add, rfl⟩, literal), rfl, rfl⟩
      · exact ⟨some (⟨.sub, rfl⟩, literal), rfl, rfl⟩
    · cases found
      exact ⟨none, rfl, rfl⟩
  · cases found
    exact ⟨none, rfl, rfl⟩

theorem takeCenter?_eq_some {center : Float} (found : takeCenter? text = some (center, rest)) :
    ∃ letter offset, (letter = 'f' ∨ letter = 't') ∧
      text = '(' :: letter :: offsetChars offset ++ ')' :: rest ∧
      0 - offsetValue offset = center := by
  unfold takeCenter? at found
  split at found
  · next letter behind =>
    split at found
    · next known =>
      simp only [Bool.or_eq_true, decide_eq_true_eq] at known
      split at found
      · next value behind' taken =>
        cases found
        obtain ⟨offset, rfl, rfl⟩ := takeOffset?_eq_some taken
        exact ⟨letter, offset, known, rfl, rfl⟩
      · cases found
    · cases found
  · cases found

theorem takeWidth?_eq_some {width : Float} (found : takeWidth? text = some (width, rest)) :
    ∃ literal : Literal, text = '/' :: literal.chars ++ rest ∧ literal.value = width := by
  unfold takeWidth? at found
  split at found
  · next behind =>
    obtain ⟨literal, rfl, value⟩ := takeNumber?_eq_some found
    exact ⟨literal, rfl, value⟩
  · cases found

theorem readArgument?_eq_some {center width : Float}
    (found : readArgument? text = some (center, width)) :
    ∃ letter offset, ∃ literal : Literal, (letter = 'f' ∨ letter = 't') ∧
      text = '(' :: '(' :: letter :: offsetChars offset ++ ')' :: '/' :: literal.chars ++ [')'] ∧
      0 - offsetValue offset = center ∧ literal.value = width := by
  unfold readArgument? at found
  split at found
  · next inner =>
    obtain ⟨⟨center', behind⟩, centered, found⟩ := Option.bind_eq_some_iff.mp found
    obtain ⟨⟨width', last⟩, divided, found⟩ := Option.bind_eq_some_iff.mp found
    obtain ⟨_, closed, same⟩ := Option.bind_eq_some_iff.mp found
    cases same
    obtain ⟨letter, offset, known, rfl, value⟩ := takeCenter?_eq_some centered
    obtain ⟨literal, rfl, value'⟩ := takeWidth?_eq_some divided
    have closed : last = [')'] := by simpa [guard] using closed
    refine ⟨letter, offset, literal, known, ?_, value, value'⟩
    rw [closed]
    simp
  · cases found

end Take

/-- **A text that is read as a pulse is a spelling of it.** -/
theorem exists_of_spelled? {text : List Char} {pulse : Pulse} (found : spelled? text = some pulse) :
    ∃ spelling : Spelling, text = spelling.chars ∧ spelling.pulse = pulse := by
  obtain ⟨⟨amplitude, behind⟩, scaled, found⟩ := Option.bind_eq_some_iff.mp found
  obtain ⟨⟨shape, argument⟩, named, found⟩ := Option.bind_eq_some_iff.mp found
  obtain ⟨⟨center, width⟩, called, same⟩ := Option.bind_eq_some_iff.mp found
  cases same
  obtain ⟨sign, number, rfl, rfl⟩ := takeAmplitude?_eq_some scaled
  obtain rfl := takeShape?_eq_some named
  obtain ⟨letter, offset, literal, known, rfl, rfl, rfl⟩ := readArgument?_eq_some called
  refine ⟨⟨sign, number, shape, letter, known, offset, literal⟩, ?_, rfl⟩
  simp [Spelling.chars, Spelling.frontChars, Spelling.backChars]

/-! ## Reading spellings -/

section Spelled

variable {rest : List Char}

theorem takeNumber?_chars (literal : Literal) (stops : ∀ c ∈ rest.head?, isNumeric c = false) :
    takeNumber? (literal.chars ++ rest) = some (literal.value, rest) := by
  have alone : (NumberRun.ofChars literal.chars).hasDigit = true :=
    (Bool.and_eq_true_iff.mp literal.isNumber_chars).1
  have digit : (NumberRun.ofChars (literal.chars ++ rest)).hasDigit = true := by
    rw [literal.ofChars_chars] at alone
    rwa [literal.ofChars_append stops]
  have value : (NumberRun.ofChars (literal.chars ++ rest)).value = literal.value := by
    rw [← literal.value_ofChars_chars, NumberRun.value, if_pos digit, NumberRun.value,
      if_pos alone, literal.ofChars_chars, literal.ofChars_append stops]
  unfold takeNumber?
  dsimp only
  rw [if_pos digit, value, literal.ofChars_append stops]

/-- No number starts with another character than a digit or a point. -/
theorem takeNumber?_eq_none {text : List Char} (stops : ∀ c ∈ text.head?, isNumeric c = false) :
    takeNumber? text = none := by
  cases found : takeNumber? text with
  | none => rfl
  | some taken =>
    obtain ⟨literal, rfl, _⟩ := takeNumber?_eq_some found
    obtain ⟨c, digits, spelled⟩ := List.exists_cons_of_ne_nil literal.chars_ne_nil
    have numeric := literal.isNumeric_of_mem_chars c (by rw [spelled]; exact List.mem_cons_self)
    rw [stops c (by rw [spelled]; rfl)] at numeric
    cases numeric

theorem takeSign_chars (sign : Option AdditiveOp) (unsigned : ∀ c ∈ rest.head?, isSign c = false) :
    takeSign (signChars sign ++ rest) = (signFactor sign, rest) := by
  cases sign with
  | none =>
    have notMinus : ∀ behind, rest = '-' :: behind → False := by
      rintro behind rfl
      cases unsigned '-' rfl
    have notPlus : ∀ behind, rest = '+' :: behind → False := by
      rintro behind rfl
      cases unsigned '+' rfl
    simp only [signChars, Option.elim_none, List.nil_append, takeSign]
    rfl
  | some op =>
    obtain ⟨op, additive⟩ := op
    cases op with
    | add | sub => rfl
    | mul | div => cases additive

theorem isSign_of_isNumeric {c : Char} (numeric : isNumeric c = true) : isSign c = false := by
  refine Bool.eq_false_iff.mpr ?_
  intro sign
  simp only [isSign, Bool.or_eq_true, beq_iff_eq] at sign
  rcases sign with rfl | rfl <;> cases numeric

/-- A literal starts with a digit or a point. -/
theorem isSign_of_head?_literal (literal : Literal) :
    ∀ c ∈ (literal.chars ++ rest).head?, isSign c = false := by
  obtain ⟨d, digits, spelled⟩ := List.exists_cons_of_ne_nil literal.chars_ne_nil
  rw [spelled]
  intro c first
  cases first
  exact isSign_of_isNumeric (literal.isNumeric_of_mem_chars d (by rw [spelled]; exact .head _))

/-- The name of a shape starts with a letter. -/
theorem isSign_of_head?_name (shape : Shape) (rest : List Char) :
    ∀ c ∈ (shape.name.toList ++ rest).head?, isSign c = false ∧ isNumeric c = false := by
  cases shape with
  | rect | tri =>
    intro c first
    cases first
    exact ⟨rfl, rfl⟩

theorem takeAmplitude?_chars (sign : Option AdditiveOp) (amplitude : Option Literal)
    (shape : Shape) :
    takeAmplitude? (signChars sign ++ (amplitudeChars amplitude ++ (shape.name.toList ++ rest))) =
      some (signedAmplitude sign amplitude, shape.name.toList ++ rest) := by
  have named := isSign_of_head?_name shape rest
  unfold takeAmplitude?
  cases amplitude with
  | none =>
    dsimp only [amplitudeChars, Option.elim_none, List.nil_append]
    rw [takeSign_chars sign fun c first => (named c first).1]
    dsimp only
    rw [takeNumber?_eq_none fun c first => (named c first).2]
    rfl
  | some number =>
    have spelled : amplitudeChars (some number) ++ (shape.name.toList ++ rest) =
        number.chars ++ '*' :: (shape.name.toList ++ rest) := by
      simp [amplitudeChars]
    have stops : ∀ c ∈ ('*' :: (shape.name.toList ++ rest)).head?, isNumeric c = false := by
      intro c first
      cases first
      rfl
    rw [spelled, takeSign_chars sign (isSign_of_head?_literal number)]
    dsimp only
    rw [takeNumber?_chars number stops]
    rfl

theorem takeShape?_chars (shape : Shape) :
    takeShape? (shape.name.toList ++ rest) = some (shape, rest) := by
  cases shape <;> rfl

theorem isNumeric_of_head?_close (rest : List Char) :
    ∀ c ∈ (')' :: rest).head?, isNumeric c = false := by
  intro c first
  cases first
  rfl

theorem takeOffset?_chars (offset : Option (AdditiveOp × Literal)) :
    takeOffset? (offsetChars offset ++ ')' :: rest) = some (offsetValue offset, ')' :: rest) := by
  cases offset with
  | none => rfl
  | some offset =>
    obtain ⟨⟨op, additive⟩, number⟩ := offset
    have taken := takeNumber?_chars number (isNumeric_of_head?_close rest)
    cases op with
    | add | sub =>
      dsimp only [offsetChars, Option.elim_some, List.cons_append, takeOffset?]
      rw [taken]
      rfl
    | mul | div => cases additive

theorem takeCenter?_chars {letter : Char} (known : letter = 'f' ∨ letter = 't')
    (offset : Option (AdditiveOp × Literal)) :
    takeCenter? ('(' :: letter :: (offsetChars offset ++ ')' :: rest)) =
      some (0 - offsetValue offset, rest) := by
  have known : (letter = 'f' || letter = 't') = true := by simpa using known
  simp only [takeCenter?, known, if_true, takeOffset?_chars offset]

theorem readArgument?_chars {letter : Char} (known : letter = 'f' ∨ letter = 't')
    (offset : Option (AdditiveOp × Literal)) (width : Literal) :
    readArgument? ('(' :: '(' :: letter :: (offsetChars offset ++
        ')' :: '/' :: (width.chars ++ [')']))) = some (0 - offsetValue offset, width.value) := by
  have taken := takeNumber?_chars width (isNumeric_of_head?_close [])
  simp only [readArgument?, takeCenter?_chars known, Option.bind_eq_bind, Option.bind_some,
    takeWidth?, taken]
  rfl

end Spelled

/-- **A spelling is read as its pulse.** -/
theorem spelled?_chars (spelling : Spelling) : spelled? spelling.chars = some spelling.pulse := by
  have split : spelling.chars = signChars spelling.sign ++ (amplitudeChars spelling.amplitude ++
      (spelling.shape.name.toList ++ ('(' :: '(' :: spelling.letter ::
        (offsetChars spelling.offset ++ ')' :: '/' :: (spelling.width.chars ++ [')']))))) := by
    simp [Spelling.chars, Spelling.frontChars, Spelling.backChars]
  simp only [split, spelled?, takeAmplitude?_chars, takeShape?_chars,
    readArgument?_chars spelling.known, Option.bind_eq_bind, Option.bind_some]
  rfl

/-- A text is read as a pulse exactly when it is a spelling of it. -/
theorem spelled?_eq_some_iff {text : List Char} {pulse : Pulse} :
    spelled? text = some pulse ↔
      ∃ spelling : Spelling, text = spelling.chars ∧ spelling.pulse = pulse := by
  constructor
  · exact exists_of_spelled?
  · rintro ⟨spelling, rfl, rfl⟩
    exact spelled?_chars spelling

/-! ## Summands -/

/-- Cutting a text loses nothing. -/
theorem flatten_cut (nesting : ℕ) (text : List Char) :
    (cut nesting text).1 ++ (cut nesting text).2.flatten = text := by
  induction text generalizing nesting with
  | nil => rfl
  | cons c text ih =>
    have rest := ih (nestingAfter nesting c)
    simp only [cut]
    split
    · simpa using rest
    · simpa using rest

theorem flatten_summands (text : List Char) : (summands text).flatten = text := by
  have whole := flatten_cut 0 text
  unfold summands
  split
  · next later same => simpa [same] using whole
  · next term later _ same => simpa [same] using whole

/-- Behind a cut there is a sign. -/
theorem isSign_of_mem_cut (nesting : ℕ) (text : List Char) :
    ∀ term ∈ (cut nesting text).2, ∃ c rest, term = c :: rest ∧ isSign c = true := by
  induction text generalizing nesting with
  | nil => exact fun term member => (List.not_mem_nil member).elim
  | cons c text ih =>
    have rest := ih (nestingAfter nesting c)
    simp only [cut]
    split
    · next sign =>
      intro term member
      rcases List.mem_cons.mp member with rfl | later
      · exact ⟨c, _, rfl, (Bool.and_eq_true_iff.mp sign).1⟩
      · exact rest term later
    · exact rest

theorem isSign_of_mem_summands (text : List Char) :
    ∀ term ∈ (summands text).tail, ∃ c rest, term = c :: rest ∧ isSign c = true := by
  have signed := isSign_of_mem_cut 0 text
  unfold summands
  split
  · next later same =>
    rw [same] at signed
    exact fun term member => signed term (List.mem_of_mem_tail member)
  · next term later _ same =>
    rw [same] at signed
    exact signed

/-- A spelling that starts with a sign has one. -/
theorem Spelling.sign_ne_none {spelling : Spelling} {c : Char} {rest : List Char}
    (starts : spelling.chars = c :: rest) (signed : isSign c = true) : spelling.sign ≠ none := by
  obtain ⟨sign, amplitude, shape, letter, known, offset, width⟩ := spelling
  rintro rfl
  have first : c ∈ (c :: rest).head? := rfl
  rw [← starts] at first
  have unsigned : isSign c = false := by
    simp only [chars, frontChars, signChars, Option.elim_none, List.nil_append,
      List.append_assoc] at first
    cases amplitude with
    | none => exact (isSign_of_head?_name shape _ c first).1
    | some number =>
      simp only [amplitudeChars, Option.elim_some, List.append_assoc] at first
      exact isSign_of_head?_literal number c first
  rw [signed] at unsigned
  cases unsigned

end Waveform.Pulse

namespace Waveform.ClosedForm

open Pulse

/-! ## Formulas -/

theorem exists_of_ofSummand {term : List Char} {pulse : Pulse} (read : ofSummand term = .ok pulse) :
    ∃ spelling : Spelling, term = spelling.chars ∧ spelling.pulse = pulse ∧
      pulse.hasSupport = true := by
  unfold ofSummand at read
  split at read
  · cases read
  · next found =>
    split at read
    · next support =>
      cases read
      obtain ⟨spelling, chars, rfl⟩ := exists_of_spelled? found
      exact ⟨spelling, chars, rfl, support⟩
    · cases read

/-- Summands that are all read as pulses are spellings of these. -/
theorem exists_spellings_of_terms {terms : List (List Char)}
    (clean : (terms.map ofSummand).filterMap (fun reading =>
      match reading with
      | .ok _ => none
      | .error finding => some finding) = []) :
    ∃ spellings : List Spelling, terms = spellings.map Spelling.chars ∧
      (terms.map ofSummand).filterMap (fun reading =>
        match reading with
        | .ok pulse => some pulse
        | .error _ => none) = spellings.map Spelling.pulse ∧
      ∀ spelling ∈ spellings, spelling.pulse.hasSupport = true := by
  induction terms with
  | nil => exact ⟨[], rfl, rfl, fun spelling member => (List.not_mem_nil member).elim⟩
  | cons term terms ih =>
    rw [List.map_cons, List.filterMap_cons] at clean
    cases read : ofSummand term with
    | error finding =>
      rw [read] at clean
      cases clean
    | ok pulse =>
      rw [read] at clean
      obtain ⟨spelling, same, rfl, support⟩ := exists_of_ofSummand read
      obtain ⟨spellings, same', values, supports⟩ := ih clean
      refine ⟨spelling :: spellings, by rw [same, same', List.map_cons], ?_,
        List.forall_mem_cons.mpr ⟨support, supports⟩⟩
      rw [List.map_cons, List.filterMap_cons, read, List.map_cons, ← values]

/-- **A formula that is read as pulses without findings is a row of spellings**, where all but
the first have a sign. -/
theorem exists_spellings {text : List Char} (clean : (ofNormal text).diagnostics = []) :
    ∃ spellings : List Spelling, text = (spellings.map Spelling.chars).flatten ∧
      (ofNormal text).pulses = spellings.map Spelling.pulse ∧
      (∀ pulse ∈ (ofNormal text).pulses, pulse.hasSupport = true) ∧
      ∀ spelling ∈ spellings.tail, spelling.sign ≠ none := by
  obtain ⟨spellings, terms, pulses, supports⟩ := exists_spellings_of_terms clean
  have pulses : (ofNormal text).pulses = spellings.map Spelling.pulse := pulses
  refine ⟨spellings, ?_, pulses, ?_, ?_⟩
  · rw [← terms, flatten_summands]
  · rw [pulses]
    exact List.forall_mem_map.mpr supports
  · intro spelling member
    have term : spelling.chars ∈ (summands text).tail := by
      rw [terms, ← List.map_tail]
      exact List.mem_map_of_mem member
    obtain ⟨c, rest, starts, signed⟩ := isSign_of_mem_summands text _ term
    exact Spelling.sign_ne_none starts signed

end Waveform.ClosedForm
