import Waveform.Proofs.Pulse.Agreement
import Waveform.Proofs.Pulse.Summands

/-!
# Summands and the operands of a sum

A formula of the grammar is cut into summands at its characters, and not at the operands of its
sum. Every operand begins at a cut, so no summand reaches over two operands
(`summands_chars`), and an operand that is a pulse is a single summand
(`summands_of_pulse?`). But an operand may be cut further, in front of a sign that stands behind
an operator: `2*-rect((f)/2)` is one operand, which is no pulse, and its second summand is one.

So the pulses of a formula are those of the operands of its sum, unless a piece of an operand that
is no pulse looks like one (`parseClosedForm_pulses_of_clean`). Without signs behind operators
there are no such pieces.
-/

set_option autoImplicit false

namespace Waveform.Formula.Phrase

/-! ## Operands and their signs -/

/-- The operands of a chain, each but the first with the operator in front of it. -/
def operands : {level : Level} → Phrase (.chain level) → List (List Char)
  | _, .single only => [only.chars]
  | _, .link before op _ last => before.operands ++ [op.symbol :: last.chars]

/-- How many signs of a phrase are outside of parentheses. -/
def looseSigns : {category : Category} → Phrase category → Nat
  | _, .single only => only.looseSigns
  | _, .link before _ _ last => before.looseSigns + last.looseSigns
  | _, .minus operand => operand.looseSigns + 1
  | _, .plain _ | _, .group _ | _, .literal _ | _, .letter _ _ | _, .pi | _, .call _ _ => 0

/-- How many of these stand behind an operator or another sign. -/
def lateSigns : {category : Category} → Phrase category → Nat
  | _, .single only => only.lateSigns
  | _, .link before _ _ last => before.lateSigns + last.looseSigns
  | _, .minus operand => operand.looseSigns
  | _, .plain _ | _, .group _ | _, .literal _ | _, .letter _ _ | _, .pi | _, .call _ _ => 0

theorem chars_ne_nil {category : Category} (phrase : Phrase category) : phrase.chars ≠ [] := by
  induction phrase with
  | single only ih => exact ih
  | plain only ih => exact ih
  | literal number => exact number.chars_ne_nil
  | _ => simp [chars]

end Waveform.Formula.Phrase

namespace Waveform.Pulse

open Formula

/-! ## Parentheses -/

theorem nestingBehind_of_plain {text : List Char} (plain : ∀ c ∈ text, c ≠ '(' ∧ c ≠ ')')
    (nesting : Nat) : nestingBehind nesting text = nesting := by
  induction text with
  | nil => rfl
  | cons c text ih =>
    obtain ⟨⟨notOpen, notClose⟩, rest⟩ := List.forall_mem_cons.mp plain
    rw [nestingBehind_cons, nestingAfter, if_neg notOpen, if_neg notClose, ih rest]

theorem plain_of_mem_literal (number : Literal) : ∀ c ∈ number.chars, c ≠ '(' ∧ c ≠ ')' := by
  intro c member
  have numeric := number.isNumeric_of_mem_chars c member
  constructor <;> rintro rfl <;> cases numeric

theorem plain_of_mem_name (function : Builtin) :
    ∀ c ∈ function.name.toList, c ≠ '(' ∧ c ≠ ')' := by
  intro c member
  have lower := isLower_of_mem_name function c member
  constructor <;> rintro rfl <;> cases lower

/-- A phrase closes each parenthesis that it opens. -/
theorem nestingBehind_chars {category : Category} (phrase : Phrase category) (nesting : Nat) :
    nestingBehind nesting phrase.chars = nesting := by
  induction phrase generalizing nesting with
  | single only ih => exact ih nesting
  | link before op fits last first second =>
    have symbol : nestingAfter nesting op.symbol = nesting := by cases op <;> rfl
    rw [Phrase.chars, nestingBehind_append, first, nestingBehind_cons, symbol, second]
  | minus operand ih => exact ih nesting
  | plain only ih => exact ih nesting
  | group inner ih =>
    simp only [Phrase.chars, nestingBehind_append, nestingBehind_cons, ih]
    rfl
  | literal number => exact nestingBehind_of_plain (plain_of_mem_literal number) nesting
  | letter name known => rcases known with rfl | rfl <;> rfl
  | pi => rfl
  | call function argument ih =>
    simp only [Phrase.chars, nestingBehind_append, nestingBehind_cons,
      nestingBehind_of_plain (plain_of_mem_name function), ih]
    rfl

/-! ## Text without a cut -/

/-- Whether a text is not cut, with `nesting` parentheses open in front of it. -/
def IsUncut (nesting : Nat) (text : List Char) : Prop :=
  cut nesting text = (text, [])

theorem isUncut_cons_iff {nesting : Nat} {c : Char} {text : List Char} :
    IsUncut nesting (c :: text) ↔
      (isSign c = false ∨ nesting ≠ 0) ∧ IsUncut (nestingAfter nesting c) text := by
  have keeps : (isSign c && nesting == 0) = false ↔ isSign c = false ∨ nesting ≠ 0 := by
    rw [Bool.and_eq_false_iff, beq_eq_false_iff_ne]
  simp only [IsUncut, cut]
  split
  · next cuts =>
    rw [← keeps, cuts]
    simp
  · next whole =>
    rw [← keeps, Bool.eq_false_iff.mpr whole]
    simp [Prod.ext_iff]

theorem IsUncut.append {nesting : Nat} {first second : List Char} (uncut : IsUncut nesting first)
    (uncut' : IsUncut (nestingBehind nesting first) second) :
    IsUncut nesting (first ++ second) := by
  induction first generalizing nesting with
  | nil => exact uncut'
  | cons c first ih =>
    obtain ⟨keeps, rest⟩ := isUncut_cons_iff.mp uncut
    exact isUncut_cons_iff.mpr ⟨keeps, ih rest uncut'⟩

theorem isUncut_of_unsigned {text : List Char} (unsigned : ∀ c ∈ text, isSign c = false)
    (nesting : Nat) : IsUncut nesting text := by
  induction text generalizing nesting with
  | nil => rfl
  | cons c text ih =>
    obtain ⟨first, rest⟩ := List.forall_mem_cons.mp unsigned
    exact isUncut_cons_iff.mpr ⟨.inl first, ih rest _⟩

theorem isUncut_literal (number : Literal) (nesting : Nat) : IsUncut nesting number.chars :=
  isUncut_of_unsigned (fun c member => isSign_of_isNumeric (number.isNumeric_of_mem_chars c member))
    nesting

theorem isUncut_name (function : Builtin) (nesting : Nat) :
    IsUncut nesting function.name.toList := by
  apply isUncut_of_unsigned
  have all : function.name.toList.all (isSign · == false) = true := by cases function <;> decide
  simpa using all

/-- What is not cut where a parenthesis is open is not cut in parentheses of its own. -/
theorem isUncut_enclosed {inner : Phrase .sum} {nesting : Nat}
    (uncut : IsUncut (nesting + 1) inner.chars) :
    IsUncut nesting ('(' :: inner.chars ++ [')']) := by
  have closed : IsUncut (nesting + 1) (inner.chars ++ [')']) := by
    refine uncut.append ?_
    rw [nestingBehind_chars]
    exact isUncut_cons_iff.mpr ⟨.inl rfl, rfl⟩
  exact isUncut_cons_iff.mpr ⟨.inl rfl, closed⟩

theorem isUncut_call {function : Builtin} {argument : Phrase .sum} {nesting : Nat}
    (uncut : IsUncut (nesting + 1) argument.chars) :
    IsUncut nesting (Phrase.call function argument).chars := by
  rw [Phrase.chars, List.append_assoc]
  refine (isUncut_name function nesting).append ?_
  rw [nestingBehind_of_plain (plain_of_mem_name function)]
  exact isUncut_enclosed uncut

/-- Where a parenthesis is open, no phrase is cut. -/
theorem isUncut_inside {category : Category} (phrase : Phrase category) (nesting : Nat) :
    IsUncut (nesting + 1) phrase.chars := by
  induction phrase generalizing nesting with
  | single only ih => exact ih nesting
  | link before op fits last first second =>
    have symbol : nestingAfter (nesting + 1) op.symbol = nesting + 1 := by cases op <;> rfl
    refine (first nesting).append ?_
    rw [nestingBehind_chars, isUncut_cons_iff, symbol]
    exact ⟨.inr (Nat.succ_ne_zero _), second nesting⟩
  | minus operand ih => exact isUncut_cons_iff.mpr ⟨.inr (Nat.succ_ne_zero _), ih nesting⟩
  | plain only ih => exact ih nesting
  | group inner ih => exact isUncut_enclosed (ih (nesting + 1))
  | literal number => exact isUncut_literal number _
  | letter name known => rcases known with rfl | rfl <;> rfl
  | pi => rfl
  | call function argument ih => exact isUncut_call (ih (nesting + 1))

/-- A primary is not cut anywhere: its signs are in parentheses. -/
theorem isUncut_primary (only : Phrase .primary) (nesting : Nat) : IsUncut nesting only.chars := by
  cases only with
  | group inner => exact isUncut_enclosed (isUncut_inside inner nesting)
  | literal number => exact isUncut_literal number nesting
  | letter name known => rcases known with rfl | rfl <;> rfl
  | pi => rfl
  | call function argument => exact isUncut_call (isUncut_inside argument nesting)

/-! ## Summands of phrases -/

theorem summands_of_isUncut {text : List Char} (nonempty : text ≠ []) (uncut : IsUncut 0 text) :
    summands text = [text] := by
  rw [summands_eq, uncut, if_neg nonempty, List.append_nil]

/-- A sign opens and closes nothing. -/
theorem nestingAfter_of_isSign {c : Char} (sign : isSign c = true) {nesting : ℕ} :
    nestingAfter nesting c = nesting := by
  simp only [isSign, Bool.or_eq_true, beq_iff_eq] at sign
  rcases sign with rfl | rfl <;> rfl

theorem summands_sign_cons {c : Char} {text : List Char} (sign : isSign c = true)
    (uncut : IsUncut 0 text) : summands (c :: text) = [c :: text] := by
  have cuts : cut 0 (c :: text) = ([], [c :: text]) := by
    rw [cut, nestingAfter_of_isSign sign, uncut]
    simp [sign]
  rw [summands_eq, cuts]
  rfl

/-- **Each operand of a sum begins at a cut.** -/
theorem summands_chars : ∀ phrase : Phrase .sum,
    summands phrase.chars = phrase.operands.flatMap summands
  | .single only => by
    rw [Phrase.operands, List.flatMap_singleton, Phrase.chars]
  | .link before op fits last => by
    have sign : isSign op.symbol = true := by cases op <;> first | rfl | cases fits
    rw [Phrase.chars, summands_append (nestingBehind_chars before 0) rfl sign, Phrase.operands,
      List.flatMap_append, List.flatMap_singleton, summands_chars before]

theorem isUncut_operand {operand : Phrase .operand} (unsigned : operand.looseSigns = 0) :
    IsUncut 0 operand.chars := by
  cases operand with
  | minus operand => cases unsigned
  | plain only => exact isUncut_primary only 0

/-- A product without signs outside of parentheses is not cut. -/
theorem isUncut_product : ∀ phrase : Phrase .product, phrase.looseSigns = 0 →
    IsUncut 0 phrase.chars
  | .single only, unsigned => isUncut_operand unsigned
  | .link before op fits last, unsigned => by
    obtain ⟨first, second⟩ := Nat.add_eq_zero_iff.mp unsigned
    have plain : isSign op.symbol = false ∧ nestingAfter 0 op.symbol = 0 := by
      cases op <;> first | exact ⟨rfl, rfl⟩ | cases fits
    refine (isUncut_product before first).append ?_
    rw [nestingBehind_chars, isUncut_cons_iff, plain.2]
    exact ⟨.inl plain.1, isUncut_operand second⟩

theorem summands_of_unsigned {phrase : Phrase .product} (unsigned : phrase.looseSigns = 0) :
    summands phrase.chars = [phrase.chars] :=
  summands_of_isUncut phrase.chars_ne_nil (isUncut_product phrase unsigned)

/-- A sign in front of a product without signs is no second cut. -/
theorem summands_of_signed {phrase : Phrase .product} (unsigned : phrase.looseSigns = 0) {c : Char}
    (sign : isSign c = true) : summands (c :: phrase.chars) = [c :: phrase.chars] :=
  summands_sign_cons sign (isUncut_product phrase unsigned)

/-- A sign that stands at the beginning of a product can be taken off. -/
theorem exists_of_lateSigns : ∀ phrase : Phrase .product, phrase.lateSigns = 0 →
    phrase.looseSigns = 0 ∨
      ∃ inner : Phrase .product, inner.looseSigns = 0 ∧ phrase.chars = '-' :: inner.chars
  | .single (.plain _), _ => .inl rfl
  | .single (.minus operand), unsigned => .inr ⟨.single operand, unsigned, rfl⟩
  | .link before op fits last, late => by
    obtain ⟨first, second⟩ := Nat.add_eq_zero_iff.mp late
    rcases exists_of_lateSigns before first with unsigned | ⟨inner, unsigned, spelled⟩
    · exact .inl (Nat.add_eq_zero_iff.mpr ⟨unsigned, second⟩)
    · refine .inr ⟨.link inner op fits last, Nat.add_eq_zero_iff.mpr ⟨unsigned, second⟩, ?_⟩
      rw [Phrase.chars, spelled]
      rfl

/-- Without late signs, a product is a single summand. -/
theorem summands_of_lateSigns {phrase : Phrase .product} (late : phrase.lateSigns = 0) :
    summands phrase.chars = [phrase.chars] := by
  rcases exists_of_lateSigns phrase late with unsigned | ⟨inner, unsigned, spelled⟩
  · exact summands_of_unsigned unsigned
  · rw [spelled]
    exact summands_of_signed unsigned rfl

/-- **Without signs behind operators, the operands of a sum are its summands.** -/
theorem summands_of_mem_operands : ∀ phrase : Phrase .sum, phrase.lateSigns = 0 →
    ∀ operand ∈ phrase.operands, summands operand = [operand]
  | .single only, late, operand, member => by
    rw [Phrase.operands, List.mem_singleton] at member
    subst member
    exact summands_of_lateSigns late
  | .link before op fits last, late, operand, member => by
    obtain ⟨first, second⟩ := Nat.add_eq_zero_iff.mp late
    rw [Phrase.operands, List.mem_append, List.mem_singleton] at member
    rcases member with earlier | rfl
    · exact summands_of_mem_operands before first operand earlier
    · exact summands_of_signed second (by cases op <;> first | rfl | cases fits)

theorem looseSigns_unsigned (spelling : Spelling) : spelling.unsigned.looseSigns = 0 := by
  unfold Spelling.unsigned Spelling.factors
  split <;> rfl

/-- A spelling is a single summand. -/
theorem summands_spelling (spelling : Spelling) :
    summands spelling.chars = [spelling.chars] := by
  have unsigned := looseSigns_unsigned spelling
  rw [spelling.chars_unsigned]
  cases sign : spelling.sign with
  | none => exact summands_of_unsigned unsigned
  | some op =>
    obtain ⟨op, additive⟩ := op
    cases op with
    | add | sub => exact summands_of_signed unsigned rfl
    | mul | div => cases additive

/-- The pulse that a term is read as, if it is one. -/
def pulse? (term : List Char) : Option Pulse :=
  (ofSummand term).toOption

theorem pulse?_eq (term : List Char) : pulse? term = (spelled? term).filter Pulse.hasSupport := by
  unfold pulse? ofSummand
  cases spelled? term with
  | none => rfl
  | some pulse =>
    dsimp only
    cases support : pulse.hasSupport <;> simp [Option.filter, support, Except.toOption]

/-- **What is a pulse as a whole is not cut.** -/
theorem summands_of_pulse? {term : List Char} {pulse : Pulse} (found : pulse? term = some pulse) :
    summands term = [term] := by
  rw [pulse?_eq] at found
  obtain ⟨spelled, _⟩ := Option.filter_eq_some_iff.mp found
  obtain ⟨spelling, rfl, _⟩ := exists_of_spelled? spelled
  exact summands_spelling spelling

end Waveform.Pulse

namespace Waveform.ClosedForm

open Pulse

/-! ## Pulses of summands -/

/-- The pulses of a formula in normal form are those of its summands. -/
theorem pulses_ofNormal (text : List Char) :
    (ofNormal text).pulses = (summands text).filterMap pulse? := by
  simp only [ofNormal, List.filterMap_map]
  congr 1
  funext term
  rw [Function.comp, pulse?]
  cases ofSummand term <;> rfl

/-- Written offsets move no cut. -/
theorem Expands.forall₂_cut {short long : List Char} (expands : Expands short long)
    (nesting : Nat) : Expands (cut nesting short).1 (cut nesting long).1 ∧
      List.Forall₂ Expands (cut nesting short).2 (cut nesting long).2 := by
  induction expands generalizing nesting with
  | nil => exact ⟨.nil, .nil⟩
  | cons c rest ih =>
    obtain ⟨first, later⟩ := ih (nestingAfter nesting c)
    simp only [cut]
    split
    · exact ⟨.nil, .cons (.cons c first) later⟩
    · exact ⟨.cons c first, later⟩
  | bare known rest ih =>
    obtain ⟨first, later⟩ := ih nesting
    rcases known with rfl | rfl
    · exact ⟨.bare (.inl rfl) first, later⟩
    · exact ⟨.bare (.inr rfl) first, later⟩

theorem Expands.forall₂_summands {short long : List Char} (expands : Expands short long) :
    List.Forall₂ Expands (summands short) (summands long) := by
  obtain ⟨first, later⟩ := expands.forall₂_cut 0
  rw [summands_eq, summands_eq]
  refine List.rel_append ?_ later
  generalize (cut 0 short).1 = term at first
  generalize (cut 0 long).1 = term' at first
  cases first with
  | nil => exact .nil
  | cons c rest => exact .cons (.cons c rest) .nil
  | bare known rest => exact .cons (.bare known rest) .nil

/-- What is made of each summand is the same for all summands if written offsets do not change it
for any of them. -/
theorem filterMap_of_forall₂ {α : Type} {read : List Char → Option α}
    (same : ∀ {short long}, Expands short long → read long = read short)
    {terms terms' : List (List Char)} (expand : List.Forall₂ Expands terms terms') :
    terms'.filterMap read = terms.filterMap read := by
  induction expand with
  | nil => rfl
  | cons first later ih => rw [List.filterMap_cons, List.filterMap_cons, same first, ih]

/-- Written offsets change no pulse. -/
theorem Expands.pulses_eq {short long : List Char} (expands : Expands short long) :
    (ofNormal long).pulses = (ofNormal short).pulses := by
  have same {short long : List Char} (expands : Expands short long) :
      pulse? long = pulse? short := by
    rw [pulse?_eq, pulse?_eq, expands.spelled?_eq]
  rw [pulses_ofNormal, pulses_ofNormal, filterMap_of_forall₂ same expands.forall₂_summands]

/-! ## Pieces that add nothing -/

section Pieces

variable {α β : Type} {whole : α → Option β} {pieces : α → List β}

theorem length_filterMap_le_length_flatMap
    (single : ∀ a b, whole a = some b → pieces a = [b]) (items : List α) :
    (items.filterMap whole).length ≤ (items.flatMap pieces).length := by
  induction items with
  | nil => exact Nat.le_refl _
  | cons a items ih =>
    rw [List.flatMap_cons, List.length_append]
    cases found : whole a with
    | none =>
      rw [List.filterMap_cons_none found]
      omega
    | some b =>
      rw [List.filterMap_cons_some found, single a b found, List.length_cons, List.length_singleton]
      omega

/-- Where a whole is its only piece, the pieces of all items are the wholes exactly if no
other item has a piece. -/
theorem flatMap_eq_filterMap_iff (single : ∀ a b, whole a = some b → pieces a = [b])
    (items : List α) :
    items.flatMap pieces = items.filterMap whole ↔
      ∀ a ∈ items, whole a = none → pieces a = [] := by
  induction items with
  | nil => simp
  | cons a items ih =>
    rw [List.forall_mem_cons, ← ih, List.flatMap_cons]
    cases found : whole a with
    | none =>
      rw [List.filterMap_cons_none found]
      constructor
      · intro same
        have lengths := congrArg List.length same
        have le := length_filterMap_le_length_flatMap single items
        rw [List.length_append] at lengths
        have empty : pieces a = [] := List.eq_nil_of_length_eq_zero (by omega)
        rw [empty, List.nil_append] at same
        exact ⟨fun _ => empty, same⟩
      · rintro ⟨empty, same⟩
        rw [empty rfl, List.nil_append, same]
    | some b =>
      rw [List.filterMap_cons_some found, single a b found, List.singleton_append]
      simp

end Pieces

end Waveform.ClosedForm

namespace Waveform

open Formula Pulse ClosedForm

/-! ## Formulas -/

/-- **The pulses of a formula of the grammar are those of the summands that the operands of its
sum are cut into**, and they are those of the operands themselves exactly if no summand of an
operand that is no pulse looks like one. That is so if no sign stands behind an operator or
another sign. -/
theorem parseClosedForm_pulses_of_clean {text : String} {limits : Limits}
    (clean : (parse text limits).diagnostics = []) :
    (∃ phrase : Phrase .sum, phrase.Derives (Text.normalChars text.toList) limits) ∧
    ∀ phrase : Phrase .sum, phrase.Derives (Text.normalChars text.toList) limits →
      (parseClosedForm text).pulses =
          phrase.operands.flatMap (fun operand => (summands operand).filterMap pulse?) ∧
        ((parseClosedForm text).pulses = phrase.operands.filterMap pulse? ↔
          ∀ operand ∈ phrase.operands, pulse? operand = none →
            ∀ term ∈ summands operand, pulse? term = none) ∧
        (phrase.lateSigns = 0 →
          (parseClosedForm text).pulses = phrase.operands.filterMap pulse?) := by
  refine ⟨exists_derives_of_readAll (Array.toList_eq_nil_iff.mp clean), ?_⟩
  intro phrase derives
  have single : ∀ operand pulse, pulse? operand = some pulse →
      (summands operand).filterMap pulse? = [pulse] := by
    intro operand pulse found
    rw [summands_of_pulse? found, List.filterMap_cons_some found, List.filterMap_nil]
  have pulses : (parseClosedForm text).pulses =
      phrase.operands.flatMap (fun operand => (summands operand).filterMap pulse?) := by
    rw [parseClosedForm, (expands_normalChars text.toList).pulses_eq, ← derives.text,
      pulses_ofNormal, summands_chars, List.filterMap_flatMap]
  have exact : (parseClosedForm text).pulses = phrase.operands.filterMap pulse? ↔
      ∀ operand ∈ phrase.operands, pulse? operand = none →
        ∀ term ∈ summands operand, pulse? term = none := by
    rw [pulses, flatMap_eq_filterMap_iff single]
    simp only [List.filterMap_eq_nil_iff]
  refine ⟨pulses, exact, ?_⟩
  intro late
  refine exact.mpr ?_
  intro operand member noPulse term piece
  rw [summands_of_mem_operands phrase late operand member, List.mem_singleton] at piece
  rwa [piece]

theorem parseClosedForm_pulses_of_clean_shifted :
    let text := "-2*Tri((F - 3)/4) - rect((t)/.5) + 3*-sinc(f)/2"
    (parse text).diagnostics = [] ∧
      (∃ phrase : Phrase .sum, phrase.Derives (Text.normalChars text.toList) {}) ∧
      ∀ phrase : Phrase .sum, phrase.Derives (Text.normalChars text.toList) {} →
        (parseClosedForm text).pulses =
            phrase.operands.flatMap (fun operand => (summands operand).filterMap pulse?) ∧
          ((parseClosedForm text).pulses = phrase.operands.filterMap pulse? ↔
            ∀ operand ∈ phrase.operands, pulse? operand = none →
              ∀ term ∈ summands operand, pulse? term = none) ∧
          (phrase.lateSigns = 0 →
            (parseClosedForm text).pulses = phrase.operands.filterMap pulse?) := by
  intro text
  have clean : (parse text).diagnostics = [] := by decide +kernel
  exact ⟨clean, parseClosedForm_pulses_of_clean clean⟩

/-- **A factor with a sign is read as a pulse of its own**, although the product that it belongs
to is no pulse. -/
theorem parseClosedForm_pulses_of_signed_factor :
    let text := "2*-rect((f)/2)"
    (parse text).diagnostics = [] ∧
      ∃ phrase : Phrase .sum, phrase.Derives (Text.normalChars text.toList) {} ∧
        ∃ pulse ∈ (parseClosedForm text).pulses,
          ∀ operand ∈ phrase.operands, pulse? operand ≠ some pulse := by
  intro text
  let two : Phrase .primary := .literal (.ofDigit '2' rfl)
  let bare : Phrase .primary := .group (.single (.single (.plain (.letter 'f' (.inl rfl)))))
  let half : Phrase .product := .link (.single (.plain bare)) .div rfl (.plain two)
  let phrase : Phrase .sum := .single (.link (.single (.plain two)) .mul rfl
    (.minus (.plain (.call .rect (.single half)))))
  have clean : (parse text).diagnostics = [] := by decide +kernel
  have derives : phrase.Derives (Text.normalChars text.toList) {} :=
    ⟨by decide +kernel, by decide +kernel, by decide +kernel⟩
  have nonempty : (parseClosedForm text).pulses ≠ [] := by decide +kernel
  have noPulse : ∀ operand ∈ phrase.operands, pulse? operand = none := by decide +kernel
  obtain ⟨pulse, member⟩ := List.exists_mem_of_ne_nil _ nonempty
  refine ⟨clean, phrase, derives, pulse, member, ?_⟩
  intro operand of
  rw [noPulse operand of]
  exact (Option.some_ne_none pulse).symm

end Waveform
