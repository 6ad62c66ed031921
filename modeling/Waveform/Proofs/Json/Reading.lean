import Mathlib.Data.List.DropRight
import Mathlib.Data.Option.Basic
import Waveform.Proofs.Json.Grammar

/-!
# Reading what the grammar spells

Every text that spells a value is read as that value (`ofChars?_of_spells`). The reader takes the
longest run of digits, so a number is read to its end only where the text behind it does not go on
with one; behind a value that is always so, since a value ends at white space, at a comma, at a
closing bracket or at the end of the text. The reader's bounds on levels and items never cut a text
off, as each level and each item has at least one character of its own.
-/

set_option autoImplicit false

namespace Waveform.Json

open Decimal

/-! ## White space -/

section Space

variable {space rest : List Char}

theorem skipSpace_append (blank : IsBlank space) (rest : List Char) :
    skipSpace (space ++ rest) = skipSpace rest :=
  List.dropWhile_append_of_pos blank

theorem skipSpace_cons {c : Char} (visible : isSpace c = false) (rest : List Char) :
    skipSpace (c :: rest) = c :: rest :=
  List.dropWhile_cons_of_neg (Bool.eq_false_iff.mp visible)

theorem skipSpace_blank (blank : IsBlank space) : skipSpace space = [] := by
  have skipped := skipSpace_append blank []
  rwa [List.append_nil] at skipped

end Space

/-! ## Numbers -/

/-- Whether the first character of a text, if any, has none of some characters' kind. -/
def StartsWithout (kind : Char → Bool) (text : List Char) : Prop :=
  ∀ c ∈ text.head?, kind c = false

/-- The characters with which a number can go on. -/
def continuesNumber (c : Char) : Bool :=
  c.isDigit || c == '.' || c == 'e' || c == 'E'

section Numbers

variable {digits fraction point power rest : List Char} {exponent : Option Exponent}

theorem StartsWithout.isDigit (stop : StartsWithout continuesNumber rest) :
    StartsWithout Char.isDigit rest := by
  intro c head
  have other := stop c head
  simp only [continuesNumber, Bool.or_eq_false_iff] at other
  exact other.1.1.1

theorem readDigits?_append (run : IsDigits digits) (stop : StartsWithout Char.isDigit rest) :
    readDigits? (digits ++ rest) = some (digits, rest) := by
  have taken : rest.takeWhile Char.isDigit = [] := by
    cases rest with
    | nil => rfl
    | cons c rest => exact List.takeWhile_cons_of_neg (Bool.eq_false_iff.mp (stop c rfl))
  have dropped : rest.dropWhile Char.isDigit = rest := by
    cases rest with
    | nil => rfl
    | cons c rest => exact List.dropWhile_cons_of_neg (Bool.eq_false_iff.mp (stop c rfl))
  rw [readDigits?, List.takeWhile_append_of_pos run.all, List.dropWhile_append_of_pos run.all,
    taken, dropped, List.append_nil]
  cases digits with
  | nil => exact absurd rfl run.nonempty
  | cons => rfl

theorem readWhole?_append (whole : IsWhole digits) (stop : StartsWithout Char.isDigit rest) :
    readWhole? (digits ++ rest) = some (digits, rest) := by
  have allowed : (digits.head? != some '0' || digits == ['0']) = true := by
    by_cases zero : digits.head? = some '0'
    · rw [whole.zero zero]
      rfl
    · rw [Bool.or_eq_true, bne_iff_ne]
      exact .inl zero
  rw [readWhole?, readDigits?_append whole.toIsDigits stop]
  dsimp only [Option.bind_eq_bind, Option.bind_some]
  rw [guard, if_pos allowed]
  rfl

theorem readFraction?_append (spelled : SpellsFraction fraction point)
    (stop : StartsWithout (fun c => c.isDigit || c == '.') rest) :
    readFraction? (point ++ rest) = some (fraction, rest) := by
  cases spelled with
  | absent =>
    unfold readFraction?
    split
    · next behind same =>
      have head := stop '.' (by rw [← List.nil_append rest, same]; rfl)
      cases head
    · next same => rfl
  | present behind =>
    refine readDigits?_append behind fun c head => ?_
    have other := stop c head
    rw [Bool.or_eq_false_iff] at other
    exact other.1

theorem readExponentSign_append {negative : Bool} {sign : List Char}
    (signed : SpellsSign negative sign) (run : IsDigits digits) :
    readExponentSign (sign ++ (digits ++ rest)) = (negative, digits ++ rest) := by
  cases signed with
  | minus | plus => rfl
  | absent =>
    obtain ⟨nonempty, all⟩ := run
    cases digits with
    | nil => exact absurd rfl nonempty
    | cons c digits =>
      have digit := all c List.mem_cons_self
      change readExponentSign (c :: (digits ++ rest)) = _
      unfold readExponentSign
      split
      · next same =>
        rw [List.cons.injEq] at same
        rw [same.1] at digit
        cases digit
      · next same =>
        rw [List.cons.injEq] at same
        rw [same.1] at digit
        cases digit
      · rfl

theorem readExponent?_append (scaled : SpellsExponent exponent power)
    (stop : StartsWithout continuesNumber rest) :
    readExponent? (power ++ rest) = some (exponent, rest) := by
  cases scaled with
  | absent =>
    cases rest with
    | nil => rfl
    | cons c rest =>
      have other := stop c rfl
      simp only [continuesNumber, Bool.or_eq_false_iff, beq_eq_false_iff_ne] at other
      have letter : ¬ (decide (c = 'e') || decide (c = 'E')) = true := by
        simp [other.1.2, other.2]
      exact if_neg letter
  | present either signed run =>
    have letter := decide_eq_true either
    rw [Bool.decide_or] at letter
    rw [List.cons_append, List.append_assoc, readExponent?, if_pos letter,
      readExponentSign_append signed run]
    dsimp only
    rw [readDigits?_append run stop.isDigit]
    rfl

/-- An exponent does not start with a digit or a point. -/
theorem startsWithout_power (scaled : SpellsExponent exponent power)
    (stop : StartsWithout continuesNumber rest) :
    StartsWithout (fun c => c.isDigit || c == '.') (power ++ rest) := by
  intro c head
  cases scaled with
  | absent =>
    have other := stop c head
    simp only [continuesNumber, Bool.or_eq_false_iff] at other ⊢
    exact other.1.1
  | present either signed run =>
    rw [List.cons_append, List.head?_cons, Option.mem_some_iff] at head
    subst head
    rcases either with rfl | rfl <;> rfl

/-- What follows the digits in front of a point does not start with another digit. -/
theorem startsWithout_point (behind : SpellsFraction fraction point)
    (stop : StartsWithout (fun c => c.isDigit || c == '.') rest) :
    StartsWithout Char.isDigit (point ++ rest) := by
  intro c head
  cases behind with
  | absent =>
    have other := stop c head
    rw [Bool.or_eq_false_iff] at other
    exact other.1
  | present run =>
    rw [List.cons_append, List.head?_cons, Option.mem_some_iff] at head
    subst head
    rfl

theorem readUnsigned?_append {whole : List Char} (negative : Bool) (before : IsWhole whole)
    (behind : SpellsFraction fraction point) (scaled : SpellsExponent exponent power)
    (stop : StartsWithout continuesNumber rest) :
    readUnsigned? negative (whole ++ (point ++ (power ++ rest))) =
      some (⟨negative, whole, fraction, exponent⟩, rest) := by
  have stop' := startsWithout_power scaled stop
  rw [readUnsigned?, readWhole?_append before (startsWithout_point behind stop')]
  dsimp only [Option.bind_eq_bind, Option.bind_some]
  rw [readFraction?_append behind stop']
  dsimp only [Option.bind_some]
  rw [readExponent?_append scaled stop]
  rfl

/-- A number starts with a digit or a minus. -/
theorem SpellsNumeral.exists_head {numeral : Numeral} {text : List Char}
    (spelled : SpellsNumeral numeral text) :
    ∃ c rest, text = c :: rest ∧ (c.isDigit = true ∨ c = '-') := by
  cases spelled with
  | negative before behind scaled => exact ⟨'-', _, rfl, .inr rfl⟩
  | @unsigned whole _ _ _ _ before behind scaled =>
    obtain ⟨c, digits, rfl⟩ := List.exists_cons_of_ne_nil before.nonempty
    exact ⟨c, _, rfl, .inl (before.all c List.mem_cons_self)⟩

/-- **A spelled number is read to its end**, if the text does not go on with one. -/
theorem readNumeral?_append {numeral : Numeral} {text : List Char}
    (spelled : SpellsNumeral numeral text) (stop : StartsWithout continuesNumber rest) :
    readNumeral? (text ++ rest) = some (numeral, rest) := by
  cases spelled with
  | negative before behind scaled =>
    change readUnsigned? true (_ ++ (_ ++ _) ++ rest) = _
    rw [List.append_assoc, List.append_assoc]
    exact readUnsigned?_append true before behind scaled stop
  | @unsigned whole _ _ _ _ before behind scaled =>
    have read := readUnsigned?_append false before behind scaled stop
    obtain ⟨c, digits, rfl⟩ := List.exists_cons_of_ne_nil before.nonempty
    have digit := before.all c List.mem_cons_self
    rw [List.append_assoc, List.append_assoc]
    unfold readNumeral?
    split
    · next same =>
      rw [List.cons_append, List.cons.injEq] at same
      rw [same.1] at digit
      cases digit
    · exact read

end Numbers

/-! ## Strings -/

section Strings

variable {rest text : List Char}

theorem readPieces?_append {pieces : List Piece} (spelled : SpellsPieces pieces text) :
    readPieces? (text ++ rest) = some (pieces, rest) := by
  induction spelled with
  | quote => rfl
  | @char c pieces text visible quote backslash spelled ih =>
    have plain : (0x20 ≤ c.toNat && c != '\\') = true := by
      simp [visible, backslash]
    rw [List.cons_append, readPieces?]
    · rw [guard, if_pos plain, ih]
      rfl
    · exact quote
    · exact fun _ _ _ _ _ same _ => backslash same
    · exact fun _ _ same _ => backslash same
  | @escape letter c pieces text escaped spelled ih =>
    have letter' : letter ≠ 'u' := by
      rintro rfl
      cases escaped
    rw [List.cons_append, List.cons_append, readPieces?]
    · simp [escaped, ih]
    · exact fun _ _ _ _ _ same _ => letter' same
  | @unit a b c d code pieces text digits spelled ih =>
    rw [List.cons_append, List.cons_append, List.cons_append, List.cons_append, List.cons_append,
      List.cons_append, readPieces?, digits]
    simp [ih]

theorem readString?_append {content : Option String} (spelled : SpellsString content text) :
    readString? (text ++ rest) = some (content, rest) := by
  cases spelled with
  | pieces spelled =>
    rw [readString?, readPieces?_append spelled]
    rfl

end Strings

/-! ## Heads of values -/

section Heads

variable {value : Json} {text : List Char}

theorem isSpace_of_start {c : Char} (start : c.isDigit = true ∨ c = '-') : isSpace c = false := by
  by_contra space
  simp only [isSpace, Bool.not_eq_false, Bool.or_eq_true, beq_iff_eq] at space
  rcases space with ((rfl | rfl) | rfl) | rfl <;> exact absurd start (by decide)

/-- A digit or a minus begins no value but a number. -/
theorem readValueWith_number (budget : Nat) (read : ValueReader) {c : Char} {rest : List Char}
    (start : c.isDigit = true ∨ c = '-') :
    readValueWith budget read (c :: rest) =
      (readNumeral? (c :: rest)).map fun (numeral, rest) => (.number numeral, rest) := by
  have other {d : Char} (same : c = d) : d.isDigit = true ∨ d = '-' := same ▸ start
  unfold readValueWith
  rw [skipSpace_cons (isSpace_of_start start)]
  split
  case h_7 => rfl
  all_goals
    next same =>
      rw [List.cons.injEq] at same
      exact absurd (other same.1) (by decide)

/-- A value starts with a character that is neither white space nor the end of an array. -/
theorem Spells.exists_head (spelled : Spells value text) :
    ∃ c rest, text = c :: rest ∧ isSpace c = false ∧ c ≠ ']' := by
  cases spelled with
  | number spelled =>
    obtain ⟨c, rest, same, start⟩ := spelled.exists_head
    refine ⟨c, rest, same, isSpace_of_start start, ?_⟩
    rintro rfl
    exact absurd start (by decide)
  | null | isTrue | isFalse | string | noItems | items | noMembers | members =>
    exact ⟨_, _, rfl, by decide, by decide⟩

theorem SpellsPadded.exists_head (spelled : SpellsPadded value text) (rest : List Char) :
    ∃ c behind, skipSpace (text ++ rest) = c :: behind ∧ c ≠ ']' := by
  cases spelled with
  | pad blank spelled blank' =>
    obtain ⟨c, behind, rfl, visible, other⟩ := spelled.exists_head
    rw [List.append_assoc, skipSpace_append blank]
    exact ⟨c, _, skipSpace_cons visible _, other⟩

theorem SpellsItems.exists_head {items : List Json} (spelled : SpellsItems items text)
    (rest : List Char) : ∃ c behind, skipSpace (text ++ rest) = c :: behind ∧ c ≠ ']' := by
  cases spelled with
  | last spelled | more spelled =>
    rw [List.append_assoc]
    exact spelled.exists_head _

theorem SpellsMember.exists_head {member : Option String × Json}
    (spelled : SpellsMember member text) (rest : List Char) :
    ∃ behind, skipSpace (text ++ rest) = '"' :: behind := by
  cases spelled with
  | pair blank named blank' spelled =>
    rw [List.append_assoc, skipSpace_append blank]
    exact ⟨_, skipSpace_cons rfl _⟩

theorem SpellsMembers.exists_head {members : List (Option String × Json)}
    (spelled : SpellsMembers members text) (rest : List Char) :
    ∃ behind, skipSpace (text ++ rest) = '"' :: behind := by
  cases spelled with
  | last spelled | more spelled =>
    rw [List.append_assoc]
    exact spelled.exists_head _

end Heads

/-! ## Values -/

section Skipped

variable {text : List Char}

theorem skipSpace_skipSpace (text : List Char) : skipSpace (skipSpace text) = skipSpace text :=
  List.dropWhile_idempotent isSpace text

theorem readValue_skipSpace (budget levels : ℕ) (text : List Char) :
    readValue budget levels (skipSpace text) = readValue budget levels text := by
  cases levels with
  | zero => rfl
  | succ levels => simp only [readValue, readValueWith, skipSpace_skipSpace]

theorem readArray?_of_head {budget levels : ℕ} {c : Char} {behind : List Char}
    (head : skipSpace text = c :: behind) (other : c ≠ ']') :
    readArray? budget (readValue budget levels) text =
      (readItems? (readValue budget levels) budget text).map fun (items, rest) =>
        (.array items, rest) := by
  have same : readItems? (readValue budget levels) budget (skipSpace text) =
      readItems? (readValue budget levels) budget text := by
    cases budget with
    | zero => rfl
    | succ count => simp only [readItems?, readValue_skipSpace]
  unfold readArray?
  split
  · next same =>
    rw [head, List.cons.injEq] at same
    exact absurd same.1 other
  · rw [same]

theorem readObject?_of_head {budget levels : ℕ} {behind : List Char}
    (head : skipSpace text = '"' :: behind) :
    readObject? budget (readValue budget levels) text =
      (readMembers? (readValue budget levels) budget text).map fun (members, rest) =>
        (.object members, rest) := by
  have same : readMembers? (readValue budget levels) budget (skipSpace text) =
      readMembers? (readValue budget levels) budget text := by
    cases budget with
    | zero => rfl
    | succ count => simp only [readMembers?, readMember?, skipSpace_skipSpace]
  unfold readObject?
  split
  · next same =>
    rw [head, List.cons.injEq] at same
    exact absurd same.1 (by decide)
  · rw [same]

end Skipped

/-- White space does not go on with a number. -/
theorem startsWithout_space {space rest : List Char} (blank : IsBlank space)
    (stop : StartsWithout continuesNumber rest) :
    StartsWithout continuesNumber (space ++ rest) := by
  cases space with
  | nil => exact stop
  | cons c space =>
    intro d head
    rw [List.cons_append, List.head?_cons, Option.mem_some_iff] at head
    subst head
    have white := blank c List.mem_cons_self
    simp only [isSpace, Bool.or_eq_true, beq_iff_eq] at white
    rcases white with ((rfl | rfl) | rfl) | rfl <;> rfl

theorem startsWithout_cons {kind : Char → Bool} {c : Char} (other : kind c = false)
    (rest : List Char) : StartsWithout kind (c :: rest) := by
  rintro d ⟨⟩
  exact other

-- The inside of a value has a level less. On one level, the readers of items and of members, of one
-- member, of padded values and of values call each other in this order, and the first two count
-- down.
mutual

/-- **A spelled value is read to its end**, with as many levels and items as it has characters. -/
theorem readValue_of_spells {value : Json} {text : List Char} (spelled : Spells value text)
    {budget levels : ℕ} {space rest : List Char} (blank : IsBlank space)
    (fits : text.length ≤ budget) (deep : text.length ≤ levels)
    (stop : StartsWithout continuesNumber rest) :
    readValue budget levels (space ++ (text ++ rest)) = some (value, rest) := by
  rw [← readValue_skipSpace, skipSpace_append blank, readValue_skipSpace]
  cases levels with
  | zero =>
    obtain ⟨c, behind, rfl, _⟩ := spelled.exists_head
    cases deep
  | succ levels =>
    rw [readValue]
    cases spelled with
    | null | isTrue | isFalse => rfl
    | number spelled =>
      have read := readNumeral?_append spelled stop
      obtain ⟨c, behind, rfl, start⟩ := spelled.exists_head
      rw [List.cons_append] at read ⊢
      rw [readValueWith_number budget _ start, read]
      rfl
    | string spelled =>
      change (readString? (_ ++ rest)).map _ = _
      rw [readString?_append spelled]
      rfl
    | noItems blank =>
      change readArray? budget (readValue budget levels) (_ ++ [']'] ++ rest) = _
      rw [readArray?, List.append_assoc, skipSpace_append blank]
      rfl
    | items spelled =>
      change readArray? budget (readValue budget levels) (_ ++ rest) = _
      obtain ⟨c, behind, head, other⟩ := spelled.exists_head rest
      rw [List.length_cons] at fits deep
      rw [readArray?_of_head head other,
        readItems?_of_spells spelled rest (by omega) (by omega) (by omega)]
      rfl
    | noMembers blank =>
      change readObject? budget (readValue budget levels) (_ ++ ['\x7d'] ++ rest) = _
      rw [readObject?, List.append_assoc, skipSpace_append blank]
      rfl
    | members spelled =>
      change readObject? budget (readValue budget levels) (_ ++ rest) = _
      obtain ⟨behind, head⟩ := spelled.exists_head rest
      rw [List.length_cons] at fits deep
      rw [readObject?_of_head head,
        readMembers?_of_spells spelled rest (by omega) (by omega) (by omega)]
      rfl
termination_by (levels, 0, 0)

/-- A spelled value is read together with the white space around it, apart from that behind it. -/
theorem readValue_of_spellsPadded {value : Json} {text : List Char}
    (spelled : SpellsPadded value text) (rest : List Char) {budget levels : ℕ}
    (fits : text.length ≤ budget) (deep : text.length ≤ levels)
    (stop : StartsWithout continuesNumber rest) :
    ∃ space, IsBlank space ∧
      readValue budget levels (text ++ rest) = some (value, space ++ rest) := by
  cases spelled with
  | @pad _ before text after blank spelled blank' =>
    simp only [List.length_append] at fits deep
    refine ⟨after, blank', ?_⟩
    rw [List.append_assoc, List.append_assoc]
    exact readValue_of_spells spelled blank (by omega) (by omega) (startsWithout_space blank' stop)
termination_by (levels, 1, 0)

/-- The items of an array are read up to its end. -/
theorem readItems?_of_spells {items : List Json} {text : List Char}
    (spelled : SpellsItems items text) (rest : List Char) {budget levels count : ℕ}
    (fits : text.length ≤ budget) (deep : text.length ≤ levels) (few : text.length ≤ count) :
    readItems? (readValue budget levels) count (text ++ rest) = some (items, rest) := by
  cases spelled with
  | last spelled =>
    simp only [List.length_append, List.length_singleton] at fits deep few
    cases count with
    | zero => omega
    | succ count =>
      obtain ⟨space, blank, read⟩ := readValue_of_spellsPadded spelled (']' :: rest)
        (by omega : _ ≤ budget) (by omega : _ ≤ levels) (startsWithout_cons rfl _)
      rw [List.append_assoc, List.singleton_append, readItems?, read]
      dsimp only [Option.bind_eq_bind, Option.bind_some]
      rw [skipSpace_append blank]
      rfl
  | @more _ _ _ behind spelled spelled' =>
    simp only [List.length_append, List.length_cons] at fits deep few
    cases count with
    | zero => omega
    | succ count =>
      obtain ⟨space, blank, read⟩ := readValue_of_spellsPadded spelled (',' :: (behind ++ rest))
        (by omega : _ ≤ budget) (by omega : _ ≤ levels) (startsWithout_cons rfl _)
      have read' := readItems?_of_spells spelled' rest (by omega : _ ≤ budget)
        (by omega : _ ≤ levels) (by omega : _ ≤ count)
      rw [List.append_assoc, List.cons_append, readItems?, read]
      dsimp only [Option.bind_eq_bind, Option.bind_some]
      rw [skipSpace_append blank]
      change (readItems? (readValue budget levels) count (behind ++ rest)).bind _ = _
      rw [read']
      rfl
termination_by (levels, 3, count)

/-- A name is read with its value. -/
theorem readMember?_of_spells {member : Option String × Json} {text : List Char}
    (spelled : SpellsMember member text) (rest : List Char) {budget levels : ℕ}
    (fits : text.length ≤ budget) (deep : text.length ≤ levels)
    (stop : StartsWithout continuesNumber rest) :
    ∃ space, IsBlank space ∧
      readMember? (readValue budget levels) (text ++ rest) = some (member, space ++ rest) := by
  cases spelled with
  | pair blank named blank' spelled =>
    simp only [List.length_append, List.length_cons] at fits deep
    obtain ⟨space, blank'', read⟩ := readValue_of_spellsPadded spelled rest
      (by omega : _ ≤ budget) (by omega : _ ≤ levels) stop
    refine ⟨space, blank'', ?_⟩
    rw [List.append_assoc, readMember?, skipSpace_append blank, List.cons_append,
      skipSpace_cons rfl, List.append_assoc, List.append_assoc]
    change (readString? (_ ++ _)).bind _ = _
    rw [readString?_append named]
    dsimp only [Option.bind_some]
    rw [skipSpace_append blank', List.cons_append, skipSpace_cons rfl]
    change (readValue budget levels (_ ++ _)).bind _ = _
    rw [read]
    rfl
termination_by (levels, 2, 0)

/-- The members of an object are read up to its end. -/
theorem readMembers?_of_spells {members : List (Option String × Json)} {text : List Char}
    (spelled : SpellsMembers members text) (rest : List Char) {budget levels count : ℕ}
    (fits : text.length ≤ budget) (deep : text.length ≤ levels) (few : text.length ≤ count) :
    readMembers? (readValue budget levels) count (text ++ rest) = some (members, rest) := by
  cases spelled with
  | last spelled =>
    simp only [List.length_append, List.length_singleton] at fits deep few
    cases count with
    | zero => omega
    | succ count =>
      obtain ⟨space, blank, read⟩ := readMember?_of_spells spelled ('\x7d' :: rest)
        (by omega : _ ≤ budget) (by omega : _ ≤ levels) (startsWithout_cons rfl _)
      rw [List.append_assoc, List.singleton_append, readMembers?, read]
      dsimp only [Option.bind_eq_bind, Option.bind_some]
      rw [skipSpace_append blank]
      rfl
  | @more _ _ _ behind spelled spelled' =>
    simp only [List.length_append, List.length_cons] at fits deep few
    cases count with
    | zero => omega
    | succ count =>
      obtain ⟨space, blank, read⟩ := readMember?_of_spells spelled (',' :: (behind ++ rest))
        (by omega : _ ≤ budget) (by omega : _ ≤ levels) (startsWithout_cons rfl _)
      have read' := readMembers?_of_spells spelled' rest (by omega : _ ≤ budget)
        (by omega : _ ≤ levels) (by omega : _ ≤ count)
      rw [List.append_assoc, List.cons_append, readMembers?, read]
      dsimp only [Option.bind_eq_bind, Option.bind_some]
      rw [skipSpace_append blank]
      change (readMembers? (readValue budget levels) count (behind ++ rest)).bind _ = _
      rw [read']
      rfl
termination_by (levels, 3, count)

end

/-- **A text that spells a value is read as that value.** -/
theorem ofChars?_of_spells {value : Json} {text : List Char} (spelled : SpellsPadded value text) :
    ofChars? text = some value := by
  obtain ⟨space, blank, read⟩ := readValue_of_spellsPadded spelled [] le_rfl le_rfl
    (by rintro c ⟨⟩)
  rw [List.append_nil, List.append_nil] at read
  simp only [ofChars?, read, skipSpace_blank blank]
  rfl

end Waveform.Json
