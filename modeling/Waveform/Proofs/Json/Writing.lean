import Waveform.Json.Writer
import Waveform.Proofs.Json.Reading

/-!
# Reading what was written

The text of a value spells that value, on one line and with indentation, as long as its numerals are
ones that JSON has (`IsWritable.spells`). So it is read as that value again (`ofText?_compact`),
also with a string that is half of a surrogate pair, and with names that occur twice.
-/

set_option autoImplicit false

namespace Waveform

/-! ## Numbers -/

namespace Decimal.Numeral

open Json

/-- Whether a numeral is one that JSON has. -/
structure IsProper (numeral : Numeral) : Prop where
  whole : IsWhole numeral.whole
  fraction : ∀ c ∈ numeral.fraction, c.isDigit = true
  exponent : ∀ exponent ∈ numeral.exponent, IsDigits exponent.digits

/-- The characters of a numeral spell it. -/
theorem IsProper.spells {numeral : Numeral} (proper : numeral.IsProper) :
    SpellsNumeral numeral numeral.chars := by
  obtain ⟨negative, whole, fraction, exponent⟩ := numeral
  obtain ⟨before, behind, scaled⟩ := proper
  have point : SpellsFraction fraction (if fraction.isEmpty then [] else '.' :: fraction) := by
    cases fraction with
    | nil => exact .absent
    | cons c fraction => exact .present ⟨List.cons_ne_nil _ _, behind⟩
  have spelled {power : List Char} (power' : SpellsExponent exponent power) :
      SpellsNumeral ⟨negative, whole, fraction, exponent⟩
        ((if negative then ['-'] else []) ++ whole ++
          (if fraction.isEmpty then [] else '.' :: fraction) ++ power) := by
    rw [List.append_assoc, List.append_assoc]
    cases negative with
    | true => exact .negative before point power'
    | false => exact .unsigned before point power'
  cases exponent with
  | none => exact spelled .absent
  | some exponent =>
    obtain ⟨minus, digits⟩ := exponent
    have run := scaled ⟨minus, digits⟩ rfl
    cases minus with
    | true => exact spelled (.present (.inl rfl) .minus run)
    | false => exact spelled (.present (.inl rfl) .plus run)

end Decimal.Numeral

namespace Json

/-! ## Strings -/

/-- A character is written as an escape with a letter, as one with a number, or as it is. -/
theorem escape_cases (c : Char) :
    (∃ letter, escape c = ['\\', letter] ∧ unescape? letter = some c) ∨
      (c.toNat < 0x20 ∧
        escape c = ['\\', 'u', '0', '0', hexDigit (c.toNat / 16), hexDigit (c.toNat % 16)]) ∨
      (0x20 ≤ c.toNat ∧ c ≠ '"' ∧ c ≠ '\\' ∧ escape c = [c]) := by
  unfold escape
  split
  · next same => exact .inl ⟨'"', rfl, by rw [same]; rfl⟩
  next quote =>
  split
  · next same => exact .inl ⟨'\\', rfl, by rw [same]; rfl⟩
  next backslash =>
  split
  · next same => exact .inl ⟨'b', rfl, by rw [same]; rfl⟩
  split
  · next same => exact .inl ⟨'f', rfl, by rw [same]; rfl⟩
  split
  · next same => exact .inl ⟨'n', rfl, by rw [same]; rfl⟩
  split
  · next same => exact .inl ⟨'r', rfl, by rw [same]; rfl⟩
  split
  · next same => exact .inl ⟨'t', rfl, by rw [same]; rfl⟩
  split
  · next control => exact .inr (.inl ⟨control, rfl⟩)
  · next visible => exact .inr (.inr ⟨not_lt.mp visible, quote, backslash, rfl⟩)

/-- Two hexadecimal digits are enough for a control character. -/
theorem hexRun?_control : ∀ code < 0x20,
    hexRun? ['0', '0', hexDigit (code / 16), hexDigit (code % 16)] = some code := by
  decide

/-- A control character stands for itself, whatever comes next. -/
theorem joinPieces?_control {code : ℕ} (control : code < 0x20) (pieces : List Piece) :
    joinPieces? (.unit code :: pieces) = (joinPieces? pieces).map (Char.ofNat code :: ·) := by
  have high : isHighSurrogate code = false := by
    simp only [isHighSurrogate, Bool.and_eq_false_iff, decide_eq_false_iff_not]
    omega
  have low : isLowSurrogate code = false := by
    simp only [isLowSurrogate, Bool.and_eq_false_iff, decide_eq_false_iff_not]
    omega
  cases pieces with
  | nil => simp [joinPieces?, high, low]
  | cons piece pieces => cases piece <;> simp [joinPieces?, high, low]

/-- The characters of a string spell pieces that have its text. -/
theorem exists_pieces (text : List Char) : ∃ pieces,
    SpellsPieces pieces (text.flatMap escape ++ ['"']) ∧ joinPieces? pieces = some text := by
  induction text with
  | nil => exact ⟨[], .quote, rfl⟩
  | cons c text ih =>
    obtain ⟨pieces, spelled, joined⟩ := ih
    have plain : joinPieces? (.char c :: pieces) = some (c :: text) := by
      rw [joinPieces?, joined]
      rfl
    rw [List.flatMap_cons, List.append_assoc]
    rcases escape_cases c with
      ⟨letter, same, escaped⟩ | ⟨control, same⟩ | ⟨visible, quote, backslash, same⟩
    · rw [same]
      exact ⟨.char c :: pieces, .escape escaped spelled, plain⟩
    · rw [same]
      refine ⟨.unit c.toNat :: pieces, .unit (hexRun?_control _ control) spelled, ?_⟩
      rw [joinPieces?_control control, joined, Char.ofNat_toNat]
      rfl
    · rw [same]
      exact ⟨.char c :: pieces, .char visible quote backslash spelled, plain⟩

theorem exists_quoted (content : Option String) :
    ∃ quoted, stringChars content = '"' :: quoted ∧ SpellsString content quoted := by
  cases content with
  | none => exact ⟨_, rfl, .pieces (.unit (show _ = some 0xD800 from rfl) .quote)⟩
  | some content =>
    obtain ⟨pieces, spelled, joined⟩ := exists_pieces content.toList
    have same : (joinPieces? pieces).map String.ofList = some content := by
      rw [joined, Option.map_some, String.ofList_toList]
    refine ⟨content.toList.flatMap escape ++ ['"'], rfl, ?_⟩
    rw [← same]
    exact .pieces spelled

/-! ## Values -/

/-- Whether all numerals in a value are ones that JSON has. -/
inductive IsWritable : Json → Prop where
  | null : IsWritable .null
  | bool (value : Bool) : IsWritable (.bool value)
  | number {numeral : Decimal.Numeral} (proper : numeral.IsProper) : IsWritable (.number numeral)
  | string (content : Option String) : IsWritable (.string content)
  | array {items : List Json} (all : ∀ item ∈ items, IsWritable item) : IsWritable (.array items)
  | object {members : List (Option String × Json)} (all : ∀ member ∈ members, IsWritable member.2) :
    IsWritable (.object members)

theorem isWritable_ofMembers {members : List (String × Json)}
    (all : ∀ member ∈ members, member.2.IsWritable) : (ofMembers members).IsWritable := by
  refine .object fun member inside => ?_
  obtain ⟨other, inside', rfl⟩ := List.mem_map.mp inside
  exact all other inside'

section Blank

theorem isBlank_nil : IsBlank [] := by
  rintro c ⟨⟩

theorem isBlank_lineBreak (indent : Option ℕ) : IsBlank (lineBreak indent) := by
  cases indent with
  | none => exact isBlank_nil
  | some levels =>
    intro c member
    rcases List.mem_cons.mp member with rfl | space
    · rfl
    · rw [List.eq_of_mem_replicate space]
      rfl

/-- Behind the colon there is white space, if any. -/
theorem exists_separator (indent : Option ℕ) :
    ∃ space, separator indent = ':' :: space ∧ IsBlank space := by
  cases indent with
  | none => exact ⟨[], rfl, isBlank_nil⟩
  | some levels => exact ⟨[' '], rfl, by simp [IsBlank, isSpace]⟩

end Blank

/-- The items of an array spell it if each of them is spelled. -/
theorem spellsItems_chars {indent : Option ℕ} {item : Json} {items : List Json}
    (all : ∀ other ∈ item :: items, Spells other (other.chars (indent.map (· + 1)))) :
    SpellsItems (item :: items)
      (lineBreak (indent.map (· + 1)) ++ item.chars (indent.map (· + 1)) ++
        itemsChars indent items) := by
  have before := isBlank_lineBreak (indent.map (· + 1))
  obtain ⟨spelled, rest⟩ := List.forall_mem_cons.mp all
  induction items generalizing item with
  | nil =>
    have last := SpellsItems.last (.pad before spelled (isBlank_lineBreak indent))
    rwa [List.append_assoc, List.append_assoc, ← List.append_assoc] at last
  | cons next items ih =>
    obtain ⟨spelled', rest'⟩ := List.forall_mem_cons.mp rest
    have more := SpellsItems.more (.pad before spelled isBlank_nil) (ih rest spelled' rest')
    rwa [List.append_nil] at more

theorem spellsMember_chars (indent : Option ℕ) (name : Option String) {deeper : Option ℕ}
    {value : Json} {after : List Char} (spelled : Spells value (value.chars deeper))
    (blank : IsBlank after) :
    SpellsMember (name, value)
      (lineBreak deeper ++ stringChars name ++ separator indent ++ value.chars deeper ++
        after) := by
  obtain ⟨quoted, same, named⟩ := exists_quoted name
  obtain ⟨space, separated, blank'⟩ := exists_separator indent
  have pair := SpellsMember.pair (isBlank_lineBreak deeper) named isBlank_nil
    (.pad blank' spelled blank)
  rw [same, separated]
  simpa only [List.append_assoc, List.cons_append, List.nil_append] using pair

/-- The members of an object spell it if the value of each of them is spelled. -/
theorem spellsMembers_chars {indent : Option ℕ} {name : Option String} {value : Json}
    {members : List (Option String × Json)}
    (all : ∀ member ∈ (name, value) :: members,
      Spells member.2 (member.2.chars (indent.map (· + 1)))) :
    SpellsMembers ((name, value) :: members)
      (lineBreak (indent.map (· + 1)) ++ stringChars name ++ separator indent ++
        value.chars (indent.map (· + 1)) ++ membersChars indent members) := by
  obtain ⟨spelled, rest⟩ := List.forall_mem_cons.mp all
  induction members generalizing name value with
  | nil =>
    have last := SpellsMembers.last
      (spellsMember_chars indent name spelled (isBlank_lineBreak indent))
    rwa [List.append_assoc] at last
  | cons next members ih =>
    obtain ⟨spelled', rest'⟩ := List.forall_mem_cons.mp rest
    have more := SpellsMembers.more (spellsMember_chars indent name spelled isBlank_nil)
      (ih rest spelled' rest')
    rwa [List.append_nil] at more

/-- **The characters of a value spell it**, on one line and with indentation. -/
theorem IsWritable.spells {value : Json} (writable : value.IsWritable) (indent : Option ℕ) :
    Spells value (value.chars indent) := by
  induction writable generalizing indent with
  | null => exact .null
  | bool value =>
    cases value with
    | true => exact .isTrue
    | false => exact .isFalse
  | number proper => exact .number proper.spells
  | string content =>
    obtain ⟨quoted, same, spelled⟩ := exists_quoted content
    rw [chars, same]
    exact .string spelled
  | @array items all ih =>
    cases items with
    | nil => exact .noItems isBlank_nil
    | cons item items =>
      exact .items (spellsItems_chars fun other member => ih other member _)
  | @object members all ih =>
    cases members with
    | nil => exact .noMembers isBlank_nil
    | cons member members =>
      exact .members (spellsMembers_chars fun other member => ih other member _)

theorem spellsPadded_compact {value : Json} (writable : value.IsWritable) :
    SpellsPadded value value.compact.toList := by
  have padded := SpellsPadded.pad isBlank_nil (writable.spells none) isBlank_nil
  rwa [List.nil_append, List.append_nil, ← String.toList_ofList (l := value.chars none)] at padded

/-- **What is written on one line is read again.** -/
theorem ofText?_compact {value : Json} (writable : value.IsWritable) :
    ofText? value.compact = some value :=
  ofChars?_of_spells (spellsPadded_compact writable)

end Json

end Waveform
