import Waveform.Proofs.Json.Reading

/-!
# The grammar is what is read

Whatever the reader accepts is spelled by the grammar, so a text is read as a value exactly if it
spells it (`ofChars?_eq_some_iff`). In particular a text spells at most one value.
-/

set_option autoImplicit false

namespace Waveform.Json

open Decimal

/-- A text is white space and what is left when it is skipped. -/
theorem exists_space (text : List Char) : ∃ space, IsBlank space ∧ text = space ++ skipSpace text :=
  ⟨text.takeWhile isSpace, fun _ => List.mem_takeWhile_imp, List.takeWhile_append_dropWhile.symm⟩

/-! ## Numbers -/

section Numbers

variable {text rest : List Char}

theorem readDigits?_eq_some {digits : List Char} (read : readDigits? text = some (digits, rest)) :
    IsDigits digits ∧ text = digits ++ rest := by
  unfold readDigits? at read
  split at read
  · cases read
  · next nonempty =>
    cases read
    exact ⟨⟨nonempty, fun _ => List.mem_takeWhile_imp⟩, List.takeWhile_append_dropWhile.symm⟩

theorem readWhole?_eq_some {digits : List Char} (read : readWhole? text = some (digits, rest)) :
    IsWhole digits ∧ text = digits ++ rest := by
  obtain ⟨⟨digits', rest'⟩, run, read⟩ := Option.bind_eq_some_iff.mp read
  obtain ⟨_, allowed, read⟩ := Option.bind_eq_some_iff.mp read
  cases read
  obtain ⟨isDigits, split⟩ := readDigits?_eq_some run
  refine ⟨⟨isDigits, fun zero => ?_⟩, split⟩
  rw [guard] at allowed
  split at allowed
  · next either =>
    rw [zero] at either
    simpa using either
  · cases allowed

theorem readFraction?_eq_some {fraction : List Char}
    (read : readFraction? text = some (fraction, rest)) :
    ∃ point, SpellsFraction fraction point ∧ text = point ++ rest := by
  unfold readFraction? at read
  split at read
  · obtain ⟨behind, split⟩ := readDigits?_eq_some read
    exact ⟨_, .present behind, congrArg _ split⟩
  · cases read
    exact ⟨[], .absent, rfl⟩

theorem exists_sign (text : List Char) :
    ∃ sign, SpellsSign (readExponentSign text).1 sign ∧
      text = sign ++ (readExponentSign text).2 := by
  unfold readExponentSign
  split
  · exact ⟨_, .minus, rfl⟩
  · exact ⟨_, .plus, rfl⟩
  · exact ⟨_, .absent, rfl⟩

theorem readExponent?_eq_some {exponent : Option Exponent}
    (read : readExponent? text = some (exponent, rest)) :
    ∃ power, SpellsExponent exponent power ∧ text = power ++ rest := by
  unfold readExponent? at read
  split at read
  · next letter behind =>
    split at read
    · next either =>
      rw [Bool.or_eq_true, decide_eq_true_iff, decide_eq_true_iff] at either
      obtain ⟨⟨digits, rest'⟩, run, read⟩ := Option.bind_eq_some_iff.mp read
      cases read
      obtain ⟨sign, signed, split⟩ := exists_sign behind
      obtain ⟨isDigits, split'⟩ :
        IsDigits digits ∧ (readExponentSign behind).2 = digits ++ rest := readDigits?_eq_some run
      refine ⟨_, .present either signed isDigits, ?_⟩
      rw [List.cons_append, List.append_assoc, ← split', ← split]
    · cases read
      exact ⟨[], .absent, rfl⟩
  · cases read
    exact ⟨[], .absent, rfl⟩

theorem readUnsigned?_eq_some {negative : Bool} {numeral : Numeral}
    (read : readUnsigned? negative text = some (numeral, rest)) :
    ∃ whole fraction point exponent power, IsWhole whole ∧ SpellsFraction fraction point ∧
      SpellsExponent exponent power ∧ numeral = ⟨negative, whole, fraction, exponent⟩ ∧
      text = whole ++ (point ++ power) ++ rest := by
  obtain ⟨⟨whole, behind⟩, front, read⟩ := Option.bind_eq_some_iff.mp read
  obtain ⟨⟨fraction, behind'⟩, middle, read⟩ := Option.bind_eq_some_iff.mp read
  obtain ⟨⟨exponent, behind''⟩, back, read⟩ := Option.bind_eq_some_iff.mp read
  cases read
  obtain ⟨isWhole, split⟩ := readWhole?_eq_some front
  obtain ⟨point, spelled, split'⟩ := readFraction?_eq_some middle
  obtain ⟨power, scaled, split''⟩ := readExponent?_eq_some back
  refine ⟨whole, fraction, point, exponent, power, isWhole, spelled, scaled, rfl, ?_⟩
  rw [split, split', split'', List.append_assoc, List.append_assoc]

/-- What is read as a number spells it. -/
theorem readNumeral?_eq_some {numeral : Numeral}
    (read : readNumeral? text = some (numeral, rest)) :
    ∃ spelling, SpellsNumeral numeral spelling ∧ text = spelling ++ rest := by
  unfold readNumeral? at read
  split at read
  · obtain ⟨whole, fraction, point, exponent, power, before, behind, scaled, rfl, rfl⟩ :=
      readUnsigned?_eq_some read
    exact ⟨_, .negative before behind scaled, rfl⟩
  · obtain ⟨whole, fraction, point, exponent, power, before, behind, scaled, rfl, rfl⟩ :=
      readUnsigned?_eq_some read
    exact ⟨_, .unsigned before behind scaled, rfl⟩

end Numbers

/-! ## Strings -/

section Strings

variable {text rest : List Char}

theorem readPieces?_eq_some {pieces : List Piece} (read : readPieces? text = some (pieces, rest)) :
    ∃ quoted, SpellsPieces pieces quoted ∧ text = quoted ++ rest := by
  induction text using readPieces?.induct generalizing pieces with
  | case1 => cases read
  | case2 behind =>
    cases read
    exact ⟨_, .quote, rfl⟩
  | case3 a b c d behind ih =>
    rw [readPieces?] at read
    obtain ⟨code, digits, read⟩ := Option.bind_eq_some_iff.mp read
    obtain ⟨⟨others, behind'⟩, inner, read⟩ := Option.bind_eq_some_iff.mp read
    cases read
    obtain ⟨quoted, spelled, rfl⟩ := ih inner
    exact ⟨_, .unit digits spelled, rfl⟩
  | case4 c behind other ih =>
    rw [readPieces?] at read
    · obtain ⟨letter, escaped, read⟩ := Option.bind_eq_some_iff.mp read
      obtain ⟨⟨others, behind'⟩, inner, read⟩ := Option.bind_eq_some_iff.mp read
      cases read
      obtain ⟨quoted, spelled, rfl⟩ := ih inner
      exact ⟨_, .escape escaped spelled, rfl⟩
    · exact other
  | case5 c behind quote other other' ih =>
    rw [readPieces?] at read
    · obtain ⟨_, allowed, read⟩ := Option.bind_eq_some_iff.mp read
      obtain ⟨⟨others, behind'⟩, inner, read⟩ := Option.bind_eq_some_iff.mp read
      cases read
      obtain ⟨quoted, spelled, rfl⟩ := ih inner
      rw [guard] at allowed
      split at allowed
      · next plain =>
        rw [Bool.and_eq_true, decide_eq_true_iff, bne_iff_ne] at plain
        exact ⟨_, .char plain.1 quote plain.2 spelled, rfl⟩
      · cases allowed
    all_goals assumption

theorem readString?_eq_some {content : Option String}
    (read : readString? text = some (content, rest)) :
    ∃ quoted, SpellsString content quoted ∧ text = quoted ++ rest := by
  obtain ⟨⟨pieces, behind⟩, inner, read⟩ := Option.bind_eq_some_iff.mp read
  cases read
  obtain ⟨quoted, spelled, split⟩ := readPieces?_eq_some inner
  exact ⟨quoted, .pieces spelled, split⟩

end Strings

/-! ## Values -/

section Space

variable {space text : List Char} (blank : IsBlank space)

include blank

theorem SpellsPadded.behind_space {value : Json} (spelled : SpellsPadded value text) :
    SpellsPadded value (space ++ text) := by
  cases spelled with
  | pad blank' spelled blank'' =>
    rw [← List.append_assoc]
    exact .pad (List.forall_mem_append.mpr ⟨blank, blank'⟩) spelled blank''

theorem SpellsItems.behind_space {items : List Json} (spelled : SpellsItems items text) :
    SpellsItems items (space ++ text) := by
  cases spelled with
  | last spelled =>
    rw [← List.append_assoc]
    exact .last (spelled.behind_space blank)
  | more spelled spelled' =>
    rw [← List.append_assoc]
    exact .more (spelled.behind_space blank) spelled'

theorem SpellsMember.behind_space {member : Option String × Json}
    (spelled : SpellsMember member text) : SpellsMember member (space ++ text) := by
  cases spelled with
  | pair blank' named blank'' spelled =>
    rw [← List.append_assoc]
    exact .pair (List.forall_mem_append.mpr ⟨blank, blank'⟩) named blank'' spelled

theorem SpellsMembers.behind_space {members : List (Option String × Json)}
    (spelled : SpellsMembers members text) : SpellsMembers members (space ++ text) := by
  cases spelled with
  | last spelled =>
    rw [← List.append_assoc]
    exact .last (spelled.behind_space blank)
  | more spelled spelled' =>
    rw [← List.append_assoc]
    exact .more (spelled.behind_space blank) spelled'

end Space

/-- Whether a reader of values takes only texts that spell them, with white space in front. -/
def IsSound (read : ValueReader) : Prop :=
  ∀ {text rest : List Char} {value : Json}, read text = some (value, rest) →
    ∃ space spelling, IsBlank space ∧ Spells value spelling ∧ text = space ++ (spelling ++ rest)

section Values

variable {read : ValueReader} (sound : IsSound read) {text rest : List Char}

include sound

/-- What is read as a value up to a character that is no white space is a padded value. -/
theorem IsSound.padded {value : Json} {c : Char} {behind : List Char}
    (accepted : read text = some (value, rest)) (next : skipSpace rest = c :: behind) :
    ∃ spelling, SpellsPadded value spelling ∧ text = spelling ++ c :: behind := by
  obtain ⟨space, spelling, blank, spelled, rfl⟩ := sound accepted
  obtain ⟨after, blank', split⟩ := exists_space rest
  refine ⟨_, .pad blank spelled blank', ?_⟩
  rw [split, next, List.append_assoc, List.append_assoc]

theorem readItems?_eq_some {count : ℕ} {items : List Json}
    (accepted : readItems? read count text = some (items, rest)) :
    ∃ spelling, SpellsItems items spelling ∧ text = spelling ++ rest := by
  induction count generalizing text items with
  | zero => cases accepted
  | succ count ih =>
    obtain ⟨⟨item, behind⟩, first, accepted⟩ := Option.bind_eq_some_iff.mp accepted
    dsimp only at accepted
    split at accepted
    · next others next =>
      obtain ⟨⟨items, behind'⟩, more, accepted⟩ := Option.bind_eq_some_iff.mp accepted
      cases accepted
      obtain ⟨spelling, spelled, rfl⟩ := sound.padded first next
      obtain ⟨spelling', spelled', rfl⟩ := ih more
      refine ⟨_, .more spelled spelled', ?_⟩
      rw [List.append_assoc, List.cons_append]
    · next next =>
      cases accepted
      obtain ⟨spelling, spelled, rfl⟩ := sound.padded first next
      refine ⟨_, .last spelled, ?_⟩
      rw [List.append_assoc, List.singleton_append]
    · cases accepted

theorem readMember?_eq_some {member : Option String × Json} {c : Char} {behind : List Char}
    (accepted : readMember? read text = some (member, rest)) (next : skipSpace rest = c :: behind) :
    ∃ spelling, SpellsMember member spelling ∧ text = spelling ++ c :: behind := by
  unfold readMember? at accepted
  split at accepted
  · next start =>
    obtain ⟨⟨name, front⟩, named, accepted⟩ := Option.bind_eq_some_iff.mp accepted
    dsimp only at accepted
    split at accepted
    · next colon =>
      obtain ⟨⟨value, back⟩, inner, accepted⟩ := Option.bind_eq_some_iff.mp accepted
      cases accepted
      obtain ⟨space, blank, before⟩ := exists_space text
      obtain ⟨quoted, spelled, between⟩ := readString?_eq_some named
      obtain ⟨space', blank', after⟩ := exists_space front
      obtain ⟨spelling, spelled', rfl⟩ := sound.padded inner next
      refine ⟨_, .pair blank spelled blank' spelled', ?_⟩
      rw [before, start, between, after, colon]
      simp only [List.append_assoc, List.cons_append]
    · cases accepted
  · cases accepted

theorem readMembers?_eq_some {count : ℕ} {members : List (Option String × Json)}
    (accepted : readMembers? read count text = some (members, rest)) :
    ∃ spelling, SpellsMembers members spelling ∧ text = spelling ++ rest := by
  induction count generalizing text members with
  | zero => cases accepted
  | succ count ih =>
    obtain ⟨⟨member, behind⟩, first, accepted⟩ := Option.bind_eq_some_iff.mp accepted
    dsimp only at accepted
    split at accepted
    · next next =>
      obtain ⟨⟨members, behind'⟩, more, accepted⟩ := Option.bind_eq_some_iff.mp accepted
      cases accepted
      obtain ⟨spelling, spelled, rfl⟩ := readMember?_eq_some sound first next
      obtain ⟨spelling', spelled', rfl⟩ := ih more
      refine ⟨_, .more spelled spelled', ?_⟩
      rw [List.append_assoc, List.cons_append]
    · next next =>
      cases accepted
      obtain ⟨spelling, spelled, rfl⟩ := readMember?_eq_some sound first next
      refine ⟨_, .last spelled, ?_⟩
      rw [List.append_assoc, List.singleton_append]
    · cases accepted

theorem readArray?_eq_some {budget : ℕ} {value : Json}
    (accepted : readArray? budget read text = some (value, rest)) :
    ∃ spelling, Spells value ('[' :: spelling) ∧ text = spelling ++ rest := by
  obtain ⟨space, blank, split⟩ := exists_space text
  unfold readArray? at accepted
  split at accepted
  · next close =>
    cases accepted
    refine ⟨_, .noItems blank, ?_⟩
    rw [List.append_assoc, List.singleton_append, ← close, ← split]
  · obtain ⟨⟨items, behind⟩, inner, same⟩ := Option.map_eq_some_iff.mp accepted
    cases same
    obtain ⟨spelling, spelled, split'⟩ := readItems?_eq_some sound inner
    refine ⟨_, .items (spelled.behind_space blank), ?_⟩
    rw [List.append_assoc, ← split', ← split]

theorem readObject?_eq_some {budget : ℕ} {value : Json}
    (accepted : readObject? budget read text = some (value, rest)) :
    ∃ spelling, Spells value ('\x7b' :: spelling) ∧ text = spelling ++ rest := by
  obtain ⟨space, blank, split⟩ := exists_space text
  unfold readObject? at accepted
  split at accepted
  · next close =>
    cases accepted
    refine ⟨_, .noMembers blank, ?_⟩
    rw [List.append_assoc, List.singleton_append, ← close, ← split]
  · obtain ⟨⟨members, behind⟩, inner, same⟩ := Option.map_eq_some_iff.mp accepted
    cases same
    obtain ⟨spelling, spelled, split'⟩ := readMembers?_eq_some sound inner
    refine ⟨_, .members (spelled.behind_space blank), ?_⟩
    rw [List.append_assoc, ← split', ← split]

/-- A reader that reads the inside of a value with a sound reader is sound. -/
theorem isSound_readValueWith (budget : ℕ) : IsSound (readValueWith budget read) := by
  intro text rest value accepted
  obtain ⟨space, blank, split⟩ := exists_space text
  suffices spelled : ∃ spelling, Spells value spelling ∧ skipSpace text = spelling ++ rest by
    obtain ⟨spelling, spelled, split'⟩ := spelled
    exact ⟨space, spelling, blank, spelled, split' ▸ split⟩
  unfold readValueWith at accepted
  split at accepted
  · next start =>
    cases accepted
    exact ⟨_, .null, start⟩
  · next start =>
    cases accepted
    exact ⟨_, .isTrue, start⟩
  · next start =>
    cases accepted
    exact ⟨_, .isFalse, start⟩
  · next start =>
    obtain ⟨⟨content, behind⟩, inner, same⟩ := Option.map_eq_some_iff.mp accepted
    cases same
    obtain ⟨quoted, spelled, rfl⟩ := readString?_eq_some inner
    exact ⟨_, .string spelled, start⟩
  · next start =>
    obtain ⟨spelling, spelled, rfl⟩ := readArray?_eq_some sound accepted
    exact ⟨_, spelled, start⟩
  · next start =>
    obtain ⟨spelling, spelled, rfl⟩ := readObject?_eq_some sound accepted
    exact ⟨_, spelled, start⟩
  · obtain ⟨⟨numeral, behind⟩, inner, same⟩ := Option.map_eq_some_iff.mp accepted
    cases same
    obtain ⟨spelling, spelled, split'⟩ := readNumeral?_eq_some inner
    exact ⟨spelling, .number spelled, split'⟩

end Values

/-- What is read as a value spells it, at any level. -/
theorem isSound_readValue (budget levels : ℕ) : IsSound (readValue budget levels) := by
  induction levels with
  | zero => exact nofun
  | succ levels ih => exact isSound_readValueWith ih budget

/-- **A text is read as a value exactly if it spells it.** -/
theorem ofChars?_eq_some_iff {text : List Char} {value : Json} :
    ofChars? text = some value ↔ SpellsPadded value text := by
  refine ⟨fun accepted => ?_, ofChars?_of_spells⟩
  unfold ofChars? at accepted
  dsimp only at accepted
  split at accepted
  · next rest read =>
    split at accepted
    · next none =>
      cases accepted
      obtain ⟨space, spelling, blank, spelled, rfl⟩ := isSound_readValue _ _ read
      obtain ⟨after, blank', split⟩ := exists_space rest
      rw [List.isEmpty_iff.mp none, List.append_nil] at split
      exact split ▸ .pad blank spelled blank'
    · cases accepted
  · cases accepted

/-- A text spells at most one value. -/
theorem SpellsPadded.unique {text : List Char} {value other : Json}
    (spelled : SpellsPadded value text) (spelled' : SpellsPadded other text) : value = other :=
  Option.some.inj ((ofChars?_of_spells spelled).symm.trans (ofChars?_of_spells spelled'))

end Waveform.Json
