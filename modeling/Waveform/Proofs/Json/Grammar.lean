import Waveform.Json.Reader

/-!
# The grammar of JSON

The grammar says which texts spell a value. It knows nothing of how a text is read: white space may
stand between any two parts, an exponent may have either letter and may leave out a plus, and a
character of a string may be itself or an escape. The texts of the items of an array and of the
members of an object include the closing bracket.
-/

set_option autoImplicit false

namespace Waveform.Json

open Decimal

/-- White space, if any. -/
def IsBlank (text : List Char) : Prop :=
  ∀ c ∈ text, isSpace c = true

/-! ## Numbers -/

/-- One or more digits. -/
structure IsDigits (digits : List Char) : Prop where
  nonempty : digits ≠ []
  all : ∀ c ∈ digits, c.isDigit = true

/-- The digits in front of a point, of which the first is a zero only if it is the only one. -/
structure IsWhole (digits : List Char) : Prop extends IsDigits digits where
  zero : digits.head? = some '0' → digits = ['0']

/-- The digits behind a point, with the point if there are any. -/
inductive SpellsFraction : List Char → List Char → Prop where
  | absent : SpellsFraction [] []
  | present {digits : List Char} (behind : IsDigits digits) : SpellsFraction digits ('.' :: digits)

/-- The sign of an exponent. -/
inductive SpellsSign : Bool → List Char → Prop where
  | minus : SpellsSign true ['-']
  | plus : SpellsSign false ['+']
  | absent : SpellsSign false []

/-- An exponent, if there is one. -/
inductive SpellsExponent : Option Exponent → List Char → Prop where
  | absent : SpellsExponent none []
  | present {letter : Char} {negative : Bool} {sign digits : List Char}
      (either : letter = 'e' ∨ letter = 'E') (signed : SpellsSign negative sign)
      (power : IsDigits digits) :
      SpellsExponent (some ⟨negative, digits⟩) (letter :: (sign ++ digits))

/-- A number. -/
inductive SpellsNumeral : Numeral → List Char → Prop where
  | unsigned {whole fraction point power : List Char} {exponent : Option Exponent}
      (before : IsWhole whole) (behind : SpellsFraction fraction point)
      (scaled : SpellsExponent exponent power) :
      SpellsNumeral ⟨false, whole, fraction, exponent⟩ (whole ++ (point ++ power))
  | negative {whole fraction point power : List Char} {exponent : Option Exponent}
      (before : IsWhole whole) (behind : SpellsFraction fraction point)
      (scaled : SpellsExponent exponent power) :
      SpellsNumeral ⟨true, whole, fraction, exponent⟩ ('-' :: (whole ++ (point ++ power)))

/-! ## Strings -/

/-- The pieces of a string, up to the closing quote. -/
inductive SpellsPieces : List Piece → List Char → Prop where
  | quote : SpellsPieces [] ['"']
  | char {c : Char} {pieces : List Piece} {text : List Char} (visible : 0x20 ≤ c.toNat)
      (quote : c ≠ '"') (backslash : c ≠ '\\') (spelled : SpellsPieces pieces text) :
      SpellsPieces (.char c :: pieces) (c :: text)
  | escape {letter c : Char} {pieces : List Piece} {text : List Char}
      (escaped : unescape? letter = some c) (spelled : SpellsPieces pieces text) :
      SpellsPieces (.char c :: pieces) ('\\' :: letter :: text)
  | unit {a b c d : Char} {code : Nat} {pieces : List Piece} {text : List Char}
      (digits : hexRun? [a, b, c, d] = some code) (spelled : SpellsPieces pieces text) :
      SpellsPieces (.unit code :: pieces) ('\\' :: 'u' :: a :: b :: c :: d :: text)

/-- A string, up to the closing quote. -/
inductive SpellsString : Option String → List Char → Prop where
  | pieces {pieces : List Piece} {text : List Char} (spelled : SpellsPieces pieces text) :
      SpellsString ((joinPieces? pieces).map String.ofList) text

/-! ## Values -/

mutual

/-- A value. -/
inductive Spells : Json → List Char → Prop where
  | null : Spells .null ['n', 'u', 'l', 'l']
  | isTrue : Spells (.bool true) ['t', 'r', 'u', 'e']
  | isFalse : Spells (.bool false) ['f', 'a', 'l', 's', 'e']
  | number {numeral : Numeral} {text : List Char} (spelled : SpellsNumeral numeral text) :
      Spells (.number numeral) text
  | string {content : Option String} {text : List Char} (spelled : SpellsString content text) :
      Spells (.string content) ('"' :: text)
  | noItems {space : List Char} (blank : IsBlank space) :
      Spells (.array []) ('[' :: (space ++ [']']))
  | items {items : List Json} {text : List Char} (spelled : SpellsItems items text) :
      Spells (.array items) ('[' :: text)
  | noMembers {space : List Char} (blank : IsBlank space) :
      Spells (.object []) ('\x7b' :: (space ++ ['\x7d']))
  | members {members : List (Option String × Json)} {text : List Char}
      (spelled : SpellsMembers members text) : Spells (.object members) ('\x7b' :: text)

/-- A value with white space around it. -/
inductive SpellsPadded : Json → List Char → Prop where
  | pad {value : Json} {before text after : List Char} (blank : IsBlank before)
      (spelled : Spells value text) (blank' : IsBlank after) :
      SpellsPadded value (before ++ (text ++ after))

/-- The items of an array, up to its end. -/
inductive SpellsItems : List Json → List Char → Prop where
  | last {item : Json} {text : List Char} (spelled : SpellsPadded item text) :
      SpellsItems [item] (text ++ [']'])
  | more {item : Json} {items : List Json} {text rest : List Char}
      (spelled : SpellsPadded item text) (spelled' : SpellsItems items rest) :
      SpellsItems (item :: items) (text ++ ',' :: rest)

/-- A name with its value. -/
inductive SpellsMember : Option String × Json → List Char → Prop where
  | pair {name : Option String} {value : Json} {before quoted between text : List Char}
      (blank : IsBlank before) (named : SpellsString name quoted) (blank' : IsBlank between)
      (spelled : SpellsPadded value text) :
      SpellsMember (name, value) (before ++ '"' :: (quoted ++ (between ++ ':' :: text)))

/-- The members of an object, up to its end. -/
inductive SpellsMembers : List (Option String × Json) → List Char → Prop where
  | last {member : Option String × Json} {text : List Char} (spelled : SpellsMember member text) :
      SpellsMembers [member] (text ++ ['\x7d'])
  | more {member : Option String × Json} {members : List (Option String × Json)}
      {text rest : List Char} (spelled : SpellsMember member text)
      (spelled' : SpellsMembers members rest) :
      SpellsMembers (member :: members) (text ++ ',' :: rest)

end

end Waveform.Json
