import Waveform.Json.Basic

/-!
# Reading JSON

Texts are read strictly: nothing but white space may surround a value, numbers have no
needless zero in front, and a comma is always followed by something. Arrays and objects
may be nested to any depth.

`readValueWith` reads a value with the help of a reader for the values inside of it.
`readValue` closes that circle by recursion on the number of levels; a text cannot have
more levels than characters.
-/

set_option autoImplicit false

namespace Waveform.Json

/-- White space between the parts of a text. -/
def isSpace (c : Char) : Bool :=
  c == ' ' || c == '\n' || c == '\t' || c == '\x0D'

/-- A text without the white space in front. -/
def skipSpace (text : List Char) : List Char :=
  text.dropWhile isSpace

/-! ## Numbers -/

/-- One or more digits. -/
def readDigits? (text : List Char) : Option (List Char × List Char) :=
  match text.takeWhile Char.isDigit with
  | [] => none
  | digits => some (digits, text.dropWhile Char.isDigit)

/-- The digits in front of a point: a zero, or digits that start with another one. -/
def readWhole? (text : List Char) : Option (List Char × List Char) := do
  let (digits, rest) ← readDigits? text
  guard (digits.head? != some '0' || digits == ['0'])
  return (digits, rest)

/-- The digits behind a point, if there is one. -/
def readFraction? : List Char → Option (List Char × List Char)
  | '.' :: rest => readDigits? rest
  | rest => some ([], rest)

/-- The sign of an exponent, if it has one, and whether it is negative. -/
def readExponentSign : List Char → Bool × List Char
  | '-' :: rest => (true, rest)
  | '+' :: rest => (false, rest)
  | rest => (false, rest)

/-- An exponent, if there is one. -/
def readExponent? : List Char → Option (Option Decimal.Exponent × List Char)
  | c :: rest =>
    if c = 'e' || c = 'E' then do
      let (negative, rest) := readExponentSign rest
      let (digits, rest) ← readDigits? rest
      return (some { negative, digits }, rest)
    else some (none, c :: rest)
  | [] => some (none, [])

/-- A number without its sign. -/
def readUnsigned? (negative : Bool) (text : List Char) :
    Option (Decimal.Numeral × List Char) := do
  let (whole, rest) ← readWhole? text
  let (fraction, rest) ← readFraction? rest
  let (exponent, rest) ← readExponent? rest
  return ({ negative, whole, fraction, exponent }, rest)

/-- A number. -/
def readNumeral? : List Char → Option (Decimal.Numeral × List Char)
  | '-' :: rest => readUnsigned? true rest
  | rest => readUnsigned? false rest

/-! ## Strings -/

/-- A part of a string: a character, or a unit of UTF-16 that an escape gives. -/
inductive Piece where
  | char (c : Char)
  | unit (code : Nat)
  deriving DecidableEq, Repr

/-- The value of a hexadecimal digit. -/
def hexValue? (c : Char) : Option Nat :=
  if c.isDigit then some (c.toNat - '0'.toNat)
  else if 'a' ≤ c && c ≤ 'f' then some (c.toNat - 'a'.toNat + 10)
  else if 'A' ≤ c && c ≤ 'F' then some (c.toNat - 'A'.toNat + 10)
  else none

/-- The value of a run of hexadecimal digits. -/
def hexRun? (digits : List Char) : Option Nat :=
  digits.foldlM (fun value c => (hexValue? c).map (16 * value + ·)) 0

/-- The character that a backslash and a letter stand for. -/
def unescape? : Char → Option Char
  | '"' => some '"'
  | '\\' => some '\\'
  | '/' => some '/'
  | 'b' => some '\x08'
  | 'f' => some '\x0C'
  | 'n' => some '\n'
  | 'r' => some '\x0D'
  | 't' => some '\t'
  | _ => none

/-- The pieces of a string behind its opening quote, and the text behind the closing
one. -/
def readPieces? : List Char → Option (List Piece × List Char)
  | [] => none
  | '"' :: rest => some ([], rest)
  | '\\' :: 'u' :: a :: b :: c :: d :: rest => do
    let code ← hexRun? [a, b, c, d]
    let (pieces, rest) ← readPieces? rest
    return (.unit code :: pieces, rest)
  | '\\' :: c :: rest => do
    let c ← unescape? c
    let (pieces, rest) ← readPieces? rest
    return (.char c :: pieces, rest)
  | c :: rest => do
    guard (0x20 ≤ c.toNat && c != '\\')
    let (pieces, rest) ← readPieces? rest
    return (.char c :: pieces, rest)

/-- Whether a unit is the first half of a surrogate pair. -/
def isHighSurrogate (code : Nat) : Bool :=
  0xD800 ≤ code && code < 0xDC00

/-- Whether a unit is the second half of a surrogate pair. -/
def isLowSurrogate (code : Nat) : Bool :=
  0xDC00 ≤ code && code < 0xE000

/-- The character of a surrogate pair. -/
def ofSurrogates (high low : Nat) : Char :=
  Char.ofNat (0x10000 + (high - 0xD800) * 0x400 + (low - 0xDC00))

/-- The text of pieces. Half a surrogate pair has none. -/
def joinPieces? : List Piece → Option (List Char)
  | [] => some []
  | .char c :: pieces => (joinPieces? pieces).map (c :: ·)
  | .unit high :: .unit low :: pieces =>
    if isHighSurrogate high then
      if isLowSurrogate low then (joinPieces? pieces).map (ofSurrogates high low :: ·) else none
    else if isLowSurrogate high then none
    else (joinPieces? (.unit low :: pieces)).map (Char.ofNat high :: ·)
  | .unit code :: pieces =>
    if isHighSurrogate code || isLowSurrogate code then none
    else (joinPieces? pieces).map (Char.ofNat code :: ·)

/-- A string behind its opening quote. -/
def readString? (text : List Char) : Option (Option String × List Char) := do
  let (pieces, rest) ← readPieces? text
  return ((joinPieces? pieces).map String.ofList, rest)

/-! ## Arrays, objects and values -/

/-- A production for values. -/
abbrev ValueReader := List Char → Option (Json × List Char)

/-- The items of an array up to its end, of which there are at most `budget`. -/
def readItems? (read : ValueReader) : Nat → List Char → Option (List Json × List Char)
  | 0, _ => none
  | budget + 1, text => do
    let (item, rest) ← read text
    match skipSpace rest with
    | ',' :: rest => do
      let (items, rest) ← readItems? read budget rest
      return (item :: items, rest)
    | ']' :: rest => return ([item], rest)
    | _ => none

/-- A name with its value. -/
def readMember? (read : ValueReader) (text : List Char) :
    Option ((Option String × Json) × List Char) :=
  match skipSpace text with
  | '"' :: rest => do
    let (name, rest) ← readString? rest
    match skipSpace rest with
    | ':' :: rest => do
      let (value, rest) ← read rest
      return ((name, value), rest)
    | _ => none
  | _ => none

/-- The members of an object up to its end, of which there are at most `budget`. -/
def readMembers? (read : ValueReader) :
    Nat → List Char → Option (List (Option String × Json) × List Char)
  | 0, _ => none
  | budget + 1, text => do
    let (member, rest) ← readMember? read text
    match skipSpace rest with
    | ',' :: rest => do
      let (members, rest) ← readMembers? read budget rest
      return (member :: members, rest)
    | '\x7d' :: rest => return ([member], rest)
    | _ => none

/-- An array behind its opening bracket. -/
def readArray? (budget : Nat) (read : ValueReader) (text : List Char) :
    Option (Json × List Char) :=
  match skipSpace text with
  | ']' :: rest => some (.array [], rest)
  | rest => (readItems? read budget rest).map fun (items, rest) => (.array items, rest)

/-- An object behind its opening brace. -/
def readObject? (budget : Nat) (read : ValueReader) (text : List Char) :
    Option (Json × List Char) :=
  match skipSpace text with
  | '\x7d' :: rest => some (.object [], rest)
  | rest => (readMembers? read budget rest).map fun (members, rest) => (.object members, rest)

/-- A value, given how the values inside of it are read. -/
def readValueWith (budget : Nat) (read : ValueReader) : ValueReader :=
  fun text =>
    match skipSpace text with
    | 'n' :: 'u' :: 'l' :: 'l' :: rest => some (.null, rest)
    | 't' :: 'r' :: 'u' :: 'e' :: rest => some (.bool true, rest)
    | 'f' :: 'a' :: 'l' :: 's' :: 'e' :: rest => some (.bool false, rest)
    | '"' :: rest => (readString? rest).map fun (text, rest) => (.string text, rest)
    | '[' :: rest => readArray? budget read rest
    | '\x7b' :: rest => readObject? budget read rest
    | rest => (readNumeral? rest).map fun (numeral, rest) => (.number numeral, rest)

/-- A value with at most the given number of levels, and at most `budget` items or
members in each array or object. -/
def readValue (budget : Nat) : Nat → ValueReader
  | 0, _ => none
  | levels + 1, text => readValueWith budget (readValue budget levels) text

/-- The value that a text is. -/
def ofChars? (text : List Char) : Option Json :=
  let size := text.length
  match readValue size size text with
  | some (value, rest) => if (skipSpace rest).isEmpty then some value else none
  | none => none

/-- The value that a text is. -/
def ofText? (text : String) : Option Json :=
  ofChars? text.toList

end Waveform.Json
