import Waveform.Json.Basic

/-!
# Writing JSON

A value is written either on one line and without spaces, or with every item and member
on a line of its own, two spaces further in than what it belongs to. Characters are
written as they are, but for the quote, the backslash and the control characters.
-/

set_option autoImplicit false

namespace Waveform.Json

/-- A hexadecimal digit in lower case. -/
def hexDigit (value : Nat) : Char :=
  if value < 10 then Char.ofNat ('0'.toNat + value) else Char.ofNat ('a'.toNat + (value - 10))

/-- A character inside of a string. -/
def escape (c : Char) : List Char :=
  if c = '"' then ['\\', '"']
  else if c = '\\' then ['\\', '\\']
  else if c = '\x08' then ['\\', 'b']
  else if c = '\x0C' then ['\\', 'f']
  else if c = '\n' then ['\\', 'n']
  else if c = '\x0D' then ['\\', 'r']
  else if c = '\t' then ['\\', 't']
  else if c.toNat < 0x20 then
    ['\\', 'u', '0', '0', hexDigit (c.toNat / 16), hexDigit (c.toNat % 16)]
  else [c]

/-- A string in its quotes. One without a text is half of a surrogate pair. -/
def stringChars (text : Option String) : List Char :=
  let inner :=
    match text with
    | some text => text.toList.flatMap escape
    | none => ['\\', 'u', 'd', '8', '0', '0']
  '"' :: inner ++ ['"']

/-- What separates a line from the one before it: nothing if all is on one line, and
otherwise a line break and the indentation. -/
def lineBreak : Option Nat → List Char
  | none => []
  | some levels => '\n' :: List.replicate (2 * levels) ' '

/-- What stands between a name and its value. -/
def separator : Option Nat → List Char
  | none => [':']
  | some _ => [':', ' ']

mutual

/-- The characters of a value. The indentation of its first line is given, or none if
all is to be on one line. -/
def chars (indent : Option Nat) : Json → List Char
  | .null => "null".toList
  | .bool value => (if value then "true" else "false").toList
  | .number numeral => numeral.chars
  | .string text => stringChars text
  | .array [] => ['[', ']']
  | .array (item :: items) =>
    let deeper := indent.map (· + 1)
    '[' :: lineBreak deeper ++ chars deeper item ++ itemsChars indent items
  | .object [] => ['\x7b', '\x7d']
  | .object ((name, value) :: members) =>
    let deeper := indent.map (· + 1)
    '\x7b' :: lineBreak deeper ++ stringChars name ++ separator indent ++ chars deeper value ++
      membersChars indent members

/-- The further items of an array, up to its end. -/
def itemsChars (indent : Option Nat) : List Json → List Char
  | [] => lineBreak indent ++ [']']
  | item :: items =>
    let deeper := indent.map (· + 1)
    ',' :: lineBreak deeper ++ chars deeper item ++ itemsChars indent items

/-- The further members of an object, up to its end. -/
def membersChars (indent : Option Nat) : List (Option String × Json) → List Char
  | [] => lineBreak indent ++ ['\x7d']
  | (name, value) :: members =>
    let deeper := indent.map (· + 1)
    ',' :: lineBreak deeper ++ stringChars name ++ separator indent ++ chars deeper value ++
      membersChars indent members

end

/-- The text of a value on one line. -/
def compact (value : Json) : String :=
  String.ofList (value.chars none)

/-- The text of a value with indentation. -/
def pretty (value : Json) : String :=
  String.ofList (value.chars (some 0))

end Waveform.Json
