import Waveform.Decimal.Layout

/-!
# JSON values

A JSON value keeps numbers as they are written and members in their order, also where
a name occurs twice. An escape in a string may stand for half of a surrogate pair. Such
a string has no text, but it is a string all the same: where nobody asks for its text,
it does no harm.
-/

set_option autoImplicit false

namespace Waveform

/-- A JSON value. -/
inductive Json where
  | null
  | bool (value : Bool)
  | number (numeral : Decimal.Numeral)
  | string (text : Option String)
  | array (items : List Json)
  | object (members : List (Option String × Json))

namespace Json

/-- A string with a text. -/
def ofString (text : String) : Json :=
  .string (some text)

/-- A whole number. -/
def ofNat (value : Nat) : Json :=
  .number { negative := false, whole := Nat.toDigits 10 value }

/-- A floating-point number by its shortest decimal. What is not finite has no numeral
and becomes `null`. -/
def ofFloat (value : Float) : Json :=
  match Decimal.Layout.json.numeral? value with
  | some numeral => .number numeral
  | none => .null

/-- An object with the given members. -/
def ofMembers (members : List (String × Json)) : Json :=
  .object (members.map fun (name, value) => (some name, value))

end Json

end Waveform
