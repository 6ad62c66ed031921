import Waveform.Text.Blank
import Waveform.Text.LowerCase

/-!
# The normal form of a formula

Formulas are read without their white space and in lower case. Places in a
formula are counted in bytes of the UTF-8 encoding of its normal form.
-/

set_option autoImplicit false

namespace Waveform.Text

/-- The characters of a text without its white space and in lower case. -/
def normalChars (chars : List Char) : List Char :=
  (chars.filter fun c => !isBlank c).flatMap lowerCase

/-- The number of bytes that characters take in UTF-8. -/
def byteLength : List Char → Nat
  | [] => 0
  | c :: chars => c.utf8Size + byteLength chars

@[simp]
theorem byteLength_nil : byteLength [] = 0 := rfl

@[simp]
theorem byteLength_cons (c : Char) (chars : List Char) :
    byteLength (c :: chars) = c.utf8Size + byteLength chars := rfl

/-- The bytes of two texts in a row are those of both. -/
@[simp]
theorem byteLength_append (first second : List Char) :
    byteLength (first ++ second) = byteLength first + byteLength second := by
  induction first with
  | nil => simp
  | cons c chars ih => simp [ih, Nat.add_assoc]

end Waveform.Text

namespace Waveform

/-- The text without its white space and in lower case. -/
def normalize (text : String) : String :=
  String.ofList (Text.normalChars text.toList)

end Waveform
