/-!
# White space

The characters a formula may be spaced out with are those that have the
White_Space property: tabs and line breaks, the space, and the spaces of other
scripts. A text made of nothing else counts as blank.
-/

set_option autoImplicit false

namespace Waveform.Text

/-- The code points that have the White_Space property, as closed ranges in
increasing order. -/
def blankRanges : List (Nat × Nat) :=
  [(0x09, 0x0D), (0x20, 0x20), (0x85, 0x85), (0xA0, 0xA0), (0x1680, 0x1680), (0x2000, 0x200A),
    (0x2028, 0x2029), (0x202F, 0x202F), (0x205F, 0x205F), (0x3000, 0x3000)]

/-- Whether a character is white space. -/
def isBlank (c : Char) : Bool :=
  blankRanges.any fun (first, last) => first ≤ c.toNat && c.toNat ≤ last

/-- Whether a text has no character but white space; the empty text is blank. -/
def isBlankText (text : String) : Bool :=
  text.toList.all isBlank

end Waveform.Text
