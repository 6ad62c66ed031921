/-!
# Summands of a formula

A formula in normal form is cut in front of every `+` and `-` outside of parentheses.
The sign stays with the summand that it starts. A closing parenthesis without an
opening one changes nothing.
-/

set_option autoImplicit false

namespace Waveform.Pulse

/-- Whether a character is a sign. -/
def isSign (c : Char) : Bool :=
  c == '+' || c == '-'

/-- How many parentheses are open behind a character. -/
def nestingAfter (nesting : Nat) (c : Char) : Nat :=
  if c = '(' then nesting + 1 else if c = ')' then nesting - 1 else nesting

/-- The text up to the first cut, and the summands behind it, each with its sign. -/
def cut : Nat → List Char → List Char × List (List Char)
  | _, [] => ([], [])
  | nesting, c :: rest =>
    let (term, later) := cut (nestingAfter nesting c) rest
    if isSign c && nesting == 0 then ([], (c :: term) :: later) else (c :: term, later)

/-- The summands of a formula. None of them is empty. -/
def summands (text : List Char) : List (List Char) :=
  match cut 0 text with
  | ([], later) => later
  | (term, later) => term :: later

end Waveform.Pulse
