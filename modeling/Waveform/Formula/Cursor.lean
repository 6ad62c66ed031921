import Waveform.Diagnostic
import Waveform.Text.Normal

/-!
# Where a reading stands

A formula is read from left to right. The cursor holds what is left of it, the byte
at which that starts, how many nodes may still be read, and what was found so far.
A production takes a cursor and yields a part of the formula with the cursor behind
it. It fails only when a limit is exceeded, and then yields the findings alone.
-/

set_option autoImplicit false

namespace Waveform.Formula

/-- How far a reading may go: groups, calls and signs nested in each other, and
operands and operators in all. -/
structure Limits where
  depth : Nat := 100
  nodes : Nat := 10000
  deriving DecidableEq, Repr

/-- The state of a reading. -/
structure Cursor where
  rest : List Char
  position : Nat
  spare : Nat
  findings : Array Diagnostic

/-- What comes of a step: its result or, once a limit is exceeded, the findings of the
abandoned reading. -/
abbrev Outcome := Except (Array Diagnostic)

namespace Cursor

/-- The cursor in front of a formula. -/
def start (limits : Limits) (text : List Char) : Cursor :=
  { rest := text, position := 0, spare := limits.nodes, findings := #[] }

/-- The cursor with one finding more. -/
def note (cursor : Cursor) (finding : Diagnostic) : Cursor :=
  { cursor with findings := cursor.findings.push finding }

/-- The cursor behind the next character. -/
def skip (cursor : Cursor) : Cursor :=
  match cursor.rest with
  | [] => cursor
  | c :: rest => { cursor with rest, position := cursor.position + c.utf8Size }

/-- The characters up to the first that `keep` rejects, and the cursor behind them. -/
def takeWhile (cursor : Cursor) (keep : Char → Bool) : List Char × Cursor :=
  let taken := cursor.rest.takeWhile keep
  (taken, { cursor with
    rest := cursor.rest.dropWhile keep
    position := cursor.position + Text.byteLength taken })

/-- The cursor with one node less to spare, or the findings where none is left. -/
def charge (limits : Limits) (cursor : Cursor) : Outcome Cursor :=
  match cursor.spare with
  | 0 => .error (cursor.findings.push (.maxNodesExceeded limits.nodes))
  | spare + 1 => .ok { cursor with spare }

/-- The findings of a reading that is abandoned for its nesting. -/
def tooDeep (limits : Limits) (cursor : Cursor) : Array Diagnostic :=
  cursor.findings.push (.maxDepthExceeded limits.depth)

/-- The cursor behind a closing parenthesis; one that is missing is noted. -/
def close (cursor : Cursor) : Cursor :=
  match cursor.rest with
  | ')' :: _ => cursor.skip
  | _ => cursor.note (.unclosedParen (.single cursor.position))

end Cursor

end Waveform.Formula
