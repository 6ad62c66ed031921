import Waveform.Formula.Grammar

/-!
# Reading a formula

A formula is brought into normal form and read as a sum. There is always a result: an
expression and what was found on the way. Text behind the sum is left out and noted;
an abandoned reading counts as zero.
-/

set_option autoImplicit false

namespace Waveform

open Formula

/-- A formula that was read. -/
structure Parsed where
  expr : Expr
  diagnostics : List Diagnostic
  normalized : String

namespace Parsed

/-- Whether all of the formula was understood. -/
def isClean (parsed : Parsed) : Bool :=
  parsed.diagnostics.isEmpty

/-- Whether the reading was abandoned. -/
def isFatal (parsed : Parsed) : Bool :=
  parsed.diagnostics.any Diagnostic.isFatal

/-- The finding that ended an abandoned reading. -/
def fatal? (parsed : Parsed) : Option Diagnostic :=
  parsed.diagnostics.find? Diagnostic.isFatal

end Parsed

/-- The cursor behind the end of a formula; text that is left there is noted. -/
def Formula.Cursor.finish (cursor : Cursor) : Cursor :=
  match cursor.rest with
  | [] => cursor
  | rest =>
    let stop := cursor.position + Text.byteLength rest
    cursor.note (.trailingInput (String.ofList rest) ⟨cursor.position, stop⟩)

/-- Reads a formula in normal form. -/
def Formula.readAll (limits : Limits) (text : List Char) : Expr × Array Diagnostic :=
  match readSum limits (operand limits limits.depth) (.start limits text) with
  | .ok (expr, cursor) => (expr, cursor.finish.findings)
  | .error findings => (.zero, findings)

/-- Reads a formula. -/
def parse (formula : String) (limits : Limits := {}) : Parsed :=
  let normal := Text.normalChars formula.toList
  let (expr, findings) := readAll limits normal
  { expr, diagnostics := findings.toList, normalized := String.ofList normal }

end Waveform
