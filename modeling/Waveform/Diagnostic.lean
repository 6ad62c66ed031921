import Waveform.Span

/-!
# Findings about a formula

A formula is always read as something. Whatever was not understood on the way counts
as zero, is left out, or is completed, and leaves a finding behind. Two findings are
fatal: those that say that a limit was exceeded and the reading abandoned.
-/

set_option autoImplicit false

namespace Waveform

/-- What was noticed while a formula was read. -/
inductive Diagnostic where
  /-- No operand starts with this character, or the text ended before one. -/
  | unexpectedToken (got : Option Char) (span : Span)
  /-- A name that means nothing. -/
  | unknownIdentifier (name : String) (span : Span)
  /-- A function's name without an argument. -/
  | missingArgument (name : String) (span : Span)
  /-- A run of digits and points that is not a number. -/
  | invalidNumber (run : String) (span : Span)
  /-- A group or an argument that is not closed. -/
  | unclosedParen (span : Span)
  /-- Text after the end of the formula. -/
  | trailingInput (rest : String) (span : Span)
  /-- Groups, calls and signs nested more deeply than allowed. -/
  | maxDepthExceeded (limit : Nat)
  /-- More operands and operators than allowed. -/
  | maxNodesExceeded (limit : Nat)
  /-- A summand that is not a pulse. -/
  | unrecognizedTerm (term : String)
  /-- A pulse that is zero everywhere. -/
  | degeneratePulse (term : String)
  deriving DecidableEq, Repr

namespace Diagnostic

/-- What a finding is about, without the place and the text. -/
inductive Kind where
  | unexpectedToken
  | unknownIdentifier
  | missingArgument
  | invalidNumber
  | unclosedParen
  | trailingInput
  | maxDepthExceeded
  | maxNodesExceeded
  | unrecognizedTerm
  | degeneratePulse
  deriving DecidableEq, Repr

/-- The kind of a finding. -/
def kind : Diagnostic → Kind
  | .unexpectedToken .. => .unexpectedToken
  | .unknownIdentifier .. => .unknownIdentifier
  | .missingArgument .. => .missingArgument
  | .invalidNumber .. => .invalidNumber
  | .unclosedParen .. => .unclosedParen
  | .trailingInput .. => .trailingInput
  | .maxDepthExceeded .. => .maxDepthExceeded
  | .maxNodesExceeded .. => .maxNodesExceeded
  | .unrecognizedTerm .. => .unrecognizedTerm
  | .degeneratePulse .. => .degeneratePulse

/-- Whether the reading was abandoned. -/
def isFatal : Diagnostic → Bool
  | .maxDepthExceeded _ | .maxNodesExceeded _ => true
  | _ => false

/-- Where in the normal form the finding is; limits and whole summands have no
place. -/
def span? : Diagnostic → Option Span
  | .unexpectedToken _ span | .unknownIdentifier _ span | .missingArgument _ span
  | .invalidNumber _ span | .unclosedParen span | .trailingInput _ span => some span
  | .maxDepthExceeded _ | .maxNodesExceeded _ | .unrecognizedTerm _ | .degeneratePulse _ => none

/-- The text that the finding is about. -/
def text? : Diagnostic → Option String
  | .unexpectedToken (some c) _ => some (String.singleton c)
  | .unexpectedToken none _ => some "end of input"
  | .unknownIdentifier text _ | .missingArgument text _ | .invalidNumber text _
  | .trailingInput text _ | .unrecognizedTerm text | .degeneratePulse text => some text
  | .unclosedParen _ | .maxDepthExceeded _ | .maxNodesExceeded _ => none

/-- The limit that was exceeded. -/
def limit? : Diagnostic → Option Nat
  | .maxDepthExceeded limit | .maxNodesExceeded limit => some limit
  | _ => none

/-- The finding in words. -/
def message (finding : Diagnostic) : String :=
  let quoted := "'" ++ finding.text?.getD "" ++ "'"
  let place := (finding.span?.map Span.words).getD ""
  let limit := toString (finding.limit?.getD 0)
  match finding with
  | .unexpectedToken _ _ => "Unexpected " ++ quoted ++ place ++ ", treated as 0"
  | .unknownIdentifier _ _ => "Unknown identifier " ++ quoted ++ place ++ ", treated as 0"
  | .missingArgument _ _ =>
    "Function " ++ quoted ++ " used without an argument" ++ place ++ ", treated as 0"
  | .invalidNumber _ _ => "Invalid number format: " ++ quoted ++ place
  | .unclosedParen _ => "Missing ')'" ++ place
  | .trailingInput _ _ => "Ignored trailing input " ++ quoted ++ place
  | .maxDepthExceeded _ => "Expression nesting depth exceeds maximum limit of " ++ limit
  | .maxNodesExceeded _ => "Expression node count exceeds maximum limit of " ++ limit
  | .unrecognizedTerm _ => "Unrecognized term: " ++ quoted
  | .degeneratePulse _ => "Pulse with zero width ignored: " ++ quoted

end Diagnostic

end Waveform
