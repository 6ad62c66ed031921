import Waveform.Diagnostic
import Waveform.Sampler.Settings

/-!
# The log

Reading and sampling leave a log, which is a part of their result: the list of what
happened, in order. Every event has a level and can be said in words.
-/

set_option autoImplicit false

namespace Waveform

/-- How important an event is. -/
inductive Level where
  | debug
  | warn
  | error
  deriving DecidableEq, Repr

/-- What happened. -/
inductive Event where
  /-- A formula was read. -/
  | parsed (normalized : String) (nodes findings : Nat)
  /-- Something was noticed in a formula that is sampled all the same. -/
  | noted (finding : Diagnostic)
  /-- The reading of a formula was abandoned. -/
  | unreadable (formula : String) (finding : Diagnostic)
  /-- A summand was left out of a sum of pulses. -/
  | dropped (finding : Diagnostic)
  /-- A formula was read as a sum of pulses. -/
  | closedForm (normalized : String) (pulses rejected : Nat)
  /-- A signal was sampled. -/
  | sampled (points : Nat) (domain : Interval) (area : Float)
  /-- Nothing was sampled because of the settings. -/
  | unusable (error : SettingsError)

namespace Event

/-- How important an event is. -/
def level : Event → Level
  | .parsed .. | .noted _ | .closedForm .. | .sampled .. => .debug
  | .dropped _ => .warn
  | .unreadable .. | .unusable _ => .error

/-- An event in words. -/
def message : Event → String
  | .parsed normalized nodes findings =>
    "parsed '" ++ normalized ++ "' into " ++ toString nodes ++ " nodes (" ++ toString findings ++
      " diagnostics)"
  | .noted finding => finding.message
  | .unreadable formula finding => "could not parse '" ++ formula ++ "': " ++ finding.message
  | .dropped finding => finding.message
  | .closedForm normalized pulses rejected =>
    "closed form '" ++ normalized ++ "': " ++ toString pulses ++ " pulses, " ++
      toString rejected ++ " rejected terms"
  | .sampled points domain area =>
    "sampled " ++ toString points ++ " finite points, domain [" ++
      Decimal.plainText domain.lower ++ ", " ++ Decimal.plainText domain.upper ++ "], area " ++
      Decimal.plainText area
  | .unusable error => "cannot sample: " ++ error.message

end Event

/-- A result with the events on the way to it, the earliest first. -/
structure Logged (α : Type) where
  value : α
  events : List Event := []

namespace Logged

instance : Monad Logged where
  pure value := { value }
  bind first next :=
    let second := next first.value
    { value := second.value, events := first.events ++ second.events }

/-- The event by itself. -/
def emit (event : Event) : Logged Unit :=
  { value := (), events := [event] }

/-- Events by themselves, in order. -/
def emitAll (events : List Event) : Logged Unit :=
  { value := (), events }

end Logged

end Waveform
