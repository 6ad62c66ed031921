import Waveform.Json.Number
import Waveform.Json.Record
import Waveform.Json.Writer
import Waveform.Pulse.Basic

/-!
# Pulses in JSON

A pulse is a record of its amplitude, kind, center and width, the last under the name
`param`. The kind is the name of the shape, or an object in which the name has the value
`null`.
-/

set_option autoImplicit false

namespace Waveform

/-- The shape with a name. -/
def Shape.named? (name : String) : Option Shape :=
  [Shape.rect, Shape.tri].find? (·.name == name)

/-- The shape that a value stands for. -/
def Shape.ofJson? : Json → Option Shape
  | .string (some name) => Shape.named? name
  | .object [(some name, .null)] => Shape.named? name
  | _ => none

namespace Pulse

/-- The names of the fields of a pulse. -/
def fieldNames : List String := ["amplitude", "kind", "center", "param"]

/-- A pulse as a JSON object. -/
def toJson (pulse : Pulse) : Json :=
  .ofMembers
    [("amplitude", .ofFloat pulse.amplitude), ("kind", .ofString pulse.shape.name),
      ("center", .ofFloat pulse.center), ("param", .ofFloat pulse.width)]

/-- The pulse that a value stands for. -/
def ofJson? (value : Json) : Option Pulse := do
  match ← value.fields? fieldNames with
  | [some amplitude, some kind, some center, some param] =>
    return {
      amplitude := ← amplitude.float?
      shape := ← Shape.ofJson? kind
      center := ← center.float?
      width := ← param.float? }
  | _ => none

/-- Pulses as a JSON array. -/
def listToJson (pulses : List Pulse) : Json :=
  .array (pulses.map toJson)

/-- The pulses that a value stands for. -/
def listOfJson? (value : Json) : Option (List Pulse) := do
  (← value.items?).mapM ofJson?

/-- The pulses that a text stands for. -/
def listOfText? (text : String) : Option (List Pulse) := do
  listOfJson? (← Json.ofText? text)

end Pulse

end Waveform
