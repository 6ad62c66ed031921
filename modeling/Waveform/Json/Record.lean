import Waveform.Json.Reader

/-!
# Records in JSON

A record with named fields is an object or an array. In an object the fields are found
by name, in any order; members of other names are passed over. In an array they are
found by their place in the order of declaration. No field may occur twice, and an
array may have no items beyond the fields.
-/

set_option autoImplicit false

namespace Waveform.Json

/-- The value of the one member with the given name, or `none` inside if there is no
such member. It fails if there are two. -/
def member? (members : List (Option String × Json)) (name : String) : Option (Option Json) :=
  match members.filter fun member => member.1 == some name with
  | [] => some none
  | [member] => some (some member.2)
  | _ => none

/-- The values of the fields of a record in the given order, each with `none` if it is
missing. A name without a text is no name, and makes an object no record. -/
def fields? (names : List String) : Json → Option (List (Option Json))
  | .object members =>
    if members.all fun member => member.1.isSome then names.mapM (member? members) else none
  | .array items =>
    if items.length ≤ names.length then
      some (items.map some ++ List.replicate (names.length - items.length) none)
    else none
  | _ => none

/-- The items of an array. -/
def items? : Json → Option (List Json)
  | .array items => some items
  | _ => none

end Waveform.Json
