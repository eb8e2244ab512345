import HiveForum.Json.Value
import HiveForum.Uuid

/-!
# Reading typed values

A typed value is read from the members of an object, in any order and with unknown members
ignored, or from an array of its fields in order.

## Main definitions

* `Json.fields?`: what is given for each field of a value.
* `Json.required`, `Json.optional`: fields that must, and that may, be given.
* `Json.int64?`, `Json.bool?`, `Json.text?`, `Json.uuid?`, `Json.listOf?`: the types of fields.
-/

namespace HiveForum.Json

/-- What the members give for one field: nothing, or one value. -/
def single? (members : List (Option String × Json)) (name : String) : Option (Option Json) :=
  match field members name with
  | [] => some none
  | [value] => some (some value)
  | _ => none

/-- What a value gives for each of the named fields. A member whose name is no text or a named
member that occurs twice is refused, as is an array with another number of items. -/
def fields? (names : List String) : Json → Option (List (Option Json))
  | .object members =>
    if members.any (·.1.isNone) then none else names.mapM (single? members)
  | .array items => if items.length = names.length then some (items.map some) else none
  | _ => none

/-- A field that must be given. -/
def required {α : Type} (decode : Json → Option α) : Option Json → Option α
  | none => none
  | some value => decode value

/-- A field that may be missing or null. -/
def optional {α : Type} (decode : Json → Option α) : Option Json → Option (Option α)
  | none => some none
  | some .null => some none
  | some value => (decode value).map some

/-- A signed 64-bit word. -/
def int64? : Json → Option Int64
  | .integer n =>
    if -9223372036854775808 ≤ n ∧ n ≤ 9223372036854775807 then some (Int64.ofInt n) else none
  | _ => none

/-- A truth value. -/
def bool? : Json → Option Bool
  | .bool value => some value
  | _ => none

/-- A text. -/
def text? : Json → Option String
  | .string spelled => spelled
  | _ => none

/-- An identifier in any of its written forms. -/
def uuid? (value : Json) : Option Uuid := value.text?.bind Uuid.parse?

/-- A list of values. -/
def listOf? {α : Type} (decode : Json → Option α) : Json → Option (List α)
  | .array items => items.mapM decode
  | _ => none

end HiveForum.Json
