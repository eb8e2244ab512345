/-!
# JSON values

A value keeps what a reader of whole numbers and texts needs: numbers that are not written as
plain integers are kept as they were written, and a string literal with an unpaired surrogate
escape, which spells no text, is kept as such.

## Main definitions

* `Json`: the values.
* `Json.field`: the members of an object with a given name.
-/

namespace HiveForum

/-- A JSON value. -/
inductive Json where
  /-- The literal `null`. -/
  | null
  /-- The literals `true` and `false`. -/
  | bool (value : Bool)
  | integer (value : Int)
  /-- A number written with a fraction, with an exponent, or as minus zero. -/
  | decimal (lexeme : List Char)
  /-- A string literal: the text that it spells, or none if a surrogate escape has no partner. -/
  | string (spelled : Option String)
  | array (items : List Json)
  /-- Members in the order written; names may repeat. -/
  | object (members : List (Option String × Json))

namespace Json

instance : Inhabited Json := ⟨null⟩

/-- The string literal that spells `text`. -/
def text (text : String) : Json := .string (some text)

/-- The object with the given names and values. -/
def record (members : List (String × Json)) : Json :=
  .object (members.map fun m => (some m.1, m.2))

/-- The values of the members with the given name, in order. -/
def field (members : List (Option String × Json)) (name : String) : List Json :=
  (members.filter (·.1 == some name)).map (·.2)

/-- The literal `null` for no value. -/
def ofOption {α : Type} (encode : α → Json) : Option α → Json
  | none => .null
  | some a => encode a

end Json

end HiveForum
