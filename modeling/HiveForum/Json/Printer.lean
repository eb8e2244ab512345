import HiveForum.Json.Value
import HiveForum.Json.Literal
import HiveForum.Text.Numeral

/-!
# Writing JSON

Values are written without blanks, members in their order.

## Main definitions

* `Json.render`: the written form of a value.
-/

namespace HiveForum.Json

/-- The written form of what a string literal spells; an escape without partner if it spells
nothing. -/
def renderString : Option String → List Char
  | some text => Literal.write text.toList
  | none => "\"\\ud800\"".toList

mutual

/-- The written form of a value. -/
def render : Json → List Char
  | .null => "null".toList
  | .bool true => "true".toList
  | .bool false => "false".toList
  | .integer n => Numeral.integer n
  | .decimal lexeme => lexeme
  | .string spelled => renderString spelled
  | .array items => '[' :: renderItems items ++ [']']
  | .object members => '\x7b' :: renderMembers members ++ ['\x7d']

/-- The items of an array, with commas between them. -/
def renderItems : List Json → List Char
  | [] => []
  | [item] => render item
  | item :: rest => render item ++ ',' :: renderItems rest

/-- The members of an object, with commas between them. -/
def renderMembers : List (Option String × Json) → List Char
  | [] => []
  | [(name, value)] => renderString name ++ ':' :: render value
  | (name, value) :: rest => renderString name ++ ':' :: render value ++ ',' :: renderMembers rest

end

/-- The written form of a value, as a text. -/
def toText (value : Json) : String := String.ofList value.render

end HiveForum.Json
