import HiveForum.Content.Item
import HiveForum.Json.Decode
import HiveForum.Json.Parser
import HiveForum.Json.Printer

/-!
# Content items as JSON

## Main definitions

* `ContentItem.toJson`, `ContentItem.ofJson?`: an item as a value.
* `ContentItem.serialize`, `ContentItem.deserialize?`: an item as a text.
-/

namespace HiveForum

namespace ContentKind

/-- The name of the kind in JSON. -/
def jsonName : ContentKind → String
  | .post => "Post"
  | .comment => "Comment"

/-- The kind with the given name in JSON. -/
def ofJsonName? : String → Option ContentKind
  | "Post" => some .post
  | "Comment" => some .comment
  | _ => none

/-- Reads a kind: its name, or an object with the name as its only member and null in it. -/
def ofJson? : Json → Option ContentKind
  | .string (some name) => ofJsonName? name
  | .object [(some name, .null)] => ofJsonName? name
  | _ => none

end ContentKind

/-- A key as JSON. -/
def ContentKey.toJson (key : ContentKey) : Json :=
  .record [("scope_id", .text key.scope.uuid.text), ("content_id", .text key.id.uuid.text)]

/-- A position in an index as JSON. -/
def IndexKey.toJson (key : IndexKey) : Json :=
  .record [("sort_value", .integer key.sortValue.toInt), ("content_id", .text key.id.uuid.text)]

namespace ContentItem

/-- The names of the fields, in order. -/
def fieldNames : List String :=
  ["scope_id", "content_id", "hive_id", "kind", "author_id", "body", "created_at",
   "last_activity_at", "up_vote_count", "down_vote_count", "comment_count", "reported_count",
   "obfuscated", "reviewed", "pinned", "tag_ids"]

/-- The item as a value. -/
def toJson (item : ContentItem) : Json :=
  .record (fieldNames.zip
    [.text item.scope.uuid.text, .text item.id.uuid.text, .text item.hive.uuid.text,
     .text item.kind.jsonName, .text item.author.name, .text item.body,
     .integer item.createdAt.toInt, .integer item.lastActivityAt.toInt,
     .integer item.upVotes.toInt, .integer item.downVotes.toInt,
     .integer item.comments.toInt, .integer item.reports.toInt,
     .bool item.obfuscated, .bool item.reviewed, .bool item.pinned,
     .array (item.tags.toList.map fun tag => .text tag.uuid.text)])

/-- Reads an item from a value. -/
def ofJson? (value : Json) : Option ContentItem :=
  match Json.fields? fieldNames value with
  | some [scope, id, hive, kind, author, body, createdAt, lastActivityAt, upVotes, downVotes,
      comments, reports, obfuscated, reviewed, pinned, tags] => do
    return {
      scope := ⟨← Json.required Json.uuid? scope⟩
      id := ⟨← Json.required Json.uuid? id⟩
      hive := ⟨← Json.required Json.uuid? hive⟩
      kind := ← Json.required ContentKind.ofJson? kind
      author := ⟨← Json.required Json.text? author⟩
      body := ← Json.required Json.text? body
      createdAt := ← Json.required Json.int64? createdAt
      lastActivityAt := ← Json.required Json.int64? lastActivityAt
      upVotes := ← Json.required Json.int64? upVotes
      downVotes := ← Json.required Json.int64? downVotes
      comments := ← Json.required Json.int64? comments
      reports := ← Json.required Json.int64? reports
      obfuscated := ← Json.required Json.bool? obfuscated
      reviewed := ← Json.required Json.bool? reviewed
      pinned := ← Json.required Json.bool? pinned
      tags := .ofList
        ((← Json.required (Json.listOf? Json.uuid?) tags).map TagId.mk) }
  | _ => none

/-- The item as a text. -/
def serialize (item : ContentItem) : String := item.toJson.toText

/-- Reads an item from a text. -/
def deserialize? (text : String) : Option ContentItem := (Json.parse? text).bind ofJson?

end ContentItem

end HiveForum
