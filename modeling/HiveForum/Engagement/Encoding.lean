import HiveForum.Engagement.Record
import HiveForum.Engagement.Counts
import HiveForum.Json.Decode
import HiveForum.Json.Parser
import HiveForum.Json.Printer

/-!
# Engagement records and count changes as JSON

## Main definitions

* `EngagementRecord.serialize`, `EngagementRecord.deserialize?`: a record as a text.
* `CountChange.serialize`, `CountChange.deserialize?`: a change of counts as a text.
-/

namespace HiveForum

/-- A key as JSON. -/
def EngagementKey.toJson (key : EngagementKey) : Json :=
  .record [("user_id", .text key.user.name), ("content_id", .text key.content.uuid.text)]

namespace EngagementRecord

/-- The names of the fields, in order. -/
def fieldNames : List String :=
  ["user_id", "content_id", "scope_id", "hive_id", "up_voted", "down_voted", "saved", "reported",
   "voted_at", "reported_reason", "version"]

/-- The record as a value. -/
def toJson (record : EngagementRecord) : Json :=
  .record (fieldNames.zip
    [.text record.user.name, .text record.content.uuid.text, .text record.scope.uuid.text,
     .text record.hive.uuid.text, .bool record.upVoted, .bool record.downVoted,
     .bool record.saved, .bool record.reported,
     .ofOption (fun time => .integer time.toInt) record.votedAt,
     .ofOption .text record.reason, .integer record.version.toInt])

/-- Reads a record from a value. -/
def ofJson? (value : Json) : Option EngagementRecord :=
  match Json.fields? fieldNames value with
  | some [user, content, scope, hive, upVoted, downVoted, saved, reported, votedAt, reason,
      version] => do
    return {
      user := ⟨← Json.required Json.text? user⟩
      content := ⟨← Json.required Json.uuid? content⟩
      scope := ⟨← Json.required Json.uuid? scope⟩
      hive := ⟨← Json.required Json.uuid? hive⟩
      upVoted := ← Json.required Json.bool? upVoted
      downVoted := ← Json.required Json.bool? downVoted
      saved := ← Json.required Json.bool? saved
      reported := ← Json.required Json.bool? reported
      votedAt := ← Json.optional Json.int64? votedAt
      reason := ← Json.optional Json.text? reason
      version := ← Json.required Json.int64? version }
  | _ => none

/-- The record as a text. -/
def serialize (record : EngagementRecord) : String := record.toJson.toText

/-- Reads a record from a text. -/
def deserialize? (text : String) : Option EngagementRecord := (Json.parse? text).bind ofJson?

end EngagementRecord

namespace CountChange

/-- The names of the fields, in order. -/
def fieldNames : List String := ["up_votes", "down_votes", "comments", "reports"]

/-- The change as a value. -/
def toJson (change : CountChange) : Json :=
  .record (fieldNames.zip
    [.integer change.upVotes.toInt, .integer change.downVotes.toInt,
     .integer change.comments.toInt, .integer change.reports.toInt])

/-- Reads a change from a value. -/
def ofJson? (value : Json) : Option CountChange :=
  match Json.fields? fieldNames value with
  | some [upVotes, downVotes, comments, reports] => do
    return {
      upVotes := ← Json.required Json.int64? upVotes
      downVotes := ← Json.required Json.int64? downVotes
      comments := ← Json.required Json.int64? comments
      reports := ← Json.required Json.int64? reports }
  | _ => none

/-- The change as a text. -/
def serialize (change : CountChange) : String := change.toJson.toText

/-- Reads a change from a text. -/
def deserialize? (text : String) : Option CountChange := (Json.parse? text).bind ofJson?

end CountChange

end HiveForum
