import HiveForum.Content.Item
import HiveForum.Engagement.Record
import HiveForum.Sql.Schema
import HiveForum.Store.Error

/-!
# Items and records as rows

Items and records are sent as lists of parameters, and are read from rows by the names of the
columns.

## Main definitions

* `ContentItem.params`, `EngagementRecord.params`: the values that are sent, in the order of the
  relation's columns.
* `ContentItem.ofRow`, `EngagementRecord.ofRow`: the item or record that a row stands for.
-/

namespace HiveForum

open Sql

/-- The error of a row that lacks a column, or holds a value of another type in it. -/
def StoreError.unreadableColumn (column : Column) : StoreError :=
  .database s!"no column found for name: {column.name}"

namespace Sql.Row

/-- Reads a column with a reader for its values. -/
def read {α : Type} (row : Row) (reader : Value → Option α) (column : Column) :
    Except StoreError α :=
  match (row.value? column).bind reader with
  | some value => .ok value
  | none => .error (.unreadableColumn column)

/-- Reads a truth value. -/
def boolean (row : Row) : Column → Except StoreError Bool :=
  row.read fun
    | .boolean b => some b
    | _ => none

/-- Reads an integer. -/
def bigint (row : Row) : Column → Except StoreError Int64 :=
  row.read fun
    | .bigint n => some n
    | _ => none

/-- Reads an integer that may be null. -/
def bigint? (row : Row) : Column → Except StoreError (Option Int64) :=
  row.read fun
    | .bigint n => some (some n)
    | .null => some none
    | _ => none

/-- Reads a text. -/
def text (row : Row) : Column → Except StoreError String :=
  row.read fun
    | .text s => some s
    | _ => none

/-- Reads a text that may be null. -/
def text? (row : Row) : Column → Except StoreError (Option String) :=
  row.read fun
    | .text s => some (some s)
    | .null => some none
    | _ => none

/-- Reads an identifier. -/
def uuid (row : Row) : Column → Except StoreError Uuid :=
  row.read fun
    | .uuid id => some id
    | _ => none

/-- Reads an array of identifiers. -/
def uuids (row : Row) : Column → Except StoreError (List Uuid) :=
  row.read fun
    | .uuids ids => some ids
    | _ => none

end Sql.Row

/-- The error of an item that is neither a post nor a comment. -/
def StoreError.unexpectedKind (kind : String) : StoreError :=
  .database s!"unexpected content kind: {kind}"

namespace ContentItem

/-- The values of an item, in the order of the columns. -/
def params (item : ContentItem) : List Value :=
  [.uuid item.scope.uuid, .uuid item.id.uuid, .uuid item.hive.uuid, .text item.kind.name,
    .text item.author.name, .text item.body, .bigint item.createdAt, .bigint item.lastActivityAt,
    .bigint item.upVotes, .bigint item.downVotes, .bigint item.comments, .bigint item.reports,
    .boolean item.obfuscated, .boolean item.reviewed, .boolean item.pinned,
    .uuids (item.tags.toList.map TagId.uuid)]

/-- The item that a row stands for. -/
def ofRow (row : Row) : Except StoreError ContentItem := do
  let scope ← row.uuid .scopeId
  let id ← row.uuid .contentId
  let hive ← row.uuid .hiveId
  let kindName ← row.text .kind
  let author ← row.text .authorId
  let body ← row.text .body
  let createdAt ← row.bigint .createdAt
  let lastActivityAt ← row.bigint .lastActivityAt
  let upVotes ← row.bigint .upVoteCount
  let downVotes ← row.bigint .downVoteCount
  let comments ← row.bigint .commentCount
  let reports ← row.bigint .reportedCount
  let obfuscated ← row.boolean .obfuscated
  let reviewed ← row.boolean .reviewed
  let pinned ← row.boolean .pinned
  let tags ← row.uuids .tagIds
  match ContentKind.ofName? kindName with
  | none => .error (.unexpectedKind kindName)
  | some kind =>
    .ok
      { scope := ⟨scope⟩, id := ⟨id⟩, hive := ⟨hive⟩, kind, author := ⟨author⟩, body, createdAt,
        lastActivityAt, upVotes, downVotes, comments, reports, obfuscated, reviewed, pinned,
        tags := .ofList (tags.map TagId.mk) }

end ContentItem

namespace EngagementRecord

/-- The values of a record, in the order of the columns. -/
def params (record : EngagementRecord) : List Value :=
  [.text record.user.name, .uuid record.content.uuid, .uuid record.scope.uuid,
    .uuid record.hive.uuid, .boolean record.upVoted, .boolean record.downVoted,
    .boolean record.saved, .boolean record.reported, .ofBigint? record.votedAt,
    .ofText? record.reason, .bigint record.version]

/-- The record that a row stands for. -/
def ofRow (row : Row) : Except StoreError EngagementRecord := do
  let user ← row.text .userId
  let content ← row.uuid .contentId
  let scope ← row.uuid .scopeId
  let hive ← row.uuid .hiveId
  let upVoted ← row.boolean .upVoted
  let downVoted ← row.boolean .downVoted
  let saved ← row.boolean .saved
  let reported ← row.boolean .reported
  let votedAt ← row.bigint? .votedAt
  let reason ← row.text? .reportedReason
  let version ← row.bigint .version
  .ok
    { user := ⟨user⟩, content := ⟨content⟩, scope := ⟨scope⟩, hive := ⟨hive⟩, upVoted, downVoted,
      saved, reported, votedAt, reason, version }

end EngagementRecord

end HiveForum
