import HiveForum.Uuid

/-!
# Relations, columns and values

The database holds two relations, one of items and one of engagement records. A row gives values to
columns, and is read by the names of the columns.

## Main definitions

* `Sql.Value`: what a column or a parameter holds.
* `Sql.Column`, `Sql.Relation`: the columns and relations with their names.
* `Sql.Row`: the values of some columns.
-/

namespace HiveForum.Sql

/-- What a column or a parameter holds. -/
inductive Value where
  | null
  | boolean (b : Bool)
  | bigint (n : Int64)
  | text (text : String)
  | uuid (id : Uuid)
  | texts (texts : List String)
  | uuids (ids : List Uuid)
deriving DecidableEq, Inhabited

namespace Value

/-- The integer, or null for none. -/
def ofBigint? : Option Int64 → Value
  | some n => .bigint n
  | none => .null

/-- The text, or null for none. -/
def ofText? : Option String → Value
  | some s => .text s
  | none => .null

/-- The identifier, or null for none. -/
def ofUuid? : Option Uuid → Value
  | some id => .uuid id
  | none => .null

end Value

/-- The types of values. -/
inductive Kind where
  | boolean
  | bigint
  | text
  | uuid
  | texts
  | uuids
deriving DecidableEq

/-- The name of a type. -/
def Kind.name : Kind → String
  | .boolean => "BOOLEAN"
  | .bigint => "BIGINT"
  | .text => "TEXT"
  | .uuid => "UUID"
  | .texts => "TEXT[]"
  | .uuids => "UUID[]"

/-- The columns of the relations. -/
inductive Column where
  | scopeId
  | contentId
  | hiveId
  | kind
  | authorId
  | body
  | createdAt
  | lastActivityAt
  | upVoteCount
  | downVoteCount
  | commentCount
  | reportedCount
  /-- Whether an item is hidden. -/
  | obfuscated
  | reviewed
  | pinned
  | tagIds
  | userId
  | upVoted
  | downVoted
  | saved
  | reported
  | votedAt
  | reportedReason
  | version
deriving DecidableEq

/-- The name of a column. -/
def Column.name : Column → String
  | .scopeId => "scope_id"
  | .contentId => "content_id"
  | .hiveId => "hive_id"
  | .kind => "kind"
  | .authorId => "author_id"
  | .body => "body"
  | .createdAt => "created_at_us"
  | .lastActivityAt => "last_activity_at_us"
  | .upVoteCount => "up_vote_count"
  | .downVoteCount => "down_vote_count"
  | .commentCount => "comment_count"
  | .reportedCount => "reported_count"
  | .obfuscated => "obfuscated"
  | .reviewed => "reviewed"
  | .pinned => "pinned"
  | .tagIds => "tag_ids"
  | .userId => "user_id"
  | .upVoted => "up_voted"
  | .downVoted => "down_voted"
  | .saved => "saved"
  | .reported => "reported"
  | .votedAt => "voted_at_us"
  | .reportedReason => "reported_reason"
  | .version => "version"

/-- The relations of the database. -/
inductive Relation where
  | contentItems
  | engagementRecords
deriving DecidableEq

namespace Relation

/-- The name of a relation. -/
def name : Relation → String
  | .contentItems => "content_items"
  | .engagementRecords => "engagement_records"

/-- The columns of a relation. -/
def columns : Relation → List Column
  | .contentItems =>
    [.scopeId, .contentId, .hiveId, .kind, .authorId, .body, .createdAt, .lastActivityAt,
      .upVoteCount, .downVoteCount, .commentCount, .reportedCount, .obfuscated, .reviewed, .pinned,
      .tagIds]
  | .engagementRecords =>
    [.userId, .contentId, .scopeId, .hiveId, .upVoted, .downVoted, .saved, .reported, .votedAt,
      .reportedReason, .version]

/-- The columns that no two rows of a relation agree on. -/
def primaryKey : Relation → List Column
  | .contentItems => [.scopeId, .contentId]
  | .engagementRecords => [.userId, .contentId]

end Relation

/-- The values of some columns. -/
abbrev Row : Type := List (Column × Value)

/-- The value of a column, if the row has it. -/
def Row.value? (row : Row) (column : Column) : Option Value := row.lookup column

end HiveForum.Sql
