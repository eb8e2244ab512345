import HiveForum.Postgres.Rows
import HiveForum.Sql.Statement
import HiveForum.Store.Request

/-!
# The queries of the store

Each query pairs a statement with the values of its parameters.

## Main definitions

* `Postgres.putContent`, `Postgres.getContent`, …: the query of each call to the store.
* `Postgres.writeRecord`: the conditional write of a record.
-/

namespace HiveForum.Postgres

open Sql

/-- The condition that a column has the value of a parameter. -/
def matching (column : Column) (position : Nat) : Condition :=
  .equal (.column column) (.param position)

/-- A row of items is found by its scope and its identifier, the first two parameters. -/
def atKey : Condition := .both (matching .scopeId 1) (matching .contentId 2)

/-- The parameters for `atKey`. -/
def keyParams (key : ContentKey) : List Value := [.uuid key.scope.uuid, .uuid key.id.uuid]

/-- The parameters from the first to the last. -/
def paramsUpTo (count : Nat) : List Term := (List.range count).map fun i => .param (i + 1)

/-- Asks whether the database is there. -/
def ping : Query := ⟨.probe, []⟩

/-! ### Items -/

/-- Adds an item. -/
def putContent (item : ContentItem) : Query where
  statement :=
    .insert .contentItems Relation.contentItems.columns (paramsUpTo 16) [] []
  params := item.params

/-- Reads an item, and locks it if wanted. -/
def selectContent (key : ContentKey) (lock : Bool) : Query where
  statement :=
    .select Relation.contentItems.columns .contentItems atKey [] .ascending none lock
  params := keyParams key

/-- The column that an index is sorted by. -/
def sortColumn : SortKey → Column
  | .created => .createdAt
  | .lastActivity => .lastActivityAt

/-- The comparison with a position that a walk has passed. -/
def passed : Direction → Comparison
  | .ascending => .greater
  | .descending => .less

/-- A number of rows as a parameter; a number that no integer can hold is cut. -/
def rowLimit (limit : Nat) : Value := .bigint (Saturating.int64 limit)

/-- The condition of a page: the items of the scope past the position, if there is one, that carry a
tag of the filter, if it has any. -/
def pageCondition (column : Column) (direction : Direction) : Condition :=
  .both
    (.both (matching .scopeId 1)
      (.either (.isNull (.typed (.param 2) .bigint))
        (.compare (passed direction) [.column column, .column .contentId]
          [.param 2, .typed (.param 3) .uuid])))
    (.either (.equal (.cardinality (.typed (.param 4) .uuids)) (.integer 0))
      (.overlaps (.column .tagIds) (.typed (.param 4) .uuids)))

/-- Reads a page of an index. -/
def queryContent (query : ContentQuery) : Query where
  statement :=
    .select Relation.contentItems.columns .contentItems
      (pageCondition (sortColumn query.sort) query.direction)
      [sortColumn query.sort, .contentId] query.direction (some (.param 5)) false
  params :=
    [.uuid query.scope.uuid, .ofBigint? (query.startAfter.map IndexKey.sortValue),
      .ofUuid? (query.startAfter.map fun start => start.id.uuid),
      .uuids (query.tags.toList.map TagId.uuid), rowLimit query.limit]

/-- Sets columns of an item and asks for the item if wanted. -/
def updateContent (assignments : List (Column × Term)) (key : ContentKey) (values : List Value)
    (returning : Bool) : Query where
  statement :=
    .update .contentItems assignments atKey
      (if returning then Relation.contentItems.columns else [])
  params := keyParams key ++ values

/-- A count moves by the value of a parameter, but not below zero. -/
def movedCount (column : Column) (position : Nat) : Column × Term :=
  (column, .greatest (.integer 0) (.add (.column column) (.param position)))

/-- Changes the counts of an item. -/
def adjustCounts (key : ContentKey) (change : CountChange) : Query :=
  updateContent
    [movedCount .upVoteCount 3, movedCount .downVoteCount 4, movedCount .commentCount 5,
      movedCount .reportedCount 6]
    key
    [.bigint change.upVotes, .bigint change.downVotes, .bigint change.comments,
      .bigint change.reports]
    true

/-- Moves the time of an item's last activity forward. -/
def touchActivity (key : ContentKey) (time : Int64) : Query :=
  updateContent [(.lastActivityAt, .greatest (.column .lastActivityAt) (.param 3))] key
    [.bigint time] false

/-- Marks an item as reviewed and shows it. -/
def markReviewed (key : ContentKey) : Query :=
  updateContent [(.reviewed, .boolean true), (.obfuscated, .boolean false)] key [] true

/-- Pins or unpins an item. -/
def setPinned (key : ContentKey) (pinned : Bool) : Query :=
  updateContent [(.pinned, .param 3)] key [.boolean pinned] true

/-- Sets the count of reports of an item, and whether it is hidden. -/
def setReports (key : ContentKey) (reports : Int64) (obfuscated : Bool) : Query :=
  updateContent [(.reportedCount, .param 3), (.obfuscated, .param 4)] key
    [.bigint reports, .boolean obfuscated] false

/-- Removes an item. -/
def deleteContent (key : ContentKey) : Query := ⟨.delete .contentItems atKey, keyParams key⟩

/-! ### Records -/

/-- Reads a record. -/
def getEngagement (user : UserId) (content : ContentId) : Query where
  statement :=
    .select Relation.engagementRecords.columns .engagementRecords
      (.both (matching .userId 1) (matching .contentId 2)) [] .ascending none false
  params := [.text user.name, .uuid content.uuid]

/-- Reads the records of a user on several items. -/
def lookupEngagement (user : UserId) (contents : List ContentId) : Query where
  statement :=
    .select Relation.engagementRecords.columns .engagementRecords
      (.both (matching .userId 1) (.equalAny (.column .contentId) (.param 2)))
      [] .ascending none false
  params := [.text user.name, .uuids (contents.map ContentId.uuid)]

/-- Reads a page of the records of an item. -/
def queryEngagement (query : EngagementQuery) : Query where
  statement :=
    .select Relation.engagementRecords.columns .engagementRecords
      (.both (matching .contentId 1)
        (.either (.isNull (.typed (.param 2) .text))
          (.compare .greater [.column .userId] [.param 2])))
      [.userId] .ascending (some (.param 3)) false
  params :=
    [.uuid query.content.uuid, .ofText? (query.startAfter.map UserId.name), rowLimit query.limit]

/-- A record that was never stored is added, unless there is one by now. -/
def addRecord : Statement :=
  .insert .engagementRecords Relation.engagementRecords.columns
    (paramsUpTo 10 ++ [.add (.param 11) (.integer 1)])
    Relation.engagementRecords.primaryKey Relation.engagementRecords.columns

/-- A stored record is replaced if it still has the version that was read. -/
def replaceRecord : Statement :=
  .update .engagementRecords
    [(.upVoted, .param 5), (.downVoted, .param 6), (.saved, .param 7), (.reported, .param 8),
      (.votedAt, .param 9), (.reportedReason, .param 10),
      (.version, .add (.column .version) (.integer 1))]
    (.both
      (.both (.both (.both (matching .userId 1) (matching .contentId 2)) (matching .version 11))
        (matching .scopeId 3))
      (matching .hiveId 4))
    Relation.engagementRecords.columns

/-- Writes a record if its version is still the stored one. -/
def writeRecord (record : EngagementRecord) : Query where
  statement := if record.isStored then replaceRecord else addRecord
  params := record.params

/-- Removes the records with the given keys. -/
def deleteEngagements (keys : List EngagementKey) : Query where
  statement :=
    .delete .engagementRecords
      (.inUnnest [.column .userId, .column .contentId]
        [.typed (.param 1) .texts, .typed (.param 2) .uuids])
  params :=
    [.texts (keys.map fun key => key.user.name), .uuids (keys.map fun key => key.content.uuid)]

end HiveForum.Postgres
