import HiveForum.Collection.Table
import HiveForum.Engagement.Vote
import HiveForum.Engagement.Report
import HiveForum.Store.Error

/-!
# Requests to a store

A request is one call to a store. Its answer has a type of its own, so that whoever makes a call
reads off it what the call promises.

## Main definitions

* `Request`: the calls.
* `Request.Answer`: the type of a call's answer.
* `ContentQuery`, `EngagementQuery`: one page of a scope's index, and of an item's records.
* `checkBatch`: the limit on the keys of one batch.
-/

namespace HiveForum

/-- The largest number of keys in one batch. -/
def Limit.batchWrite : Nat := 25

/-- One page of an index of a scope. -/
structure ContentQuery where
  scope : ScopeId
  sort : SortKey
  direction : Direction
  /-- The largest number of index entries to look at. -/
  limit : Nat
  /-- The position that the walk resumes after; none for its start. -/
  startAfter : Option IndexKey
  tags : SortedSet TagId
deriving DecidableEq, Inhabited

/-- The answer to a query for items. -/
structure ContentPage where
  items : List ContentItem
  /-- Where to resume; none once the index is exhausted. -/
  lastEvaluated : Option IndexKey
deriving DecidableEq, Inhabited

/-- One page of the records of an item. -/
structure EngagementQuery where
  content : ContentId
  /-- The largest number of records. -/
  limit : Nat
  /-- The user after whom the walk resumes; none for its start. -/
  startAfter : Option UserId
deriving DecidableEq, Inhabited

/-- The answer to a query for records. -/
structure EngagementPage where
  /-- The records found, by increasing user. -/
  records : List EngagementRecord
  /-- After whom to resume; none once the records are exhausted. -/
  lastEvaluated : Option UserId
deriving DecidableEq, Inhabited

/-- One call to a store. -/
inductive Request where
  | ping
  | putContent (item : ContentItem)
  | getContent (key : ContentKey)
  | queryContent (query : ContentQuery)
  | adjustCounts (key : ContentKey) (change : CountChange)
  | touchActivity (key : ContentKey) (time : Int64)
  | markReviewed (key : ContentKey)
  | setPinned (key : ContentKey) (pinned : Bool)
  | deleteContent (key : ContentKey)
  | getEngagement (user : UserId) (content : ContentId)
  | lookupEngagement (user : UserId) (contents : List ContentId)
  | putEngagement (record : EngagementRecord)
  | commitReport (record : EngagementRecord) (key : ContentKey) (outcome : ReportOutcome)
  | commitVote (record : EngagementRecord) (key : ContentKey) (change : CountChange)
  | queryEngagement (query : EngagementQuery)
  /-- Removes records; the answer lists those that were not got to. -/
  | deleteEngagements (keys : List EngagementKey)
deriving DecidableEq

/-- The type of the answer to a request. -/
abbrev Request.Answer : Request → Type
  | .ping => Unit
  | .putContent _ => Unit
  | .getContent _ => ContentItem
  | .queryContent _ => ContentPage
  | .adjustCounts _ _ => ContentItem
  | .touchActivity _ _ => Unit
  | .markReviewed _ => ContentItem
  | .setPinned _ _ => ContentItem
  | .deleteContent _ => Unit
  | .getEngagement _ _ => EngagementRecord
  | .lookupEngagement _ _ => Table ContentId EngagementRecord
  | .putEngagement _ => EngagementRecord
  | .commitReport _ _ _ => EngagementRecord × ContentItem
  | .commitVote _ _ _ => EngagementRecord × ContentItem
  | .queryEngagement _ => EngagementPage
  | .deleteEngagements _ => List EngagementKey

/-- A batch has at most `Limit.batchWrite` keys. -/
def checkBatch (keys : List EngagementKey) : Except StoreError Unit :=
  if Limit.batchWrite < keys.length then .error (.batchTooLarge keys.length) else .ok ()

/-- The refusal of a query for no entries. -/
def StoreError.zeroLimit : StoreError := .invalidInput "query limit must be positive"

end HiveForum
