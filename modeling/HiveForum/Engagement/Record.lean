import HiveForum.Content.Item

/-!
# Engagement records

What one user has done with one item: voted for or against it, saved it, reported it. A record
carries a version that counts its writes; version zero means that it was never stored.

## Main definitions

* `EngagementKey`: a user and an item, ordered by item first.
* `EngagementRecord`: the record of a user on an item.
* `EngagementRecord.neutral`: the record of a user who has done nothing.
* `Transition`: the outcome of an action on a record.
* `EngagementRecord.setSaved`: the action of saving and unsaving.

## Main results

* `EngagementRecord.setSaved_eq_noOp_iff`: saving changes nothing exactly in the wanted state.
-/

namespace HiveForum

open Std

/-- The user and the item that a record belongs to. -/
structure EngagementKey where
  user : UserId
  content : ContentId
deriving DecidableEq, Inhabited

namespace EngagementKey

/-- Keys are ordered by item first, so that the records of an item stand together. -/
instance : Ord EngagementKey :=
  ⟨compareLex (compareOn EngagementKey.content) (compareOn EngagementKey.user)⟩

instance : TransOrd EngagementKey :=
  inferInstanceAs
    (TransCmp (compareLex (compareOn EngagementKey.content) (compareOn EngagementKey.user)))

instance : LawfulEqOrd EngagementKey where
  eq_of_compare {a b} h := by
    have h : (compare a.content b.content).then (compare a.user b.user) = .eq := h
    rw [Ordering.then_eq_eq] at h
    obtain ⟨au, ac⟩ := a
    obtain ⟨bu, bc⟩ := b
    obtain rfl : ac = bc := LawfulEqOrd.eq_of_compare h.1
    obtain rfl : au = bu := LawfulEqOrd.eq_of_compare h.2
    rfl

end EngagementKey

/-- What one user has done with one item. -/
structure EngagementRecord where
  user : UserId
  content : ContentId
  scope : ScopeId
  hive : ScopeId
  upVoted : Bool
  downVoted : Bool
  saved : Bool
  reported : Bool
  /-- The time of the latest change of a vote, in microseconds. -/
  votedAt : Option Int64
  reason : Option String
  /-- The number of writes of the record; zero for a record that was never stored. -/
  version : Int64
deriving DecidableEq, Inhabited

/-- How a user stands to an item by their votes. -/
inductive VoteState where
  | absent
  | neutral
  | upVoted
  | downVoted
deriving DecidableEq

/-- The outcome of an action: a change to make, or nothing to do. -/
inductive Transition (α : Type) where
  | apply (change : α)
  | noOp
deriving DecidableEq

namespace EngagementRecord

/-- The record of a user who has done nothing with an item. -/
def neutral (user : UserId) (content : ContentKey) (hive : ScopeId) : EngagementRecord where
  user := user
  content := content.id
  scope := content.scope
  hive := hive
  upVoted := false
  downVoted := false
  saved := false
  reported := false
  votedAt := none
  reason := none
  version := 0

/-- The user and the item of the record. -/
def key (record : EngagementRecord) : EngagementKey := ⟨record.user, record.content⟩

/-- Whether the record was ever stored. -/
def isStored (record : EngagementRecord) : Bool := decide (0 < record.version)

/-- Whether no flag is set; such a record says no more than no record. -/
def isBlank (record : EngagementRecord) : Bool :=
  !(record.upVoted || record.downVoted || record.saved || record.reported)

/-- How the user stands to the item. -/
def voteState (record : EngagementRecord) : VoteState :=
  if record.upVoted then .upVoted
  else if record.downVoted then .downVoted
  else if record.isStored then .neutral
  else .absent

/-- Saves or unsaves the item. -/
def setSaved (record : EngagementRecord) (saved : Bool) : Transition EngagementRecord :=
  if record.saved = saved then .noOp else .apply { record with saved := saved }

/-- Saving changes nothing exactly if the item is saved already, and likewise for unsaving. -/
theorem setSaved_eq_noOp_iff {record : EngagementRecord} {saved : Bool} :
    record.setSaved saved = .noOp ↔ record.saved = saved := by
  unfold setSaved
  split <;> simp_all

end EngagementRecord

end HiveForum
