import HiveForum.Engagement.Record
import HiveForum.Engagement.Counts

/-!
# Votes

A user adds or takes a vote for or against an item. Adding a vote takes an opposite one; adding a
vote that is there or taking one that is not changes nothing.

## Main definitions

* `VoteSide`, `VoteRequest`: the four actions.
* `voteTransition`: the change of the item's counts that an action makes.
* `EngagementRecord.vote`: the record and the change after an action.

## Main results

* `voteTransition_eq_noOp_iff`: an action changes nothing exactly in the wanted state.
-/

namespace HiveForum

/-- For or against an item. -/
inductive VoteSide where
  | up
  | down
deriving DecidableEq, Inhabited

/-- The side that a flag selects. -/
def VoteSide.ofUp (up : Bool) : VoteSide := if up then .up else .down

/-- Adding or taking a vote on one side. -/
structure VoteRequest where
  side : VoteSide
  /-- Whether the vote is added; else it is taken. -/
  add : Bool
deriving DecidableEq, Inhabited

/-- Adding a vote for an item. -/
def VoteRequest.addUp : VoteRequest := ⟨.up, true⟩

/-- The numbers that an action adds to the votes for and against an item. -/
structure VoteChange where
  up : Int64
  down : Int64
deriving DecidableEq, Inhabited

/-- The change of the counts with votes `same` on the side of the action and `other` opposite. -/
def VoteChange.onSide (side : VoteSide) (same other : Int64) : VoteChange :=
  match side with
  | .up => ⟨same, other⟩
  | .down => ⟨other, same⟩

/-- The vote change as a change of all counts. -/
def VoteChange.counts (change : VoteChange) : CountChange :=
  { upVotes := change.up, downVotes := change.down }

/-- The change of the counts that an action makes on a record with the given flags. -/
def voteTransition (upVoted downVoted : Bool) (request : VoteRequest) : Transition VoteChange :=
  let current := match request.side with
    | .up => upVoted
    | .down => downVoted
  let opposite := match request.side with
    | .up => downVoted
    | .down => upVoted
  match request.add, current, opposite with
  | true, true, _ => .noOp
  | true, false, false => .apply (.onSide request.side 1 0)
  | true, false, true => .apply (.onSide request.side 1 (-1))
  | false, true, _ => .apply (.onSide request.side (-1) 0)
  | false, false, _ => .noOp

namespace EngagementRecord

/-- The record with the flag of one side set as wanted; a set flag clears the opposite one. -/
def withVote (record : EngagementRecord) (request : VoteRequest) (time : Int64) :
    EngagementRecord :=
  match request.side, request.add with
  | .up, true => { record with upVoted := true, downVoted := false, votedAt := some time }
  | .down, true => { record with downVoted := true, upVoted := false, votedAt := some time }
  | .up, false => { record with upVoted := false, votedAt := some time }
  | .down, false => { record with downVoted := false, votedAt := some time }

/-- The record after an action at the given time, with the change of the item's counts. -/
def vote (record : EngagementRecord) (request : VoteRequest) (time : Int64) :
    Transition (EngagementRecord × VoteChange) :=
  match voteTransition record.upVoted record.downVoted request with
  | .apply change => .apply (record.withVote request time, change)
  | .noOp => .noOp

end EngagementRecord

/-- An action changes nothing exactly if the vote is already there, or already gone. -/
theorem voteTransition_eq_noOp_iff {upVoted downVoted : Bool} {request : VoteRequest} :
    voteTransition upVoted downVoted request = .noOp ↔
      request.add = match request.side with
        | .up => upVoted
        | .down => downVoted := by
  obtain ⟨side, add⟩ := request
  cases side <;> cases add <;> cases upVoted <;> cases downVoted <;> simp [voteTransition]

end HiveForum
