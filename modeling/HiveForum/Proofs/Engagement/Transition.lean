import HiveForum.Proofs.Forum.Sound

/-!
# Transitions of a record

An action changes the flags that it is about and leaves everything else in a record as it is. The
change of the counts that goes with it is the difference of the flags.

## Main definitions

* `EngagementRecord.Changes`: a record is changed, with a change of counts.

## Main results

* `EngagementRecord.changes_vote`, `EngagementRecord.changes_report`,
  `EngagementRecord.changes_setSaved`: the actions.
* `Forum.Ready.changed`: what an action makes of a record that is ready is ready.
-/

namespace HiveForum

/-- A record is changed so that its flags differ by the numbers that are added to the counts. It
remains the record of its user and item at its version, and is never a vote for and against. -/
structure EngagementRecord.Changes (record changed : EngagementRecord) (up down reports : Int) :
    Prop where
  key : changed.key = record.key
  version : changed.version = record.version
  oneVote : ¬(changed.upVoted = true ∧ changed.downVoted = true)
  up : changed.upVoted.toInt = record.upVoted.toInt + up
  down : changed.downVoted.toInt = record.downVoted.toInt + down
  reports : changed.reported.toInt = record.reported.toInt + reports

namespace EngagementRecord

variable {record changed : EngagementRecord}

theorem withVote_rest (record : EngagementRecord) (request : VoteRequest) (time : Int64) :
    (record.withVote request time).key = record.key ∧
      (record.withVote request time).version = record.version ∧
        (record.withVote request time).reported = record.reported := by
  obtain ⟨side, add⟩ := request
  cases side <;> cases add <;> exact ⟨rfl, rfl, rfl⟩

theorem key_vote {request : VoteRequest} {time : Int64} {change : VoteChange}
    (h : record.vote request time = .apply (changed, change)) : changed.key = record.key := by
  rw [vote] at h
  split at h
  · cases h
    exact (record.withVote_rest request time).1
  · cases h

theorem key_report {action : ReportAction} {reviewed : Bool} {outcome : ReportOutcome}
    (h : record.report action reviewed = .ok (.apply (changed, outcome))) :
    changed.key = record.key := by
  rw [report] at h
  split at h
  · cases h
  · cases h
  · cases h
    cases outcome <;> rfl

theorem key_setSaved {saved : Bool} (h : record.setSaved saved = .apply changed) :
    changed.key = record.key := by
  rw [setSaved] at h
  split at h
  · cases h
  · cases h
    rfl

theorem withVote_flags {request : VoteRequest} {time : Int64} {change : VoteChange}
    (oneVote : ¬(record.upVoted = true ∧ record.downVoted = true))
    (h : voteTransition record.upVoted record.downVoted request = .apply change) :
    ¬((record.withVote request time).upVoted = true ∧
        (record.withVote request time).downVoted = true) ∧
      (record.withVote request time).upVoted.toInt = record.upVoted.toInt + change.up.toInt ∧
        (record.withVote request time).downVoted.toInt =
          record.downVoted.toInt + change.down.toInt := by
  obtain ⟨side, add⟩ := request
  -- the table of the transition, without the row of a vote for and against
  cases side <;> cases add <;> cases hup : record.upVoted <;> cases hdown : record.downVoted <;>
    simp only [hup, hdown, voteTransition, VoteChange.onSide, Transition.apply.injEq, reduceCtorEq,
      and_self, not_true_eq_false] at h oneVote <;>
    (subst h; simp [withVote, hup, hdown])

/-- A vote changes the flags of votes. -/
theorem changes_vote {request : VoteRequest} {time : Int64} {change : VoteChange}
    (oneVote : ¬(record.upVoted = true ∧ record.downVoted = true))
    (h : record.vote request time = .apply (changed, change)) :
    record.Changes changed change.up.toInt change.down.toInt 0 := by
  rw [vote] at h
  split at h
  · rename_i htransition
    cases h
    obtain ⟨hkey, hversion, hreported⟩ := record.withVote_rest request time
    obtain ⟨hvotes, hup, hdown⟩ := @withVote_flags record request time _ oneVote htransition
    exact ⟨hkey, hversion, hvotes, hup, hdown, by rw [hreported, Int.add_zero]⟩
  · cases h

/-- A report changes the flag of reports. -/
theorem changes_report {action : ReportAction} {reviewed : Bool} {outcome : ReportOutcome}
    (oneVote : ¬(record.upVoted = true ∧ record.downVoted = true))
    (h : record.report action reviewed = .ok (.apply (changed, outcome))) :
    record.Changes changed 0 0 outcome.delta := by
  rw [report] at h
  split at h
  · cases h
  · cases h
  · rename_i htransition
    cases h
    have hflag : (outcome = .added ∧ record.reported = false) ∨
        (outcome = .removed ∧ record.reported = true) := by
      unfold reportTransition at htransition
      cases action <;> cases hreported : record.reported <;> cases reviewed <;> simp_all
    have hsame : ∀ flag : Bool, flag.toInt = flag.toInt + 0 := fun _ => (Int.add_zero _).symm
    obtain ⟨rfl, hreported⟩ | ⟨rfl, hreported⟩ := hflag
    · exact ⟨rfl, rfl, oneVote, hsame _, hsame _, by rw [hreported]; rfl⟩
    · exact ⟨rfl, rfl, oneVote, hsame _, hsame _, by rw [hreported]; rfl⟩

/-- Saving changes no flag that is counted. -/
theorem changes_setSaved {saved : Bool}
    (oneVote : ¬(record.upVoted = true ∧ record.downVoted = true))
    (h : record.setSaved saved = .apply changed) : record.Changes changed 0 0 0 := by
  rw [setSaved] at h
  split at h
  · cases h
  · cases h
    exact ⟨rfl, rfl, oneVote, (Int.add_zero _).symm, (Int.add_zero _).symm, (Int.add_zero _).symm⟩

end EngagementRecord

/-- What an action makes of a record that is ready is ready with the change of counts. -/
theorem Forum.Ready.changed {outlook : Outlook} {forum : Forum}
    {record changed : EngagementRecord} {up down reports : Int}
    (ready : forum.Ready outlook record 0 0 0) (h : record.Changes changed up down reports) :
    forum.Ready outlook changed up down reports := by
  have hcontent : changed.content = record.content := congrArg EngagementKey.content h.key
  refine ⟨hcontent ▸ ready.created, h.oneVote, fun item hitem hspared hid => ?_⟩
  obtain ⟨hle, hflags⟩ := ready.current item hitem hspared (hid.trans hcontent)
  rw [h.key, h.version]
  refine ⟨hle, fun heq => ?_⟩
  obtain ⟨hup, hdown, hreports⟩ := hflags heq
  rw [h.up, h.down, h.reports]
  omega

end HiveForum
