import HiveForum.Proofs.Engagement.Counters
import HiveForum.Proofs.Engagement.Visits

/-!
# Counts through a schedule

Users act on an item one after another. Each write moves the counts of the item by the difference
that it makes to the flags of the record, so that the counts are always the numbers of the records
with each flag. In two stores in which every user has the same flags the item is the same.

## Main definitions

* `StoreState.Tallied`: the counts of an item are those of the records on it, with room for more.

## Main results

* `ContentItem.Agrees.change`: the counts are right after an action.
* `Host.Serving.attend_tallied`: they remain right through a whole schedule.
* `StoreState.Tallied.item?_eq`: the item is determined by the flags of the users.
-/

namespace HiveForum

open EngagementRecord

/-- The item but for what votes and reports change. -/
def ContentItem.uncounted (item : ContentItem) : ContentItem :=
  { item with upVotes := 0, downVotes := 0, reports := 0, obfuscated := false }

theorem ContentItem.eq_of_uncounted {item item' : ContentItem}
    (rest : item.uncounted = item'.uncounted) (up : item.upVotes = item'.upVotes)
    (down : item.downVotes = item'.downVotes) (reports : item.reports = item'.reports)
    (obfuscated : item.obfuscated = item'.obfuscated) : item = item' := by
  cases item
  cases item'
  simp only [uncounted, mk.injEq] at rest up down reports obfuscated ⊢
  simp only [rest, up, down, reports, obfuscated, and_self]

namespace EngagementAction

variable {action : EngagementAction} {record changed : EngagementRecord} {reviewed : Bool}
  {time : Int64} {edit : ContentItem → ContentItem}

theorem uncounted_edit (h : action.change record reviewed time = .ok (changed, edit))
    {item : ContentItem} (nonneg : 0 ≤ item.comments.toInt) :
    (edit item).uncounted = item.uncounted := by
  obtain ⟨_, change, -, rfl⟩ | ⟨_, -, rfl⟩ | ⟨_, outcome, -, rfl⟩ := change_cases h
  · have hcomments : CountChange.floorAdd item.comments 0 = item.comments :=
      Int64.toInt_inj.1 (CountChange.floorAdd_zero nonneg)
    simp only [ContentItem.uncounted, CountChange.applyTo, VoteChange.counts, hcomments]
  · rfl
  · cases outcome <;> rfl

/-- On an item that has not been reviewed, an action only fails if there is nothing to do. -/
theorem change_error {error : OperationError}
    (h : action.change record false time = .error error) : error = .noOp := by
  have reported : ∀ {report}, change.reported record false report = .error error →
      error = .noOp := by
    intro report hreported
    rw [change.reported] at hreported
    split at hreported
    · rename_i hrejected
      rw [EngagementRecord.report] at hrejected
      cases report <;> cases hflag : record.reported <;>
        simp [reportTransition, hflag] at hrejected
    · cases hreported
      rfl
    · cases hreported
  cases action with
  | vote request =>
    rw [change] at h
    split at h <;> cases h
    rfl
  | save saved =>
    rw [change] at h
    split at h <;> cases h
    rfl
  | report reason => exact reported h
  | withdraw => exact reported h

theorem oneVote_change (oneVote : ¬(record.upVoted = true ∧ record.downVoted = true))
    (h : action.change record reviewed time = .ok (changed, edit)) :
    ¬(changed.upVoted = true ∧ changed.downVoted = true) := by
  obtain ⟨_, _, hvote, -⟩ | ⟨_, hsave, -⟩ | ⟨_, _, hreport, -⟩ := change_cases h
  · exact (changes_vote oneVote hvote).oneVote
  · exact (changes_setSaved oneVote hsave).oneVote
  · exact (changes_report oneVote hreport).oneVote

end EngagementAction

namespace StoreState

theorem length_records_withRecord_le (store : StoreState) (record : EngagementRecord) :
    (store.withRecord record).records.length ≤ store.records.length + 1 := by
  have hinsert := Table.countP_insert store.engagement record.key record.written fun _ => true
  simp only [List.countP_true, Bool.toNat_true] at hinsert
  change (store.engagement.insert record.key record.written).values.length ≤ _
  rw [records]
  omega

theorem flag_eq_recordFor (store : StoreState) (user : UserId) (target : Target)
    {flagOf : EngagementRecord → Bool}
    (neutral : flagOf (.neutral user target.content target.hive) = false) :
    store.flag ⟨user, target.content.id⟩ flagOf = flagOf (store.recordFor user target) := by
  rw [flag, recordFor]
  cases store.record? ⟨user, target.content.id⟩ with
  | none => exact neutral.symm
  | some record => rfl

/-- The counts of the item agree with the records, no user has voted for and against anything, and
there is room for some more records. -/
structure Tallied (key : ContentKey) (rest : ContentItem) (room : Nat) (store : StoreState) :
    Prop where
  keyed : store.Keyed
  oneVote : ∀ key record, store.record? key = some record →
    ¬(record.upVoted = true ∧ record.downVoted = true)
  range : store.records.length + room < 9223372036854775807
  item : ∃ item, store.item? key = some item ∧ item.uncounted = rest ∧ item.Agrees store

end StoreState

/-- The counts of an item are right when a user has acted on it. -/
theorem ContentItem.Agrees.change {item : ContentItem} {store : StoreState} {user : UserId}
    {target : Target} {action : EngagementAction} {changed : EngagementRecord} {time : Int64}
    {edit : ContentItem → ContentItem} (h : item.Agrees store) (keyed : store.Keyed)
    (found : item.id = target.content.id)
    (oneVote : ¬((store.recordFor user target).upVoted = true ∧
      (store.recordFor user target).downVoted = true))
    (hchange : action.change (store.recordFor user target) item.reviewed time =
      .ok (changed, edit))
    (range : (store.withRecord changed).records.length < 9223372036854775807) :
    (edit item).Agrees (store.withRecord changed) := by
  have hkey := (EngagementAction.change_eq_ok hchange).1.trans keyed.key_recordFor
  have hcontent : changed.content = item.id :=
    (congrArg EngagementKey.content hkey).trans found.symm
  have tally : ∀ {up down reports : Int},
      (store.recordFor user target).Changes changed up down reports →
        ((store.withRecord changed).tally item.id (·.upVoted) : Int) =
            store.tally item.id (·.upVoted) + up ∧
          ((store.withRecord changed).tally item.id (·.downVoted) : Int) =
              store.tally item.id (·.downVoted) + down ∧
            ((store.withRecord changed).tally item.id (·.reported) : Int) =
              store.tally item.id (·.reported) + reports := by
    intro up down reports changes
    have hflag : ∀ {flagOf : EngagementRecord → Bool} {delta : Int},
        flagOf changed.written = flagOf changed →
          flagOf (.neutral user target.content target.hive) = false →
            (flagOf changed).toInt = (flagOf (store.recordFor user target)).toInt + delta →
              ((store.withRecord changed).tally item.id flagOf : Int) =
                store.tally item.id flagOf + delta := by
      intro flagOf delta hwritten hneutral hdelta
      rw [← store.flag_eq_recordFor user target hneutral, ← hkey] at hdelta
      rw [← hcontent]
      exact StoreState.tally_withRecord (fun old => keyed.records _ old) hwritten hdelta
    exact ⟨hflag rfl rfl changes.up, hflag rfl rfl changes.down, hflag rfl rfl changes.reports⟩
  obtain ⟨request, change, hvote, rfl⟩ | ⟨saved, hsave, rfl⟩ | ⟨report, outcome, hreport, rfl⟩ :=
    EngagementAction.change_cases hchange
  · obtain ⟨hup, hdown, hreports⟩ := tally (EngagementRecord.changes_vote oneVote hvote)
    exact h.applyTo hup hdown (by omega) rfl range
  · obtain ⟨hup, hdown, hreports⟩ := tally (EngagementRecord.changes_setSaved oneVote hsave)
    refine ⟨h.upVotes.trans ?_, h.downVotes.trans ?_, h.reports.trans ?_, h.obfuscated⟩
    · change (store.tally item.id _ : Int) = (store.withRecord changed).tally item.id _
      omega
    · change (store.tally item.id _ : Int) = (store.withRecord changed).tally item.id _
      omega
    · change (store.tally item.id _ : Int) = (store.withRecord changed).tally item.id _
      omega
  · obtain ⟨hup, hdown, hreports⟩ := tally (EngagementRecord.changes_report oneVote hreport)
    exact h.report (by omega) (by omega) hreports range

namespace StoreState.Tallied

variable {store : StoreState} {target : Target} {rest : ContentItem} {room : Nat}

theorem oneVote_recordFor (tallied : Tallied target.content rest room store) (user : UserId) :
    ¬((store.recordFor user target).upVoted = true ∧
      (store.recordFor user target).downVoted = true) := by
  rw [StoreState.recordFor]
  cases hrecord : store.record? ⟨user, target.content.id⟩ with
  | none => exact fun h => Bool.false_ne_true h.1
  | some record => exact tallied.oneVote _ record hrecord

/-- The counts remain right whatever a user does with the item. -/
theorem settle (tallied : Tallied target.content rest (room + 1) store)
    (nonneg : 0 ≤ rest.comments.toInt) (action : EngagementAction) (directory : Directory)
    (time : Int64) (caller : Caller) :
    Tallied target.content rest room
      ((Handling.engage action).settle directory store time caller target).contents := by
  have hrange := tallied.range
  have keyed := tallied.keyed.settle (.engage action) directory time caller target
  obtain ⟨error, stamped, hsettle⟩ | ⟨item, changed, edit, hitem, hchange, hsettle⟩ :=
    Handling.settle_cases action directory store time caller target
  · rw [hsettle]
    refine ⟨tallied.keyed, tallied.oneVote, ?_, tallied.item⟩
    dsimp only
    omega
  · rw [hsettle] at keyed ⊢
    obtain ⟨stored, hstored, hrest, agrees⟩ := tallied.item
    obtain rfl := Option.some.inj (hstored.symm.trans (locate_eq_ok_iff.1 hitem).1)
    have hlength := store.length_records_withRecord_le changed
    have hid := congrArg ContentKey.id (tallied.keyed.items _ stored hstored)
    have oneVote := tallied.oneVote_recordFor caller.user
    have edited := agrees.change tallied.keyed hid oneVote hchange (by omega)
    refine ⟨keyed, fun key record hrecord => ?_, ?_, edit stored, ?_, ?_, ?_⟩
    · rw [record?_putItem, record?_withRecord] at hrecord
      split at hrecord
      · obtain rfl := Option.some.inj hrecord
        have written := EngagementAction.oneVote_change oneVote hchange
        exact written
      · exact tallied.oneVote key record hrecord
    · change (store.withRecord changed).records.length + room < _
      omega
    · exact (item?_putItem _ _ _ _).trans (if_pos rfl)
    · rw [EngagementAction.uncounted_edit hchange, hrest]
      rw [← hrest] at nonneg
      exact nonneg
    · exact edited.congr fun flagOf => rfl

/-- The counts of an item are the same in two stores in which every user has the same flags. -/
theorem item?_eq {other : StoreState} {room' : Nat}
    (tallied : Tallied target.content rest room store)
    (tallied' : Tallied target.content rest room' other)
    (records : ∀ user, (store.record? ⟨user, target.content.id⟩).map unstamped =
      (other.record? ⟨user, target.content.id⟩).map unstamped) :
    store.item? target.content = other.item? target.content := by
  obtain ⟨item, hitem, hrest, agrees⟩ := tallied.item
  obtain ⟨item', hitem', hrest', agrees'⟩ := tallied'.item
  have hid : item.id = target.content.id :=
    congrArg ContentKey.id (tallied.keyed.items _ item hitem)
  have hid' : item'.id = target.content.id :=
    congrArg ContentKey.id (tallied'.keyed.items _ item' hitem')
  -- the flags are among what is left of a record without the time of its vote
  have tally : ∀ {flagOf : EngagementRecord → Bool}, (∀ record, flagOf record.unstamped =
      flagOf record) → store.tally item.id flagOf = other.tally item'.id flagOf := by
    intro flagOf hflag
    have hany : ∀ record? : Option EngagementRecord,
        record?.any flagOf = (record?.map unstamped).any flagOf := by
      intro record?
      cases record? with
      | none => rfl
      | some record => exact (hflag record).symm
    rw [hid, hid']
    refine tally_eq_of_flag tallied.keyed.records tallied'.keyed.records fun user => ?_
    rw [flag, flag, hany, records]
    exact (hany _).symm
  have hreports : item.reports = item'.reports := Int64.toInt_inj.1 <| by
    rw [agrees.reports, agrees'.reports, tally fun _ => rfl]
  have hreviewed : item.reviewed = item'.reviewed := by
    have hsame := congrArg ContentItem.reviewed (hrest.trans hrest'.symm)
    exact hsame
  have heq : item = item' := by
    refine ContentItem.eq_of_uncounted (hrest.trans hrest'.symm) (Int64.toInt_inj.1 ?_)
      (Int64.toInt_inj.1 ?_) hreports (Bool.eq_iff_iff.2 ?_)
    · rw [agrees.upVotes, agrees'.upVotes, tally fun _ => rfl]
    · rw [agrees.downVotes, agrees'.downVotes, tally fun _ => rfl]
    · rw [agrees.obfuscated, agrees'.obfuscated, hreports, hreviewed]
  rw [hitem, hitem', heq]

end StoreState.Tallied

/-! ### Schedules -/

namespace Visit

/-- The operation keeps to the limits, and the caller is a member of the hive. -/
def Allowed (directory : Directory) (visit : Visit) : Prop :=
  visit.handling.check = .ok () ∧
    ∃ role, directory.checkMember visit.caller visit.target.hive = .ok role

/-- The operation gives the record of the caller, or there is nothing to do. -/
def Settled (outcome : Outcome Handled) : Prop :=
  outcome = .error (.failed .noOp) ∨ ∃ record, outcome = .ok (.record record)

end Visit

/-- What may be done with an item that has not been reviewed is done, or there is nothing to do. -/
theorem Handling.settle_answers {action : EngagementAction} {directory : Directory}
    {contents : StoreState} {time : Int64} {caller : Caller} {target : Target} {item : ContentItem}
    {role : Role} (check : (Handling.engage action).check = .ok ())
    (member : directory.checkMember caller target.hive = .ok role)
    (found : contents.locate target = .ok item) (unreviewed : item.reviewed = false) :
    ((Handling.engage action).settle directory contents time caller target).result =
        .error .noOp ∨
      ∃ record, ((Handling.engage action).settle directory contents time caller target).result =
        .ok (.record record) := by
  have hpermit : (Handling.engage action).permit directory contents caller target = .ok item :=
    (Handling.permit_of_ok check ((Handling.bind_require_engage action _).trans member)).trans found
  cases hchange : action.change (contents.recordFor caller.user target) item.reviewed time with
  | error error =>
    rw [Handling.settle_of_change_error hpermit hchange]
    rw [unreviewed] at hchange
    exact .inl (congrArg Except.error (EngagementAction.change_error hchange))
  | ok result =>
    rw [Handling.settle_of_change_ok hpermit hchange]
    exact .inr ⟨_, rfl⟩

namespace Host

variable {host : Host} {target : Target} {rest : ContentItem}

/-- The counts are right after one more operation, and whoever may act on the item does so or has
nothing to do. -/
theorem Serving.visit_tallied {room : Nat} {visit : Visit} (serving : host.Serving)
    (nonneg : 0 ≤ rest.comments.toInt)
    (tallied : host.store.state.Tallied target.content rest (room + 1))
    (engages : visit.Engages target) :
    (host.visit visit).2.store.state.Tallied target.content rest room ∧
      (rest.reviewed = false → rest.hive = target.hive → visit.Allowed host.directory →
        Visit.Settled (host.visit visit).1) := by
  obtain ⟨htarget, action, haction⟩ := engages
  have settles := serving.visit tallied.keyed visit
  have hsettle : host.settle visit = (Handling.engage action).settle host.directory
      host.store.state (host.atWall visit.wall).stamps.tick.1 visit.caller target := by
    rw [Host.settle, htarget, haction]
  refine ⟨?_, fun unreviewed belongs allowed => ?_⟩
  · rw [settles.leaves.contents, hsettle]
    exact tallied.settle nonneg action host.directory _ visit.caller
  · obtain ⟨check, role, member⟩ := allowed
    rw [haction] at check
    rw [htarget] at member
    obtain ⟨item, hitem, hrest, -⟩ := tallied.item
    have hsame : item.reviewed = rest.reviewed ∧ item.hive = rest.hive := by
      rw [← hrest]
      exact ⟨rfl, rfl⟩
    have found : host.store.state.locate target = .ok item :=
      StoreState.locate_eq_ok_iff.2 ⟨hitem, hsame.2.trans belongs⟩
    rw [Visit.Settled, settles.outcome, hsettle]
    obtain hresult | ⟨record, hresult⟩ :=
      Handling.settle_answers check member found (hsame.1.trans unreviewed)
    · rw [hresult]
      exact .inl rfl
    · rw [hresult]
      exact .inr ⟨record, rfl⟩

/-- The counts remain right through a whole schedule, and whoever may act on the item does so or has
nothing to do. -/
theorem Serving.attend_tallied {visits : List Visit} (serving : host.Serving)
    (nonneg : 0 ≤ rest.comments.toInt)
    (tallied : host.store.state.Tallied target.content rest visits.length)
    (engaged : ∀ visit ∈ visits, visit.Engages target) :
    (host.attend visits).2.store.state.Tallied target.content rest 0 ∧
      (rest.reviewed = false → rest.hive = target.hive → ∀ entry ∈ (host.attend visits).1,
        entry.1.Allowed host.directory → Visit.Settled entry.2) := by
  induction visits generalizing host with
  | nil => exact ⟨tallied, fun _ _ _ hentry => by cases hentry⟩
  | cons visit visits ih =>
    obtain ⟨engages, engaged⟩ := List.forall_mem_cons.1 engaged
    obtain ⟨hlater, hanswer⟩ := serving.visit_tallied nonneg tallied engages
    have leaves := (serving.visit tallied.keyed visit).leaves
    have hdirectory : (host.visit visit).2.directory = host.directory := leaves.directory
    obtain ⟨hlast, hanswers⟩ := ih leaves.serving hlater engaged
    rw [hdirectory] at hanswers
    rw [attend_cons]
    exact ⟨hlast, fun unreviewed belongs => List.forall_mem_cons.2
      ⟨hanswer unreviewed belongs, hanswers unreviewed belongs⟩⟩

end Host

/-- The counts of an item that is not deleted agree with the records in every forum that is
reached. -/
theorem StoreState.tallied_of_run {site : Site} {invocations : List Invocation}
    {pool : Thread.Pool} {forum : Forum} {key : ContentKey} {item : ContentItem} {room : Nat}
    (run : Thread.Pool.Steps ((site.responses .wild).within Forum.Orderly)
      (Invocation.pool invocations) .blank pool forum)
    (stored : forum.store.item? key = some item)
    (undeleted : ∀ invocation ∈ invocations,
      ¬invocation.operation.Deletes forum.created item.asCreated)
    (range : forum.store.records.length + room < 9223372036854775807) :
    forum.store.Tallied key item.uncounted room ∧ 0 ≤ item.uncounted.comments.toInt := by
  have sound : forum.Sound ⟨site, forum.created, fun item => ∀ invocation ∈ invocations,
      ¬invocation.operation.Deletes forum.created item⟩ :=
    Forum.Sound.of_run run (fun _ orderly => orderly.ids) (fun _ orderly _ _ => orderly.range)
      fun _ spared => spared
  exact ⟨⟨sound.isKeyed, fun key record hrecord => (sound.records key record hrecord).2.2, range,
    item, stored, rfl, sound.counts key item stored undeleted⟩,
    (sound.nonneg key item stored).comments⟩

end HiveForum
