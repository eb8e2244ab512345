import HiveForum.Postgres.Store
import HiveForum.Proofs.Forum.Run
import HiveForum.Proofs.Postgres.Recording
import HiveForum.Store.Memory

/-!
# Both stores commit the same writes of records

A transaction either commits, and then the database holds what the store in memory holds after the
same call, or it is rolled back, and then nothing has changed. The two stores check in different
places whether an item is missing or reviewed and whether a version is out of date, but with the
same outcome.

## Main definitions

* `Postgres.Dialogue.Commits`: a transaction carries out a change of a store.
* `Request.WritesRecords`: the calls that write or remove records.

## Main results

* `Postgres.Dialogue.Commits.ask`: a transaction goes on after a statement.
* `Postgres.commits_putEngagement_of_overflow`: the writes of a record that cannot be counted.
* `Postgres.Store.answer_eq_memory`: both stores give the same answer to such a call, and hold the
  same contents after it.
-/

namespace HiveForum

open Sql

/-- The calls that write or remove records, with the conditions under which they are made: a record
may be handed to the store, the counts of the item do not leave their range, and a batch is no
larger than allowed. -/
def Request.WritesRecords (store : StoreState) : Request → Prop
  | .putEngagement record | .commitReport record _ _ => record.Writable store
  | .commitVote record key change =>
    record.Writable store ∧ ∀ item, store.item? key = some item → change.Fits item
  | .deleteEngagements keys => keys.length ≤ Limit.batchWrite
  | _ => False

theorem Sql.DatabaseSession.reply_query {session : DatabaseSession} {query : Query}
    {answer : Answered} {after : Database}
    (hrun : query.run session.current = (.ok answer, after)) :
    DatabaseSession.peer.reply (.query query) session = (.ok answer, session.setCurrent after) := by
  change session.runQuery query = _
  rw [runQuery, hrun]

theorem Sql.DatabaseSession.reply_refused {session : DatabaseSession} {query : Query}
    {refusal : Refusal} {after : Database}
    (hrun : query.run session.current = (.error refusal, after)) :
    DatabaseSession.peer.reply (.query query) session = (.error (.refused refusal), session) := by
  change session.runQuery query = _
  rw [runQuery, hrun]

namespace Postgres

variable {α β : Type} {database committed : Database} {store : StoreState}
  {record : EngagementRecord} {key : ContentKey}

/-! ### Transactions -/

/-- A transaction that sees some rows carries out a change of a store: it ends with the result, and
where this is a value the rows that last hold the contents after the change. Otherwise the rows that
last are what they were. -/
def Dialogue.Commits (dialogue : Dialogue α) (committed working : Database)
    (result : Except StoreError (α × StoreState)) : Prop :=
  ∃ transcript after,
    dialogue.run DatabaseSession.peer ⟨committed, some working⟩ = (transcript, ⟨after, none⟩) ∧
      transcript.value = result.map (·.1) ∧
      (∀ value store, result = .ok (value, store) → after.Holds store) ∧
      ∀ error, result = .error error → after = committed

namespace Dialogue.Commits

theorem commit (holds : database.Holds store) (value : α) :
    (Dialogue.commit value).Commits committed database (.ok (value, store)) :=
  ⟨_, _, rfl, rfl, fun _ _ h => by cases h; exact holds, fun _ h => by cases h⟩

theorem abort (error : StoreError) :
    (Dialogue.abort error : Dialogue α).Commits committed database (.error error) :=
  ⟨_, _, rfl, rfl, fun _ _ h => (by cases h), fun _ _ => rfl⟩

/-- A transaction goes on with the rows that a statement leaves. -/
theorem ask {query : Query} {next : Answered → Dialogue α} {answer : Answered} {after : Database}
    {result : Except StoreError (α × StoreState)} (hrun : query.run database = (.ok answer, after))
    (hnext : (next answer).Commits committed after result) :
    (Dialogue.ask query next).Commits committed database result := by
  obtain ⟨transcript, last, hlast, hrest⟩ := hnext
  have hreply : DatabaseSession.peer.reply (.query query) ⟨committed, some database⟩ =
      (.ok answer, ⟨committed, some after⟩) := DatabaseSession.reply_query hrun
  refine ⟨⟨transcript.value, .query query :: transcript.sent⟩, last, ?_, hrest⟩
  rw [Dialogue.run, hreply]
  dsimp only
  rw [hlast]

theorem askRead {query : Query} {read : Answered → Except StoreError α} {next : α → Dialogue β}
    {result : Except StoreError (α × StoreState)}
    {after : α × StoreState → Except StoreError (β × StoreState)}
    (hquery : query.Realizes read database result)
    (hnext : ∀ value store database, result = .ok (value, store) → database.Holds store →
      (next value).Commits committed database (after (value, store))) :
    (Dialogue.ask query fun answer => Dialogue.read (read answer) next).Commits committed database
      (result.bind after) := by
  obtain ⟨answer, later, hrun, hread, hholds⟩ := hquery
  refine ask hrun ?_
  rw [hread]
  cases result with
  | error error => exact abort error
  | ok entry => exact hnext entry.1 entry.2 later rfl (hholds _ _ rfl)

theorem refuse {query : Query} {next : Answered → Dialogue α} {refusal : Refusal} {after : Database}
    (hrun : query.run database = (.error refusal, after)) :
    (Dialogue.ask query next).Commits committed database
      (.error (Failure.refused refusal).storeError) := by
  have hreply : DatabaseSession.peer.reply (.query query) ⟨committed, some database⟩ =
      (.error (.refused refusal), ⟨committed, some database⟩) :=
    DatabaseSession.reply_refused hrun
  refine ⟨⟨.error _, [.query query, .rollback]⟩, committed, ?_, rfl, fun _ _ h => (by cases h),
    fun _ _ => rfl⟩
  rw [Dialogue.run, hreply]
  rfl

end Dialogue.Commits

/-! ### The writes of records -/

theorem commits_putEngagement (holds : database.Holds store)
    (versions : ∀ key stored, store.record? key = some stored → 0 < stored.version)
    (writable : record.Writable store) :
    (putEngagement record).Commits committed database (store.writeRecord record) := by
  have hcommits : (putEngagement record).Commits committed database
      ((store.writeRecord record).bind fun entry => .ok (entry.1, entry.2)) :=
    .askRead (realizes_writeRecord holds versions writable) fun stored _ _ _ hlater =>
      .commit hlater stored
  cases hwrite : store.writeRecord record <;> rw [hwrite] at hcommits <;> exact hcommits

/-- A record that has been written as often as can be counted is refused. The store in memory would
write it, and its version would run over. -/
theorem commits_putEngagement_of_overflow (holds : database.Holds store)
    {stored : EngagementRecord} (hstored : store.record? record.key = some stored)
    (hversion : stored.version = record.version) (hscope : stored.scope = record.scope)
    (hhive : stored.hive = record.hive) (overflow : ¬IsBigint (record.version.toInt + 1)) :
    (putEngagement record).Commits committed database
      (.error (Failure.refused .noValue).storeError) := by
  have hpositive : 0 < record.version := by
    rw [Int64.lt_iff_toInt_lt]
    have hrange := record.version.toInt_lt
    have hleast := record.version.le_toInt
    have hzero : (0 : Int64).toInt = 0 := rfl
    rw [IsBigint] at overflow
    omega
  have hquery : writeRecord record = ⟨replaceRecord, record.params⟩ := by
    rw [writeRecord, EngagementRecord.isStored, decide_eq_true hpositive]
    rfl
  rw [putEngagement, hquery]
  exact .refuse (run_replaceRecord_of_overflow holds hstored hversion hscope hhive overflow)

theorem writeRecord_putItem (store : StoreState) (key : ContentKey) (item : ContentItem)
    (record : EngagementRecord) :
    (store.putItem key item).writeRecord record =
      (store.writeRecord record).map fun entry => (entry.1, entry.2.putItem key item) := by
  have hversion : (store.putItem key item).storedVersion record.key =
      store.storedVersion record.key := rfl
  rw [StoreState.writeRecord, StoreState.writeRecord, hversion]
  split <;> rfl

theorem commitVote_eq_bind (store : StoreState) (record : EngagementRecord) (key : ContentKey)
    (change : CountChange) :
    store.commitVote record key change =
      (store.updateItem key change.applyTo).bind fun counted =>
        (counted.2.writeRecord record).bind fun written =>
          .ok ((written.1, counted.1), written.2) := by
  rw [StoreState.commitVote, StoreState.updateItem]
  cases store.item? key with
  | none => rfl
  | some item =>
    change _ = ((store.putItem key (change.applyTo item)).writeRecord record).bind _
    rw [writeRecord_putItem]
    cases store.writeRecord record <;> rfl

/-- Changing the counts of an item, and writing a record. -/
theorem commits_commitVote {change : CountChange} (holds : database.Holds store)
    (versions : ∀ key stored, store.record? key = some stored → 0 < stored.version)
    (writable : record.Writable store)
    (fits : ∀ item, store.item? key = some item → change.Fits item) :
    (commitVote record key change).Commits committed database
      (store.commitVote record key change) := by
  rw [commitVote_eq_bind]
  refine .askRead (realizes_adjustCounts holds fits) fun item counted _ hupdate hcounted => ?_
  -- the change of the item has left the records as they were
  have hrecords : counted.record? = store.record? := by
    rw [StoreState.updateItem] at hupdate
    split at hupdate
    · cases hupdate
    · cases hupdate
      rfl
  have hwritable : record.Writable counted := by
    refine ⟨writable.version_nonneg, writable.oneVote, ?_, ?_⟩
    · rw [hrecords]
      exact writable.placed
    · rw [hrecords]
      exact writable.counted
  exact .askRead (realizes_writeRecord hcounted (hrecords ▸ versions) hwritable)
    fun stored _ _ _ hlast => .commit hlast (stored, item)

theorem reports_nonneg_of_holds (holds : database.Holds store) {item : ContentItem}
    (hitem : store.item? key = some item) : 0 ≤ item.reports := by
  obtain ⟨-, row, hrow, hread⟩ := holds.items.complete key item hitem
  have hadmits := holds.admitted .contentItems row hrow
  exact ((ContentItem.ofRow_eq_ok_iff.1 hread).admits_iff.1 hadmits).2.2.2

/-- A report leaves no negative count of reports. -/
theorem reports_applyTo_nonneg {item : ContentItem} (outcome : ReportOutcome)
    (nonneg : 0 ≤ item.reports) : 0 ≤ (outcome.applyTo item).reports := by
  rw [Int64.le_iff_toInt_le] at nonneg ⊢
  have hzero : (0 : Int64).toInt = 0 := rfl
  have hone : (1 : Int64).toInt = 1 := rfl
  cases outcome with
  | added =>
    change _ ≤ (Saturating.add item.reports 1).toInt
    rw [Saturating.toInt_add, Saturating.clamp]
    omega
  | removed =>
    change _ ≤ (max (Saturating.sub item.reports 1) 0).toInt
    rw [CountChange.toInt_max_zero]
    omega

theorem applyTo_eq (outcome : ReportOutcome) (item : ContentItem) :
    { item with
      reports := (outcome.applyTo item).reports
      obfuscated := (outcome.applyTo item).obfuscated } = outcome.applyTo item := by
  cases outcome <;> rfl

theorem commitReport_eq_bind (store : StoreState) (record : EngagementRecord) (key : ContentKey)
    (outcome : ReportOutcome) :
    store.commitReport record key outcome =
      (match store.item? key with
        | none => .error .contentNotFound
        | some item => .ok (item, store) : Except StoreError (ContentItem × StoreState)).bind
        fun found =>
          if outcome = .added ∧ found.1.reviewed then .error .contentReviewed
          else
            (found.2.writeRecord record).bind fun written =>
              .ok ((written.1, outcome.applyTo found.1),
                written.2.putItem key (outcome.applyTo found.1)) := by
  rw [StoreState.commitReport]
  cases store.item? key with
  | none => rfl
  | some item =>
    change (if outcome = .added ∧ item.reviewed then _ else _) =
      if outcome = .added ∧ item.reviewed then _ else _
    cases store.writeRecord record <;> rfl

/-- Locking an item, writing a record, and changing the item by the outcome of the report. -/
theorem commits_commitReport {outcome : ReportOutcome} (holds : database.Holds store)
    (versions : ∀ key stored, store.record? key = some stored → 0 < stored.version)
    (writable : record.Writable store) :
    (commitReport record key outcome).Commits committed database
      (store.commitReport record key outcome) := by
  rw [commitReport_eq_bind]
  refine .askRead (realizes_selectContent holds key true) fun item found _ hfound hholds => ?_
  have hitem : store.item? key = some item ∧ found = store := by
    split at hfound
    · cases hfound
    · rename_i stored hstored
      cases hfound
      exact ⟨hstored, rfl⟩
  obtain ⟨hitem, rfl⟩ := hitem
  by_cases hreviewed : outcome = .added ∧ item.reviewed
  · simp only [if_pos hreviewed]
    exact .abort _
  · simp only [if_neg hreviewed]
    refine .askRead (realizes_writeRecord hholds versions writable)
      fun stored later database hwrite hlater => ?_
    have hlaterItem : later.item? key = some item := by
      obtain ⟨-, -, rfl⟩ := StoreState.writeRecord_eq_ok_iff.1 hwrite
      exact hitem
    obtain ⟨answer, after, hrun, hafter⟩ :=
      run_setReports (outcome.applyTo item).obfuscated hlater hlaterItem
        (reports_applyTo_nonneg outcome (reports_nonneg_of_holds hholds hitem))
    rw [applyTo_eq] at hafter
    exact .ask hrun (.commit hafter _)

/-! ### Calls -/

/-- A transaction that carries out a change is a call that does, if no transaction is open. -/
theorem Dialogue.Commits.run {dialogue : Dialogue α}
    {result : Except StoreError (α × StoreState)} (holds : committed.Holds store)
    (h : dialogue.Commits committed committed result) :
    ∃ transcript after,
      (Plan.transaction dialogue).run DatabaseSession.peer ⟨committed, none⟩ =
        (transcript, ⟨after, none⟩) ∧
      transcript.value = result.map (·.1) ∧
      after.Holds ((result.toOption.map (·.2)).getD store) := by
  obtain ⟨transcript, after, hrun, hvalue, hok, herror⟩ := h
  have hbegin : DatabaseSession.peer.reply .begin ⟨committed, none⟩ =
      (.ok ⟨[], 0⟩, ⟨committed, some committed⟩) := rfl
  refine ⟨⟨transcript.value, .begin :: transcript.sent⟩, after, ?_, hvalue, ?_⟩
  · rw [Plan.run, hbegin]
    dsimp only
    rw [hrun]
  · cases result with
    | error error =>
      rw [herror error rfl]
      exact holds
    | ok entry => exact hok entry.1 entry.2 rfl

theorem answer_of_perform {memory : MemoryStore} (request : Request)
    {result : Except StoreError (request.Answer × StoreState)} (available : memory.available = true)
    (h : memory.state.perform memory.limits request = result) :
    (memory.answer request).1 = result.map (·.1) ∧
      (memory.answer request).2.state = (result.toOption.map (·.2)).getD memory.state := by
  rw [MemoryStore.answer, if_pos available, h]
  cases result <;> exact ⟨rfl, rfl⟩

/-- Removing records needs no transaction, and no statement if there is no key. -/
theorem run_deleteEngagements {keys : List EngagementKey} (holds : committed.Holds store)
    (small : keys.length ≤ Limit.batchWrite) :
    ∃ transcript after,
      (plan (.deleteEngagements keys)).run DatabaseSession.peer ⟨committed, none⟩ =
        (transcript, ⟨after, none⟩) ∧
      transcript.value = .ok [] ∧ after.Holds (store.removeRecords keys) := by
  have hcheck : checkBatch keys = .ok () := by
    rw [checkBatch, if_neg (Nat.not_lt.2 small)]
  obtain ⟨answer, after, hrun, -, hholds⟩ := realizes_deleteEngagements holds keys
  simp only [plan, hcheck]
  split
  · rename_i hempty
    obtain rfl := List.isEmpty_iff.1 hempty
    exact ⟨_, _, rfl, rfl, holds⟩
  · have hreply : DatabaseSession.peer.reply (.query (deleteEngagements keys)) ⟨committed, none⟩ =
        (.ok answer, ⟨after, none⟩) := DatabaseSession.reply_query hrun
    refine ⟨⟨.ok [], [.query (deleteEngagements keys)]⟩, after, ?_, rfl, hholds _ _ rfl⟩
    rw [one, Plan.run, hreply]
    rfl

/-- A database and a store in memory that hold the same contents give the same answer to a call that
writes or removes records, be it the record or why it was not written, and hold the same contents
after it. -/
theorem Store.answer_eq_memory {session : DatabaseSession} {memory : MemoryStore}
    {request : Request} (holds : session.committed.Holds memory.state)
    (idle : session.working = none) (available : memory.available = true)
    (capacity : Limit.batchWrite ≤ memory.writeCapacity)
    (versions : ∀ key stored, memory.state.record? key = some stored → 0 < stored.version)
    (writes : request.WritesRecords memory.state) :
    ∃ transcript after,
      Store.answer {} DatabaseSession.peer request session = (transcript, ⟨after, none⟩) ∧
      transcript.value = (memory.answer request).1 ∧
      after.Holds (memory.answer request).2.state := by
  obtain ⟨committed, _⟩ := session
  obtain rfl := idle
  cases request with
  | putEngagement record =>
    obtain ⟨hanswer, hstate⟩ := answer_of_perform (.putEngagement record) available rfl
    rw [hanswer, hstate]
    exact (commits_putEngagement holds versions writes).run holds
  | commitReport record key outcome =>
    obtain ⟨hanswer, hstate⟩ :=
      answer_of_perform (.commitReport record key outcome) available rfl
    rw [hanswer, hstate]
    exact (commits_commitReport holds versions writes).run holds
  | commitVote record key change =>
    obtain ⟨hanswer, hstate⟩ :=
      answer_of_perform (.commitVote record key change) available rfl
    rw [hanswer, hstate]
    exact (commits_commitVote holds versions writes.1 writes.2).run holds
  | deleteEngagements keys =>
    have small : keys.length ≤ Limit.batchWrite := writes
    have hcheck : checkBatch keys = .ok () := by
      rw [checkBatch, if_neg (Nat.not_lt.2 small)]
    have hcapacity : keys.length ≤ memory.limits.writeCapacity := Nat.le_trans small capacity
    obtain ⟨hanswer, hstate⟩ := answer_of_perform (.deleteEngagements keys) available rfl
    rw [hanswer, hstate, StoreState.perform, hcheck]
    dsimp only
    rw [List.drop_of_length_le hcapacity, List.take_of_length_le hcapacity]
    exact run_deleteEngagements holds small
  | _ => exact writes.elim

end Postgres

namespace Sample

open Postgres

/-- The database with the post and the vote. -/
def votedDatabase : Database where
  contentItems := [Relation.contentItems.columns.zip votedPost.params]
  engagementRecords := [Relation.engagementRecords.columns.zip voted.written.params]

theorem votedDatabase_holds : votedDatabase.Holds votedForum.store where
  items := by
    have hnil : Tabulates ContentItem.ofRow ContentItem.key [] fun _ => none := .nil fun _ => rfl
    refine hnil.insert (ContentItem.ofRow_eq_ok_iff.2 (.of_params votedPost)) rfl fun key => ?_
    change ((forum.store.withRecord voted).putItem post.key votedPost).item? key = _
    rw [StoreState.item?_putItem]
    change (if key = post.key then _ else (StoreState.empty.putItem post.key post).item? key) = _
    rw [StoreState.item?_putItem]
    by_cases hkey : key = post.key
    · rw [if_pos hkey]
      exact (if_pos hkey).symm
    · rw [if_neg hkey, if_neg hkey]
      exact (if_neg hkey).symm
  records := by
    have hnil : Tabulates EngagementRecord.ofRow EngagementRecord.key [] fun _ => none :=
      .nil fun _ => rfl
    exact hnil.insert (EngagementRecord.ofRow_eq_ok_iff.2 (.of_params voted.written)) rfl
      (forum.store.record?_withRecord voted)
  admitted := by
    rintro (_ | _)
    · exact List.forall_mem_singleton.2 (by decide)
    · exact List.forall_mem_singleton.2 (by decide)

/-- The record with the vote turned into one against the post. -/
def turned : EngagementRecord := { voted.written with upVoted := false, downVoted := true }

/-- Both stores turn the vote. -/
theorem turnVote_eq_memory :
    votedDatabase.Holds votedForum.store ∧
      (Request.commitVote turned post.key { upVotes := -1, downVotes := 1 }).WritesRecords
        votedForum.store ∧
      ∃ transcript after,
        Store.answer {} DatabaseSession.peer
            (.commitVote turned post.key { upVotes := -1, downVotes := 1 }) ⟨votedDatabase, none⟩ =
          (transcript, ⟨after, none⟩) ∧
        transcript.value = (MemoryStore.answer { state := votedForum.store }
          (.commitVote turned post.key { upVotes := -1, downVotes := 1 })).1 ∧
        after.Holds (MemoryStore.answer { state := votedForum.store }
          (.commitVote turned post.key { upVotes := -1, downVotes := 1 })).2.state := by
  have hrecord : ∀ key stored, votedForum.store.record? key = some stored →
      stored = voted.written := by
    intro key stored (hstored : (forum.store.withRecord voted).record? key = some stored)
    rw [StoreState.record?_withRecord] at hstored
    split at hstored
    · exact (Option.some.inj hstored).symm
    · cases hstored
  have hwrites : (Request.commitVote turned post.key
      { upVotes := -1, downVotes := 1 }).WritesRecords votedForum.store := by
    refine ⟨⟨by decide, by decide, fun stored hstored => ?_, fun stored hstored _ => ?_⟩,
      fun item hitem => ?_⟩
    · rw [hrecord _ stored hstored]
      exact ⟨rfl, rfl⟩
    · exact ⟨by decide, by decide⟩
    · have hitem : some votedPost = some item := hitem
      cases hitem
      exact ⟨⟨by decide, by decide⟩, ⟨by decide, by decide⟩, ⟨by decide, by decide⟩,
        ⟨by decide, by decide⟩⟩
  refine ⟨votedDatabase_holds, hwrites, ?_⟩
  exact Store.answer_eq_memory votedDatabase_holds rfl rfl (Nat.le_refl _)
    (fun key stored hstored => by rw [hrecord key stored hstored]; decide) hwrites

/-- The record of the vote after as many writes as can be counted. -/
def worn : EngagementRecord := { voted with version := 9223372036854775807 }

/-- The store with that record. -/
def wornStore : StoreState := StoreState.empty.withRecord { worn with version := worn.version - 1 }

/-- The database with that record. -/
def wornDatabase : Database where
  contentItems := []
  engagementRecords := [Relation.engagementRecords.columns.zip worn.params]

theorem record?_wornStore (key : EngagementKey) :
    wornStore.record? key = if key = worn.key then some worn else none :=
  StoreState.empty.record?_withRecord _ key

theorem wornDatabase_holds : wornDatabase.Holds wornStore where
  items := .nil fun _ => rfl
  records := by
    have hnil : Tabulates EngagementRecord.ofRow EngagementRecord.key [] fun _ => none :=
      .nil fun _ => rfl
    exact hnil.insert (EngagementRecord.ofRow_eq_ok_iff.2 (.of_params worn)) rfl record?_wornStore
  admitted := by
    rintro (_ | _)
    · exact List.forall_mem_nil _
    · exact List.forall_mem_singleton.2 (by decide)

/-- Writing the record once more succeeds in memory, where its version runs over, and is refused by
the database. -/
theorem wornWrite_ne_memory :
    wornDatabase.Holds wornStore ∧
      (∀ key stored, wornStore.record? key = some stored → 0 < stored.version) ∧
      0 ≤ worn.version ∧ ¬(worn.upVoted = true ∧ worn.downVoted = true) ∧
      (∀ stored, wornStore.record? worn.key = some stored →
        stored.scope = worn.scope ∧ stored.hive = worn.hive) ∧
      (MemoryStore.answer { state := wornStore } (.putEngagement worn)).1 =
        .ok { worn with version := -9223372036854775808 } ∧
      (Store.answer {} DatabaseSession.peer (.putEngagement worn) ⟨wornDatabase, none⟩).1.value =
        .error (.database "error returned from database: bigint out of range") := by
  have hrecord : ∀ key stored, wornStore.record? key = some stored → stored = worn := by
    intro key stored hstored
    rw [record?_wornStore] at hstored
    split at hstored
    · exact (Option.some.inj hstored).symm
    · cases hstored
  have hstored : wornStore.record? worn.key = some worn := by
    rw [record?_wornStore, if_pos rfl]
  have overflow : ¬IsBigint (worn.version.toInt + 1) := fun h => absurd h.2 (by decide)
  obtain ⟨transcript, after, hrun, hvalue, -⟩ :=
    (commits_putEngagement_of_overflow wornDatabase_holds hstored rfl rfl rfl overflow).run
      wornDatabase_holds
  have hanswer : Store.answer {} DatabaseSession.peer (.putEngagement worn) ⟨wornDatabase, none⟩ =
      (transcript, ⟨after, none⟩) := hrun
  refine ⟨wornDatabase_holds, fun key stored h => ?_, by decide, by decide, fun stored h => ?_,
    rfl, ?_⟩
  · rw [hrecord key stored h]
    decide
  · rw [hrecord _ stored h]
    exact ⟨rfl, rfl⟩
  · rw [hanswer]
    exact hvalue

end Sample

end HiveForum
