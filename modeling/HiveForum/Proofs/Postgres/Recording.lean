import HiveForum.Proofs.Postgres.Executing
import HiveForum.Proofs.Store.Change

/-!
# Writing records in a database

A record that was never stored is inserted unless there is a row of its key, and a stored one is
replaced if its row still has the version that was read. Either way the database does what the store
in memory does when it compares the versions.

## Main definitions

* `EngagementRecord.Writable`: the records that may be handed to a store.

## Main results

* `Postgres.realizes_writeRecord`: writing a record.
* `Postgres.run_replaceRecord_of_overflow`: the number of writes that cannot be counted.
* `Postgres.realizes_deleteEngagements`: removing records.
-/

namespace HiveForum

open Sql

/-- A record that may be handed to a store: it was read from there or never stored, it is no vote
for and against, it stays where it is stored, and one more write can be counted. -/
structure EngagementRecord.Writable (record : EngagementRecord) (store : StoreState) : Prop where
  version_nonneg : 0 ≤ record.version
  oneVote : ¬(record.upVoted = true ∧ record.downVoted = true)
  placed : ∀ stored, store.record? record.key = some stored →
    stored.scope = record.scope ∧ stored.hive = record.hive
  counted : ∀ stored, store.record? record.key = some stored → stored.version = record.version →
    IsBigint (record.version.toInt + 1)

namespace Postgres

variable {database : Database} {store : StoreState} {record : EngagementRecord}

/-- The condition on a row that is replaced. -/
def replaceable : Condition :=
  .both
    (.both (.both (.both (matching .userId 1) (matching .contentId 2)) (matching .version 11))
      (matching .scopeId 3))
    (matching .hiveId 4)

/-- What a row that is replaced is set to. -/
def replacement : List (Column × Term) :=
  [(.upVoted, .param 5), (.downVoted, .param 6), (.saved, .param 7), (.reported, .param 8),
    (.votedAt, .param 9), (.reportedReason, .param 10),
    (.version, .add (.column .version) (.integer 1))]

theorem replaceRecord_eq :
    replaceRecord = .update .engagementRecords replacement replaceable
      Relation.engagementRecords.columns := rfl

/-- A row is replaced if it has the key, the version and the place of the record. -/
theorem holds_replaceable_iff {row : Row} {stored : EngagementRecord}
    (shows : row.ShowsRecord stored) :
    replaceable.holds record.params row = true ↔
      stored.key = record.key ∧ stored.version = record.version ∧
        stored.scope = record.scope ∧ stored.hive = record.hive := by
  have huser : (matching .userId 1).truth record.params row = _ :=
    truth_matching shows.user rfl rfl
  have hcontent : (matching .contentId 2).truth record.params row = _ :=
    truth_matching shows.content rfl rfl
  have hversion : (matching .version 11).truth record.params row = _ :=
    truth_matching shows.version rfl rfl
  have hscope : (matching .scopeId 3).truth record.params row = _ :=
    truth_matching shows.scope rfl rfl
  have hhive : (matching .hiveId 4).truth record.params row = _ :=
    truth_matching shows.hive rfl rfl
  have htruth := Condition.truth_both (Condition.truth_both (Condition.truth_both
    (Condition.truth_both huser hcontent) hversion) hscope) hhive
  rw [replaceable, Condition.holds_of_truth htruth]
  obtain ⟨⟨user⟩, ⟨content⟩, ⟨scope⟩, ⟨hive⟩, _⟩ := record
  obtain ⟨⟨user'⟩, ⟨content'⟩, ⟨scope'⟩, ⟨hive'⟩, _⟩ := stored
  simp [EngagementRecord.key, and_assoc]

theorem add_one_of_isBigint {n : Int64} (fits : IsBigint (n.toInt + 1)) :
    Saturating.add n 1 = n + 1 := by
  have hclamp : Saturating.clamp (n.toInt + 1) = n.toInt + 1 := by
    obtain ⟨hlow, hhigh⟩ := fits
    unfold Saturating.clamp
    omega
  have hone : (1 : Int64).toInt = 1 := rfl
  rw [Saturating.add, Saturating.int64, hone, hclamp, Int64.ofInt_add, Int64.ofInt_toInt]
  rfl

/-- The columns of a row that is to be replaced can be set, and then show the record that is
written. -/
theorem exists_assign_replacement {row : Row} {stored : EngagementRecord}
    (shows : row.ShowsRecord stored) (hkey : stored.key = record.key)
    (hversion : stored.version = record.version) (hscope : stored.scope = record.scope)
    (hhive : stored.hive = record.hive) (fits : IsBigint (record.version.toInt + 1)) :
    ∃ row' : Row, row.assign record.params replacement = some row' ∧
      row'.ShowsRecord record.written := by
  have hnext : (Term.add (.column .version) (.integer 1)).value? record.params row =
      some (.bigint (record.version + 1)) := by
    rw [Term.value?, Term.value?, shows.version, hversion, ← add_one_of_isBigint fits]
    exact Value.add?_bigint fits
  have huser : stored.user = record.user := congrArg EngagementKey.user hkey
  have hcontent : stored.content = record.content := congrArg EngagementKey.content hkey
  have hvalues : ∀ entry ∈ replacement, (entry.2.value? record.params row).isSome := by
    simp only [replacement, List.forall_mem_cons, hnext]
    exact ⟨rfl, rfl, rfl, rfl, rfl, rfl, rfl, fun _ h => by cases h⟩
  obtain ⟨row', hassign, hkept, hset⟩ :=
    Row.exists_assign record.params row replacement hvalues (by decide)
  exact ⟨row', hassign, {
    user := (hkept _ (by decide)).trans (huser ▸ shows.user)
    content := (hkept _ (by decide)).trans (hcontent ▸ shows.content)
    scope := (hkept _ (by decide)).trans (hscope ▸ shows.scope)
    hive := (hkept _ (by decide)).trans (hhive ▸ shows.hive)
    upVoted := hset .upVoted (.param 5) (by decide) (by rw [shows.upVoted]; rfl)
    downVoted := hset .downVoted (.param 6) (by decide) (by rw [shows.downVoted]; rfl)
    saved := hset .saved (.param 7) (by decide) (by rw [shows.saved]; rfl)
    reported := hset .reported (.param 8) (by decide) (by rw [shows.reported]; rfl)
    votedAt := hset .votedAt (.param 9) (by decide) (by rw [shows.votedAt]; rfl)
    reason := hset .reportedReason (.param 10) (by decide) (by rw [shows.reason]; rfl)
    version := (hset .version _ (by decide) (by rw [shows.version]; rfl)).trans hnext }⟩

/-- A record with the stored version is replaced. -/
theorem realizes_replaceRecord_of_eq (holds : database.Holds store)
    (writable : record.Writable store) {stored : EngagementRecord}
    (hstored : store.record? record.key = some stored)
    (hversion : stored.version = record.version) :
    (Query.mk replaceRecord record.params).Realizes writtenRecord database
      (.ok (record.written, store.withRecord record)) := by
  obtain ⟨hscope, hhive⟩ := writable.placed stored hstored
  have heq : ∀ row ∈ database.engagementRecords, ∀ entry,
      EngagementRecord.ofRow row = .ok entry → entry.key = record.key → entry = stored := by
    intro row hrow entry hread hkey
    have hentry := holds.records.found hrow hread
    rw [hkey, hstored] at hentry
    exact (Option.some.inj hentry).symm
  -- the row of the key is picked, since the record stays where it is stored
  have picks : ∀ row ∈ database.engagementRecords, ∀ entry,
      EngagementRecord.ofRow row = .ok entry →
      (replaceable.holds record.params row = true ↔ entry.key = record.key) := by
    intro row hrow entry hread
    rw [holds_replaceable_iff (EngagementRecord.ofRow_eq_ok_iff.1 hread)]
    refine ⟨fun h => h.1, fun hkey => ?_⟩
    obtain rfl := heq row hrow entry hread hkey
    exact ⟨hkey, hversion, hscope, hhive⟩
  have assigns : ∀ row ∈ database.engagementRecords, ∀ entry,
      EngagementRecord.ofRow row = .ok entry → entry.key = record.key →
      ∃ row' : Row, row.assign record.params replacement = some row' ∧
        Relation.engagementRecords.admits row' = true ∧
        EngagementRecord.ofRow row' = .ok record.written ∧ record.written.key = record.key := by
    intro row hrow entry hread hkey
    obtain rfl := heq row hrow entry hread hkey
    obtain ⟨row', hassign, hshows⟩ := exists_assign_replacement
      (EngagementRecord.ofRow_eq_ok_iff.1 hread) hkey hversion hscope hhive
      (writable.counted entry hstored hversion)
    exact ⟨row', hassign, hshows.admits_iff.2 writable.oneVote,
      EngagementRecord.ofRow_eq_ok_iff.2 hshows, rfl⟩
  have hlookup : ∀ key', (store.withRecord record).record? key' =
      if key' = record.key then (store.record? record.key).map fun _ => record.written
      else store.record? key' := by
    rw [hstored]
    exact store.record?_withRecord record
  obtain ⟨answer, rows, hrun, htable, hadmitted, -, hsome⟩ :=
    Query.run_update_key .engagementRecords replacement replaceable
      Relation.engagementRecords.columns record.params (fun _ => record.written) holds.records
      (holds.admitted .engagementRecords) picks assigns hlookup
  obtain ⟨row', hread, hrows⟩ := hsome stored hstored rfl
  refine ⟨answer, _, hrun, ?_, fun value store' heq => ?_⟩
  · rw [writtenRecord, firstRow, hrows]
    exact EngagementRecord.ofRow_eq_ok_iff.2 (EngagementRecord.ofRow_eq_ok_iff.1 hread).project
  · cases heq
    refine ⟨holds.items, htable, ?_⟩
    rintro (_ | _)
    · exact holds.admitted .contentItems
    · exact hadmitted

/-- A record with another version than the stored one replaces nothing. -/
theorem realizes_replaceRecord_of_ne (holds : database.Holds store)
    (hversion : store.storedVersion record.key ≠ record.version) :
    (Query.mk replaceRecord record.params).Realizes writtenRecord database
      (.error .versionConflict : Except StoreError (EngagementRecord × StoreState)) := by
  have hnever : ∀ row ∈ database.engagementRecords,
      ¬replaceable.holds record.params row = true := by
    intro row hrow hholds
    obtain ⟨entry, hread, hentry⟩ := holds.records.sound row hrow
    obtain ⟨hkey, hsame, -⟩ :=
      (holds_replaceable_iff (EngagementRecord.ofRow_eq_ok_iff.1 hread)).1 hholds
    rw [StoreState.storedVersion, ← hkey, hentry] at hversion
    exact hversion hsame
  have hfilter : (database.rows .engagementRecords).filter
      (replaceable.holds record.params) = [] := List.filter_eq_nil_iff.2 hnever
  refine ⟨_, _, Query.run_update .engagementRecords replacement replaceable
    Relation.engagementRecords.columns record.params id
    (fun row hrow h => absurd h (hnever row hrow))
    (fun row hrow h => absurd h (hnever row hrow)), ?_⟩
  rw [hfilter]
  exact ⟨rfl, fun _ _ h => by cases h⟩

/-- Replacing a record. -/
theorem realizes_replaceRecord (holds : database.Holds store) (writable : record.Writable store)
    (isStored : 0 < record.version) :
    (Query.mk replaceRecord record.params).Realizes writtenRecord database
      (store.writeRecord record) := by
  rw [StoreState.writeRecord]
  by_cases hversion : store.storedVersion record.key = record.version
  · rw [if_pos hversion]
    cases hstored : store.record? record.key with
    | some stored =>
      rw [StoreState.storedVersion, hstored] at hversion
      exact realizes_replaceRecord_of_eq holds writable hstored hversion
    | none =>
      rw [StoreState.storedVersion, hstored] at hversion
      rw [← hversion] at isStored
      exact absurd isStored (by decide)
  · rw [if_neg hversion]
    exact realizes_replaceRecord_of_ne holds hversion

/-- A record whose writes cannot be counted any more is not replaced: the database refuses the
statement, where the store in memory would let the version run over. -/
theorem run_replaceRecord_of_overflow (holds : database.Holds store) {stored : EngagementRecord}
    (hstored : store.record? record.key = some stored) (hversion : stored.version = record.version)
    (hscope : stored.scope = record.scope) (hhive : stored.hive = record.hive)
    (overflow : ¬IsBigint (record.version.toInt + 1)) :
    Query.run ⟨replaceRecord, record.params⟩ database = (.error .noValue, database) := by
  obtain ⟨hkey, row, hrow, hread⟩ := holds.records.complete record.key stored hstored
  have shows := EngagementRecord.ofRow_eq_ok_iff.1 hread
  have hholds := (holds_replaceable_iff shows).2 ⟨hkey, hversion, hscope, hhive⟩
  have hnext : (Term.add (.column .version) (.integer 1)).value? record.params row = none := by
    rw [Term.value?, Term.value?, shows.version, hversion]
    exact Value.add?_of_not_isBigint overflow
  have hassign : row.assign record.params replacement = none := by
    simp only [Row.assign, replacement, List.foldlM_cons, hnext]
    rfl
  have hupdate : updateRows record.params replacement replaceable
      (database.rows .engagementRecords) = none := updateRows_eq_none hrow hholds hassign
  rw [replaceRecord_eq]
  simp only [Query.run, hupdate]

/-- The values of the row that is inserted for a record. -/
theorem mapM_addRecord (fits : IsBigint (record.version.toInt + 1)) :
    (paramsUpTo 10 ++ [Term.add (.param 11) (.integer 1)]).mapM (Term.value? record.params []) =
      some record.written.params := by
  have hnext : (Term.add (.param 11) (.integer 1)).value? record.params [] =
      some (.bigint (record.version + 1)) := by
    rw [Term.value?, ← add_one_of_isBigint fits]
    exact Value.add?_bigint fits
  have hterms : paramsUpTo 10 ++ [Term.add (.param 11) (.integer 1)] =
      [.param 1, .param 2, .param 3, .param 4, .param 5, .param 6, .param 7, .param 8, .param 9,
        .param 10, .add (.param 11) (.integer 1)] := rfl
  rw [hterms]
  simp only [List.mapM_cons, hnext]
  rfl

theorem agreesOn_primaryKey_iff {a b : Row} {x y : EngagementRecord} (hx : a.ShowsRecord x)
    (hy : b.ShowsRecord y) :
    a.agreesOn Relation.engagementRecords.primaryKey b = true ↔ x.key = y.key := by
  obtain ⟨⟨user⟩, ⟨content⟩, _⟩ := x
  obtain ⟨⟨user'⟩, ⟨content'⟩, _⟩ := y
  simp [Row.agreesOn, Relation.primaryKey, hx.user, hx.content, hy.user, hy.content,
    EngagementRecord.key]

/-- Inserting a record. -/
theorem realizes_addRecord (holds : database.Holds store)
    (versions : ∀ key stored, store.record? key = some stored → 0 < stored.version)
    (oneVote : ¬(record.upVoted = true ∧ record.downVoted = true)) (hversion : record.version = 0) :
    (Query.mk addRecord record.params).Realizes writtenRecord database
      (store.writeRecord record) := by
  let row : Row := Relation.engagementRecords.columns.zip record.written.params
  have hshows : row.ShowsRecord record.written := .of_params record.written
  have hadmits : Relation.engagementRecords.admits row = true := hshows.admits_iff.2 oneVote
  have hfits : IsBigint (record.version.toInt + 1) := by
    rw [hversion]
    exact ⟨by decide, by decide⟩
  have hagrees : ∀ other ∈ database.engagementRecords, ∀ entry,
      EngagementRecord.ofRow other = .ok entry →
      (row.agreesOn Relation.engagementRecords.primaryKey other = true ↔
        record.written.key = entry.key) :=
    fun other _ entry hread =>
      agreesOn_primaryKey_iff hshows (EngagementRecord.ofRow_eq_ok_iff.1 hread)
  have hrun := Query.run_insert .engagementRecords Relation.engagementRecords.columns record.params
    database (mapM_addRecord hfits) hadmits
  rw [StoreState.writeRecord, StoreState.storedVersion]
  cases hstored : store.record? record.key with
  | some stored =>
    obtain ⟨hkey, other, hother, hread⟩ := holds.records.complete record.key stored hstored
    have hconflict : (database.rows .engagementRecords).any
        (row.agreesOn Relation.engagementRecords.primaryKey) = true :=
      List.any_eq_true.2 ⟨other, hother, (hagrees other hother stored hread).2 hkey.symm⟩
    have hpos := versions record.key stored hstored
    rw [if_pos hconflict] at hrun
    refine ⟨_, _, hrun, ?_⟩
    rw [if_neg]
    · exact ⟨rfl, fun _ _ h => by cases h⟩
    · intro (hsame : stored.version = record.version)
      rw [hsame, hversion] at hpos
      exact absurd hpos (by decide)
  | none =>
    have hfree : ¬(database.rows .engagementRecords).any
        (row.agreesOn Relation.engagementRecords.primaryKey) = true := by
      rw [List.any_eq_true]
      rintro ⟨other, hother, hconflict⟩
      obtain ⟨entry, hread, hentry⟩ := holds.records.sound other hother
      have hkey : record.key = entry.key := (hagrees other hother entry hread).1 hconflict
      rw [← hkey, hstored] at hentry
      cases hentry
    rw [if_neg hfree] at hrun
    rw [if_pos hversion.symm]
    refine ⟨_, _, hrun, EngagementRecord.ofRow_eq_ok_iff.2 hshows.project,
      fun value store' heq => ?_⟩
    cases heq
    refine ⟨holds.items, holds.records.insert (EngagementRecord.ofRow_eq_ok_iff.2 hshows) hstored
      (store.record?_withRecord record), ?_⟩
    rintro (_ | _)
    · exact holds.admitted .contentItems
    · exact List.forall_mem_append.2
        ⟨holds.admitted .engagementRecords, List.forall_mem_singleton.2 hadmits⟩

/-- Writing a record. -/
theorem realizes_writeRecord (holds : database.Holds store)
    (versions : ∀ key stored, store.record? key = some stored → 0 < stored.version)
    (writable : record.Writable store) :
    (writeRecord record).Realizes writtenRecord database (store.writeRecord record) := by
  by_cases hstored : 0 < record.version
  · have hquery : writeRecord record = ⟨replaceRecord, record.params⟩ := by
      rw [writeRecord, EngagementRecord.isStored, decide_eq_true hstored]
      rfl
    rw [hquery]
    exact realizes_replaceRecord holds writable hstored
  · have hversion : record.version = 0 :=
      Int64.le_antisymm (Int64.not_lt.1 hstored) writable.version_nonneg
    have hquery : writeRecord record = ⟨addRecord, record.params⟩ := by
      rw [writeRecord, EngagementRecord.isStored, decide_eq_false hstored]
      rfl
    rw [hquery]
    exact realizes_addRecord holds versions writable.oneVote hversion

theorem lines_eq {α : Type} (keys : List α) (f g : α → Value) :
    ((List.range (keys.map f).length).map fun line =>
      [keys.map f, keys.map g].filterMap (·[line]?)) = keys.map fun key => [f key, g key] := by
  refine List.ext_getElem (by simp) fun i hi hkeys => ?_
  have hlt : i < keys.length := by simpa using hkeys
  simp [hlt]

/-- The row of a record is removed if its key is one of the keys. -/
theorem holds_deleteEngagements {row : Row} {stored : EngagementRecord}
    (shows : row.ShowsRecord stored) (keys : List EngagementKey) :
    (Condition.inUnnest [.column .userId, .column .contentId]
      [.typed (.param 1) .texts, .typed (.param 2) .uuids]).holds
        (deleteEngagements keys).params row = decide (stored.key ∈ keys) := by
  have htruth : (Condition.inUnnest [.column .userId, .column .contentId]
      [.typed (.param 1) .texts, .typed (.param 2) .uuids]).truth
        (deleteEngagements keys).params row =
          some ((keys.map fun key => [Value.text key.user.name, .uuid key.content.uuid]).contains
            [.text stored.user.name, .uuid stored.content.uuid]) := by
    rw [← lines_eq]
    simp [Condition.truth, Term.value?, shows.user, shows.content, deleteEngagements,
      Value.elements?, Function.comp_def]
  rw [Condition.holds_of_truth htruth, List.contains_eq_mem, decide_eq_decide, List.mem_map]
  constructor
  · rintro ⟨⟨⟨user⟩, ⟨content⟩⟩, hkey, heq⟩
    simp only [List.cons.injEq, Value.text.injEq, Value.uuid.injEq, and_true] at heq
    obtain ⟨rfl, rfl⟩ := heq
    exact hkey
  · exact fun hkey => ⟨stored.key, hkey, rfl⟩

/-- Removing records. -/
theorem realizes_deleteEngagements (holds : database.Holds store) (keys : List EngagementKey) :
    (deleteEngagements keys).Realizes (fun _ => .ok ([] : List EngagementKey)) database
      (.ok ([], store.removeRecords keys)) := by
  refine ⟨_, _, rfl, rfl, fun value store' heq => ?_⟩
  cases heq
  refine ⟨holds.items, holds.records.filter (fun key => !decide (key ∈ keys))
    (fun row _ entry hread => ?_) fun key' => ?_, ?_⟩
  · rw [← holds_deleteEngagements (EngagementRecord.ofRow_eq_ok_iff.1 hread) keys]
  · rw [StoreState.record?_removeRecords]
    by_cases hkey : key' ∈ keys <;> simp [hkey]
  · rintro (_ | _)
    · exact holds.admitted .contentItems
    · exact fun row hrow => holds.admitted .engagementRecords row (List.mem_filter.1 hrow).1

end Postgres

end HiveForum
