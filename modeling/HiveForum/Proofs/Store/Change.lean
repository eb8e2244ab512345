import HiveForum.Store.State

/-!
# What a request may change

Each request that is carried out changes the store in one way, if it changes it at all. Whatever is
to be kept by all requests is checked for these few changes.

## Main definitions

* `Request.record?`, `Request.stored?`: the record that a request asks to write, and has written.
* `Request.item?`: where a request stores, edits or removes an item.
* `Request.Edits`: how a request edits an item.
* `StoreState.Change`: the changes that a request may make.
* `StoreState.Compact`: no scope is kept without items.

## Main results

* `StoreState.change_of_perform`: a request that is carried out makes one of its changes.
* `StoreState.Change.item?_eq`, `StoreState.Change.record?_eq`: what a change leaves as it is.
* `StoreState.written_of_perform`: it stores the record that it asks to write.
* `StoreState.ext_of_lookups`: a compact store is determined by its lookups.
-/

namespace HiveForum

/-- Whether a request only reads. -/
def Request.isRead : Request → Bool
  | .ping | .getContent _ | .queryContent _ | .getEngagement _ _ | .lookupEngagement _ _
  | .queryEngagement _ => true
  | _ => false

/-- The record that a request asks to write. -/
def Request.record? : Request → Option EngagementRecord
  | .putEngagement record => some record
  | .commitVote record _ _ => some record
  | .commitReport record _ _ => some record
  | _ => none

/-- The record that has been stored if a request is answered. -/
def Request.stored? : (request : Request) → request.Answer → Option EngagementRecord
  | .putEngagement _, record => some record
  | .commitVote _ _ _, (record, _) => some record
  | .commitReport _ _ _, (record, _) => some record
  | _, _ => none

/-- Where a request stores, edits or removes an item. -/
def Request.item? : Request → Option ContentKey
  | .putContent item => some item.key
  | .adjustCounts key _ | .touchActivity key _ | .markReviewed key | .setPinned key _
  | .deleteContent key | .commitReport _ key _ | .commitVote _ key _ => some key
  | _ => none

/-- The item stored under a key is edited. -/
inductive Request.Edits : Request → ContentKey → ContentItem → ContentItem → Prop where
  | counts (key : ContentKey) (change : CountChange) (item : ContentItem) :
      Edits (.adjustCounts key change) key item (change.applyTo item)
  | touch (key : ContentKey) (time : Int64) (item : ContentItem) :
      Edits (.touchActivity key time) key item
        { item with lastActivityAt := max item.lastActivityAt time }
  | review (key : ContentKey) (item : ContentItem) :
      Edits (.markReviewed key) key item { item with reviewed := true, obfuscated := false }
  | pin (key : ContentKey) (pinned : Bool) (item : ContentItem) :
      Edits (.setPinned key pinned) key item { item with pinned := pinned }

/-- The record as it is stored by a write: its version counts one more write. -/
def EngagementRecord.written (record : EngagementRecord) : EngagementRecord :=
  { record with version := record.version + 1 }

theorem Int64.toInt_add_one {n : Int64} (hn : 0 ≤ n.toInt) (h : 0 < (n + 1).toInt) :
    (n + 1).toInt = n.toInt + 1 := by
  have hlt := n.toInt_lt
  rw [Int64.toInt_add, Int64.toInt_one] at h ⊢
  have hmax : n.toInt ≠ 9223372036854775807 := by
    intro heq
    rw [heq] at h
    exact absurd h (by decide)
  apply Int.bmod_eq_of_le <;> omega

namespace StoreState

/-- The store with a record written. -/
def withRecord (state : StoreState) (record : EngagementRecord) : StoreState :=
  { state with engagement := state.engagement.insert record.key record.written }

/-! ### Lookups after a change -/

@[simp]
theorem record?_putItem (state : StoreState) (key : ContentKey) (item : ContentItem)
    (key' : EngagementKey) : (state.putItem key item).record? key' = state.record? key' := rfl

@[simp]
theorem record?_removeItem (state : StoreState) (key : ContentKey) (key' : EngagementKey) :
    (state.removeItem key).record? key' = state.record? key' := by
  rw [removeItem, record?]
  split
  · rfl
  · dsimp only
    split <;> rfl

@[simp]
theorem item?_withRecord (state : StoreState) (record : EngagementRecord) (key : ContentKey) :
    (state.withRecord record).item? key = state.item? key := rfl

theorem record?_withRecord (state : StoreState) (record : EngagementRecord)
    (key : EngagementKey) :
    (state.withRecord record).record? key =
      if key = record.key then some record.written else state.record? key :=
  Table.get?_insert state.engagement record.key key record.written

theorem record?_removeRecords (state : StoreState) (keys : List EngagementKey)
    (key : EngagementKey) :
    (state.removeRecords keys).record? key = if key ∈ keys then none else state.record? key := by
  have herase : ∀ (table : Table EngagementKey EngagementRecord),
      (keys.foldl Table.erase table).get? key = if key ∈ keys then none else table.get? key := by
    induction keys with
    | nil => simp
    | cons first keys ih =>
      intro table
      rw [List.foldl_cons, ih, Table.get?_erase]
      by_cases hfirst : key = first
      · simp [hfirst]
      · simp [hfirst]
  exact herase state.engagement

theorem storedVersion_of_record? {state : StoreState} {key : EngagementKey}
    {record : EngagementRecord} (h : state.record? key = some record) :
    state.storedVersion key = record.version := by
  simp only [storedVersion, h]

theorem writeRecord_eq_ok_iff {state later : StoreState} {record stored : EngagementRecord} :
    state.writeRecord record = .ok (stored, later) ↔
      state.storedVersion record.key = record.version ∧ stored = record.written ∧
        later = state.withRecord record := by
  rw [writeRecord]
  split
  · rename_i h
    simp only [Except.ok.injEq, Prod.mk.injEq, h, true_and]
    exact and_congr eq_comm eq_comm
  · rename_i h
    simp [h]

/-- A write gives a record a later version, as long as the number of its writes does not run over,
and leaves the other records as they are. -/
theorem storedVersion_withRecord {state : StoreState} {record : EngagementRecord}
    (current : state.storedVersion record.key = record.version)
    (nonneg : 0 ≤ (state.storedVersion record.key).toInt)
    (positive : 0 < record.written.version.toInt) (key : EngagementKey) :
    (state.storedVersion key).toInt ≤ ((state.withRecord record).storedVersion key).toInt ∧
      (state.storedVersion key = (state.withRecord record).storedVersion key →
        state.record? key = (state.withRecord record).record? key) := by
  by_cases heq : key = record.key
  · have hrecord : (state.withRecord record).record? key = some record.written := by
      rw [record?_withRecord, if_pos heq]
    have hstored : (state.withRecord record).storedVersion key = record.version + 1 :=
      storedVersion_of_record? hrecord
    rw [current] at nonneg
    rw [hstored, heq, current, ← Int64.toInt_inj, Int64.toInt_add_one nonneg positive]
    omega
  · have hsame : (state.withRecord record).record? key = state.record? key := by
      rw [record?_withRecord, if_neg heq]
    simp [storedVersion, hsame]

/-! ### Changes -/

/-- The changes that a request may make. -/
inductive Change (state : StoreState) : Request → StoreState → Prop where
  | read {request : Request} (h : request.isRead = true) : Change state request state
  | put {item : ContentItem} (vacant : state.item? item.key = .none) :
      Change state (.putContent item) (state.putItem item.key item)
  | edit {request : Request} {key : ContentKey} {item item' : ContentItem}
      (edits : request.Edits key item item') (found : state.item? key = some item) :
      Change state request (state.putItem key item')
  | remove {key : ContentKey} : Change state (.deleteContent key) (state.removeItem key)
  | write {record : EngagementRecord}
      (current : state.storedVersion record.key = record.version) :
      Change state (.putEngagement record) (state.withRecord record)
  | vote {record : EngagementRecord} {key : ContentKey} {change : CountChange}
      {item : ContentItem} (found : state.item? key = some item)
      (current : state.storedVersion record.key = record.version) :
      Change state (.commitVote record key change)
        ((state.withRecord record).putItem key (change.applyTo item))
  | report {record : EngagementRecord} {key : ContentKey} {outcome : ReportOutcome}
      {item : ContentItem} (found : state.item? key = some item)
      (open_ : outcome = .added → item.reviewed = false)
      (current : state.storedVersion record.key = record.version) :
      Change state (.commitReport record key outcome)
        ((state.withRecord record).putItem key (outcome.applyTo item))
  | erase {keys done : List EngagementKey} (part : done ⊆ keys) :
      Change state (.deleteEngagements keys) (state.removeRecords done)

theorem updateItem_eq_ok {state later : StoreState} {key : ContentKey} {item' : ContentItem}
    {edit : ContentItem → ContentItem} (h : state.updateItem key edit = .ok (item', later)) :
    ∃ item, state.item? key = some item ∧ item' = edit item ∧
      later = state.putItem key (edit item) := by
  rw [updateItem] at h
  split at h
  · cases h
  · rename_i item hitem
    cases h
    exact ⟨item, hitem, rfl, rfl⟩

theorem commitVote_eq_ok {state later : StoreState} {record : EngagementRecord} {key : ContentKey}
    {change : CountChange} {answer : EngagementRecord × ContentItem}
    (h : state.commitVote record key change = .ok (answer, later)) :
    ∃ item, state.item? key = some item ∧ state.storedVersion record.key = record.version ∧
      answer = (record.written, change.applyTo item) ∧
      later = (state.withRecord record).putItem key (change.applyTo item) := by
  rw [commitVote] at h
  split at h
  · cases h
  · rename_i item hitem
    split at h
    · cases h
    · rename_i hwrite
      cases h
      obtain ⟨current, rfl, rfl⟩ := writeRecord_eq_ok_iff.1 hwrite
      exact ⟨item, hitem, current, rfl, rfl⟩

theorem commitReport_eq_ok {state later : StoreState} {record : EngagementRecord}
    {key : ContentKey} {outcome : ReportOutcome} {answer : EngagementRecord × ContentItem}
    (h : state.commitReport record key outcome = .ok (answer, later)) :
    ∃ item, state.item? key = some item ∧ (outcome = .added → item.reviewed = false) ∧
      state.storedVersion record.key = record.version ∧
      answer = (record.written, outcome.applyTo item) ∧
      later = (state.withRecord record).putItem key (outcome.applyTo item) := by
  rw [commitReport] at h
  split at h
  · cases h
  · rename_i item hitem
    split at h
    · cases h
    · rename_i hopen
      split at h
      · cases h
      · rename_i hwrite
        cases h
        obtain ⟨current, rfl, rfl⟩ := writeRecord_eq_ok_iff.1 hwrite
        exact ⟨item, hitem, fun hadded => by simpa [hadded] using hopen, current, rfl, rfl⟩

theorem Change.eq_of_isRead {state later : StoreState} {request : Request}
    (change : state.Change request later) (h : request.isRead = true) : later = state := by
  cases change with
  | read => rfl
  | edit edits => cases edits <;> cases h
  | _ => cases h

/-- A change leaves the items under all keys but that of its request as they are. -/
theorem Change.item?_eq {state later : StoreState} {request : Request}
    (change : state.Change request later) {key : ContentKey} (h : request.item? ≠ some key) :
    later.item? key = state.item? key := by
  have other : ∀ {key' : ContentKey}, request.item? = some key' → key ≠ key' := by
    rintro key' hkey rfl
    exact h hkey
  cases change with
  | read => rfl
  | put => rw [item?_putItem, if_neg (other rfl)]
  | edit edits => rw [item?_putItem, if_neg (other (by cases edits <;> rfl))]
  | remove => rw [item?_removeItem, if_neg (other rfl)]
  | write => rfl
  | vote => rw [item?_putItem, if_neg (other rfl), item?_withRecord]
  | report => rw [item?_putItem, if_neg (other rfl), item?_withRecord]
  | erase => rfl

/-- A record that is stored after a change was stored before, or the request asked to write it. -/
theorem Change.record?_origin {state later : StoreState} {request : Request}
    (change : state.Change request later) {key : EngagementKey} {record : EngagementRecord}
    (h : later.record? key = some record) :
    state.record? key = some record ∨
      ∃ asked, request.record? = some asked ∧ key = asked.key ∧ record = asked.written := by
  have written : ∀ {asked : EngagementRecord}, request.record? = some asked →
      (state.withRecord asked).record? key = some record →
      state.record? key = some record ∨
        ∃ asked, request.record? = some asked ∧ key = asked.key ∧ record = asked.written := by
    intro asked hasked hrecord
    rw [record?_withRecord] at hrecord
    split at hrecord
    · rename_i hkey
      exact .inr ⟨asked, hasked, hkey, (Option.some.inj hrecord).symm⟩
    · exact .inl hrecord
  cases change with
  | read => exact .inl h
  | put => exact .inl h
  | edit => exact .inl h
  | remove => exact .inl (by simpa using h)
  | write => exact written rfl h
  | vote => exact written rfl h
  | report => exact written rfl h
  | erase =>
    rw [record?_removeRecords] at h
    split at h
    · cases h
    · exact .inl h

/-- A change leaves all records as they are but the one that its request asks to write, and those
that it asks to remove. -/
theorem Change.record?_eq {state later : StoreState} {request : Request}
    (change : state.Change request later) {key : EngagementKey}
    (unwritten : ∀ record, request.record? = some record → key ≠ record.key)
    (unremoved : ∀ keys, request = .deleteEngagements keys → key ∉ keys) :
    later.record? key = state.record? key := by
  cases change with
  | read => rfl
  | put => rfl
  | edit => rfl
  | remove => rw [record?_removeItem]
  | write => rw [record?_withRecord, if_neg (unwritten _ rfl)]
  | vote => rw [record?_putItem, record?_withRecord, if_neg (unwritten _ rfl)]
  | report => rw [record?_putItem, record?_withRecord, if_neg (unwritten _ rfl)]
  | erase part =>
    rw [record?_removeRecords, if_neg fun hmem => unremoved _ rfl (part hmem)]

/-- A request that is carried out makes one of its changes. -/
theorem change_of_perform {limits : QueryLimits} {state later : StoreState} {request : Request}
    {answer : request.Answer} (h : state.perform limits request = .ok (answer, later)) :
    state.Change request later := by
  cases request with
  | ping => cases h; exact .read rfl
  | putContent item =>
    simp only [perform] at h
    split at h
    · cases h
    · rename_i hvacant
      cases h
      exact .put (by simpa using hvacant)
  | getContent key =>
    simp only [perform] at h
    split at h
    · cases h
    · cases h; exact .read rfl
  | queryContent query =>
    simp only [perform] at h
    cases hpage : state.queryContent limits query with
    | error error => rw [hpage] at h; cases h
    | ok page => rw [hpage] at h; cases h; exact .read rfl
  | adjustCounts key change =>
    obtain ⟨item, hitem, -, rfl⟩ := updateItem_eq_ok h
    exact .edit (.counts key change item) hitem
  | touchActivity key time =>
    simp only [perform] at h
    cases hupdate : state.updateItem key fun item =>
      { item with lastActivityAt := max item.lastActivityAt time } with
    | error error => rw [hupdate] at h; cases h
    | ok result =>
      rw [hupdate] at h
      cases h
      obtain ⟨item, hitem, -, hlater⟩ := updateItem_eq_ok hupdate
      rw [hlater]
      exact .edit (.touch key time item) hitem
  | markReviewed key =>
    obtain ⟨item, hitem, -, rfl⟩ := updateItem_eq_ok h
    exact .edit (.review key item) hitem
  | setPinned key pinned =>
    obtain ⟨item, hitem, -, rfl⟩ := updateItem_eq_ok h
    exact .edit (.pin key pinned item) hitem
  | deleteContent key =>
    simp only [perform] at h
    split at h
    · cases h
    · cases h; exact .remove
  | getEngagement user content =>
    simp only [perform] at h
    split at h
    · cases h
    · cases h; exact .read rfl
  | lookupEngagement user contents => cases h; exact .read rfl
  | putEngagement record =>
    obtain ⟨current, -, rfl⟩ := writeRecord_eq_ok_iff.1 h
    exact .write current
  | commitReport record key outcome =>
    obtain ⟨item, hitem, hopen, current, -, rfl⟩ := commitReport_eq_ok h
    exact .report hitem hopen current
  | commitVote record key change =>
    obtain ⟨item, hitem, current, -, rfl⟩ := commitVote_eq_ok h
    exact .vote hitem current
  | queryEngagement query =>
    simp only [perform] at h
    cases hpage : state.queryEngagement limits query with
    | error error => rw [hpage] at h; cases h
    | ok page => rw [hpage] at h; cases h; exact .read rfl
  | deleteEngagements keys =>
    simp only [perform] at h
    split at h
    · cases h
    · cases h
      exact .erase (List.take_subset _ _)

/-- A request that asks to write a record and is carried out stores it with its next version, and
touches no other record. -/
theorem written_of_perform {limits : QueryLimits} {state later : StoreState} {request : Request}
    {answer : request.Answer} {record : EngagementRecord} (hrecord : request.record? = some record)
    (h : state.perform limits request = .ok (answer, later)) :
    request.stored? answer = some record.written ∧
      state.storedVersion record.key = record.version ∧
      ∀ key, later.record? key = (state.withRecord record).record? key := by
  cases request <;> cases hrecord
  · obtain ⟨current, rfl, rfl⟩ := writeRecord_eq_ok_iff.1 h
    exact ⟨rfl, current, fun _ => rfl⟩
  · obtain ⟨item, -, -, current, rfl, rfl⟩ := commitReport_eq_ok h
    exact ⟨rfl, current, fun _ => rfl⟩
  · obtain ⟨item, -, current, rfl, rfl⟩ := commitVote_eq_ok h
    exact ⟨rfl, current, fun _ => rfl⟩

/-! ### Compact stores -/

/-- No scope is kept without items. -/
def Compact (state : StoreState) : Prop :=
  ∀ scope items, state.content.get? scope = some items → items.isEmpty = false

private theorem exists_get?_of_isEmpty_eq_false {κ ν : Type} [Ord κ] [Std.LawfulEqOrd κ]
    {table : Table κ ν} (h : table.isEmpty = false) : ∃ key value, table.get? key = some value := by
  cases hentries : table.entries with
  | nil => simp [Table.isEmpty, hentries] at h
  | cons entry rest =>
    refine ⟨entry.1, entry.2, Table.get?_eq_some_iff.2 ?_⟩
    rw [hentries]
    exact List.mem_cons_self

private theorem isEmpty_insert {κ ν : Type} [Ord κ] [Std.TransOrd κ] [Std.LawfulEqOrd κ]
    [DecidableEq κ] (table : Table κ ν) (key : κ) (value : ν) :
    (table.insert key value).isEmpty = false := by
  cases hentries : (table.insert key value).entries with
  | cons entry rest => simp [Table.isEmpty, hentries]
  | nil =>
    have hget : (table.insert key value).get? key = some value := by simp [Table.get?_insert]
    rw [Table.get?_eq_some_iff, hentries] at hget
    cases hget

theorem Compact.putItem {state : StoreState} (h : state.Compact) (key : ContentKey)
    (item : ContentItem) : (state.putItem key item).Compact := by
  intro scope items hitems
  simp only [StoreState.putItem, Table.get?_insert] at hitems
  split at hitems
  · cases hitems
    exact isEmpty_insert _ _ _
  · exact h scope items hitems

/-- A store remains compact when an item is removed. -/
theorem Compact.removeItem {state : StoreState} (h : state.Compact) (key : ContentKey) :
    (state.removeItem key).Compact := by
  intro scope items hitems
  rw [StoreState.removeItem] at hitems
  split at hitems
  · exact h scope items hitems
  · rename_i stored hstored
    dsimp only at hitems
    split at hitems
    · simp only [Table.get?_erase] at hitems
      split at hitems
      · cases hitems
      · exact h scope items hitems
    · rename_i hleft
      simp only [Table.get?_insert] at hitems
      split at hitems
      · cases hitems
        simpa using hleft
      · exact h scope items hitems

/-- A compact store is determined by its lookups. -/
theorem ext_of_lookups {state later : StoreState} (hstate : state.Compact) (hlater : later.Compact)
    (items : ∀ key, state.item? key = later.item? key)
    (records : ∀ key, state.record? key = later.record? key) : state = later := by
  have found : ∀ {s t : StoreState}, s.Compact → (∀ key, s.item? key = t.item? key) →
      ∀ scope own, s.content.get? scope = some own → t.content.get? scope = some own := by
    intro s t hs h scope own hown
    obtain ⟨id, item, hitem⟩ := exists_get?_of_isEmpty_eq_false (hs scope own hown)
    have hid := h ⟨scope, id⟩
    simp only [item?, hown, Option.bind_some, hitem] at hid
    cases hother : t.content.get? scope with
    | none => simp [hother] at hid
    | some other =>
      refine congrArg some (Table.ext_get? fun key => ?_)
      simpa [item?, hown, hother] using (h ⟨scope, key⟩).symm
  have hcontent : state.content = later.content := by
    refine Table.ext_get? fun scope => Option.ext fun own => ⟨?_, ?_⟩
    · exact found hstate items scope own
    · exact found hlater (fun key => (items key).symm) scope own
  have hengagement : state.engagement = later.engagement := Table.ext_get? records
  cases state
  cases later
  cases hcontent
  cases hengagement
  rfl

end StoreState

end HiveForum
