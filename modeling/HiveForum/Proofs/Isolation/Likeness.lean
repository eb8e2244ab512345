import HiveForum.Proofs.Forum.Hosts
import HiveForum.Proofs.Isolation.Oversight
import HiveForum.Proofs.Store.Census

/-!
# Stores that show the same of a hive

What a store lists of a scope, of an item or of a user follows from its lookups. Two stores that
hold the same under the identifiers of a hive therefore reply in the same way to whatever concerns
the hive only, but for what belongs to other hives, and hold the same of the hive afterwards.

## Main definitions

* `StoreState.SameFor`: two stores hold the same under the identifiers of a hive.
* `StoreState.Parallel`: two results of a request that differ in other hives only.

## Main results

* `StoreState.recordsAfter_congr`, `StoreState.get?_lookupEngagement`: what is read follows from the
  lookups.
* `StoreState.sameFor_iff`: two stores hold the same if they have the same items and records of the
  hive.
* `StoreState.SameFor.reply`: the replies to a request that concerns the hive only.
-/

namespace HiveForum

namespace StoreState

variable {store other : StoreState}

/-! ### Lookups -/

/-- The records of an item follow from the lookups on it. -/
theorem recordsAfter_congr {content : ContentId}
    (h : ∀ key, key.content = content → store.record? key = other.record? key)
    (startAfter : Option UserId) :
    store.recordsAfter content startAfter = other.recordsAfter content startAfter := by
  rw [recordsAfter_eq_values, recordsAfter_eq_values]
  refine congrArg Table.values (Table.ext_get? fun key => ?_)
  rw [Table.get?_filter, Table.get?_filter]
  by_cases hkey : key.content = content
  · exact congrArg (Option.filter _) (h key hkey)
  · simp [hkey]

/-- A user is shown the record of each item that was asked for. -/
theorem get?_lookupEngagement (store : StoreState) (user : UserId) (contents : List ContentId)
    (content : ContentId) : (store.lookupEngagement user contents).get? content =
      if content ∈ contents then store.record? ⟨user, content⟩ else none := by
  have hfold : ∀ table : Table ContentId EngagementRecord,
      ((contents.filterMap fun content =>
        (store.record? ⟨user, content⟩).map (content, ·)).foldl
          (fun table entry => table.insert entry.1 entry.2) table).get? content =
        (if content ∈ contents then store.record? ⟨user, content⟩ else none).or
          (table.get? content) := by
    induction contents with
    | nil => simp
    | cons first contents ih =>
      intro table
      cases hrecord : store.record? ⟨user, first⟩ with
      | none =>
        rw [List.filterMap_cons_none (by rw [hrecord]; rfl), ih]
        by_cases hfirst : content = first
        · subst hfirst
          simp [hrecord]
        · simp [hfirst]
      | some record =>
        rw [List.filterMap_cons_some (by rw [hrecord]; rfl), List.foldl_cons, ih,
          Table.get?_insert]
        by_cases hfirst : content = first
        · subst hfirst
          by_cases hmem : content ∈ contents <;> simp [hrecord, hmem]
        · simp [hfirst]
  exact (hfold .empty).trans (by simp)

/-! ### Stores that hold the same -/

/-- The stores hold the same under the identifiers of the hive. -/
structure SameFor (store : StoreState) (view : View) (other : StoreState) : Prop where
  items : ∀ key, view.owns key.id → store.item? key = other.item? key
  records : ∀ key, view.owns key.content → store.record? key = other.record? key

variable {view : View}

/-- Of stores of which the view tells whether something is of the hive, these are the ones that have
the same items and records of the hive. -/
theorem sameFor_iff (left : view.Oversees store) (right : view.Oversees other) :
    store.SameFor view other ↔ store.AgreesWhere (· = view.hive) other := by
  refine ⟨fun same => ⟨fun key item hhive => ?_, fun key record hhive => ?_⟩,
    fun agrees => ⟨fun key owned => Option.ext fun item => ?_,
      fun key owned => Option.ext fun record => ?_⟩⟩
  · exact ⟨fun h => (same.items key ((left.owns_id_iff h).2 hhive)).symm.trans h,
      fun h => (same.items key ((right.owns_id_iff h).2 hhive)).trans h⟩
  · exact ⟨fun h => (same.records key ((left.owns_content_iff h).2 hhive)).symm.trans h,
      fun h => (same.records key ((right.owns_content_iff h).2 hhive)).trans h⟩
  · exact ⟨fun h => (agrees.items key item ((left.owns_id_iff h).1 owned)).1 h,
      fun h => (agrees.items key item ((right.owns_id_iff h).1 owned)).2 h⟩
  · exact ⟨fun h => (agrees.records key record ((left.owns_content_iff h).1 owned)).1 h,
      fun h => (agrees.records key record ((right.owns_content_iff h).1 owned)).2 h⟩

namespace SameFor

theorem putItem (same : store.SameFor view other) (key : ContentKey) (item : ContentItem) :
    (store.putItem key item).SameFor view (other.putItem key item) where
  items key' owned := by rw [item?_putItem, item?_putItem, same.items key' owned]
  records := same.records

theorem removeItem (same : store.SameFor view other) (key : ContentKey) :
    (store.removeItem key).SameFor view (other.removeItem key) where
  items key' owned := by rw [item?_removeItem, item?_removeItem, same.items key' owned]
  records key' owned := by rw [record?_removeItem, record?_removeItem, same.records key' owned]

theorem withRecord (same : store.SameFor view other) (record : EngagementRecord) :
    (store.withRecord record).SameFor view (other.withRecord record) where
  items := same.items
  records key owned := by rw [record?_withRecord, record?_withRecord, same.records key owned]

theorem removeRecords (same : store.SameFor view other) (keys : List EngagementKey) :
    (store.removeRecords keys).SameFor view (other.removeRecords keys) where
  items := same.items
  records key owned := by
    rw [record?_removeRecords, record?_removeRecords, same.records key owned]

end SameFor

/-- Two results of a request: both fail for the same reason, or both give the same answer and leave
stores that hold the same of the hive. -/
inductive Parallel (view : View) {α : Type} :
    Except StoreError (α × StoreState) → Except StoreError (α × StoreState) → Prop where
  | done {store other : StoreState} (answer : α) (same : store.SameFor view other) :
      Parallel view (.ok (answer, store)) (.ok (answer, other))
  | failed (error : StoreError) : Parallel view (.error error) (.error error)

theorem Parallel.map {α β : Type} {result result' : Except StoreError (α × StoreState)}
    (h : Parallel view result result') (f : α → β) :
    Parallel view (result.map fun r => (f r.1, r.2)) (result'.map fun r => (f r.1, r.2)) := by
  cases h with
  | done answer same => exact .done (f answer) same
  | failed error => exact .failed error

namespace SameFor

variable (same : store.SameFor view other)

include same

theorem parallel_page {α : Type} {page page' : Except StoreError α} (h : page = page') :
    Parallel view (page.map (·, store)) (page'.map (·, other)) := by
  subst h
  cases page with
  | ok answer => exact .done answer same
  | error error => exact .failed error

theorem parallel_updateItem {key : ContentKey} (owned : view.owns key.id)
    (edit : ContentItem → ContentItem) :
    Parallel view (store.updateItem key edit) (other.updateItem key edit) := by
  rw [updateItem, updateItem, same.items key owned]
  split
  · exact .failed _
  · exact .done _ (same.putItem key _)

theorem parallel_writeRecord {record : EngagementRecord} (owned : view.owns record.content) :
    Parallel view (store.writeRecord record) (other.writeRecord record) := by
  have hversion : store.storedVersion record.key = other.storedVersion record.key := by
    rw [storedVersion, storedVersion, same.records record.key owned]
  rw [writeRecord, writeRecord, hversion]
  split
  · exact .done _ (same.withRecord record)
  · exact .failed _

theorem parallel_commitVote {record : EngagementRecord} {key : ContentKey} {change : CountChange}
    (written : view.owns record.content) (owned : view.owns key.id) :
    Parallel view (store.commitVote record key change) (other.commitVote record key change) := by
  rw [commitVote, commitVote, same.items key owned]
  split
  · exact .failed _
  · have hwrite := same.parallel_writeRecord written
    generalize store.writeRecord record = result at hwrite
    generalize other.writeRecord record = result' at hwrite
    cases hwrite with
    | done stored hstored => exact .done _ (hstored.putItem key _)
    | failed error => exact .failed error

theorem parallel_commitReport {record : EngagementRecord} {key : ContentKey}
    {outcome : ReportOutcome} (written : view.owns record.content) (owned : view.owns key.id) :
    Parallel view (store.commitReport record key outcome)
      (other.commitReport record key outcome) := by
  rw [commitReport, commitReport, same.items key owned]
  split
  · exact .failed _
  · split
    · exact .failed _
    · have hwrite := same.parallel_writeRecord written
      generalize store.writeRecord record = result at hwrite
      generalize other.writeRecord record = result' at hwrite
      cases hwrite with
      | done stored hstored => exact .done _ (hstored.putItem key _)
      | failed error => exact .failed error

end SameFor

/-! ### Replies -/

variable {limits : QueryLimits}

/-- Results that differ in other hives only lead to the same reply. -/
theorem Parallel.reply {request : Request} (same : store.SameFor view other)
    (h : Parallel view (store.perform limits request) (other.perform limits request)) :
    (store.reply limits request).1 = (other.reply limits request).1 ∧
      (store.reply limits request).2.SameFor view (other.reply limits request).2 := by
  unfold StoreState.reply
  generalize store.perform limits request = result at h
  generalize other.perform limits request = result' at h
  cases h with
  | done answer hlater => exact ⟨rfl, hlater⟩
  | failed error => exact ⟨rfl, same⟩

theorem veil_getContent (oversees : view.Oversees store) {key : ContentKey}
    (foreign : ¬view.owns key.id) :
    Effect.veil view.hive (.store (.getContent key)) (store.reply limits (.getContent key)).1 =
      .error .contentNotFound := by
  simp only [reply, perform]
  cases hitem : store.item? key with
  | none => rfl
  | some item => exact if_neg fun hhive => foreign ((oversees.owns_id_iff hitem).2 hhive)

theorem filter_record? (oversees : view.Oversees store) {key : EngagementKey}
    (foreign : ¬view.owns key.content) :
    (store.record? key).filter (fun record => record.hive = view.hive) = none := by
  refine Option.filter_eq_none_iff.2 fun record hrecord hhive => foreign ?_
  exact (oversees.owns_content_iff hrecord).2 (by simpa using hhive)

theorem veil_getEngagement (store : StoreState) (user : UserId) (content : ContentId) :
    Effect.veil view.hive (.store (.getEngagement user content))
        (store.reply limits (.getEngagement user content)).1 =
      match (store.record? ⟨user, content⟩).filter fun record => record.hive = view.hive with
      | none => .error .recordNotFound
      | some record => .ok record := by
  simp only [reply, perform]
  cases store.record? ⟨user, content⟩ with
  | none => rfl
  | some record =>
    by_cases hhive : record.hive = view.hive <;> simp [Effect.veil, Option.filter, hhive]

namespace SameFor

theorem filter_record?_eq (same : store.SameFor view other) (left : view.Oversees store)
    (right : view.Oversees other) (key : EngagementKey) :
    (store.record? key).filter (fun record => record.hive = view.hive) =
      (other.record? key).filter (fun record => record.hive = view.hive) := by
  by_cases owned : view.owns key.content
  · rw [same.records key owned]
  · rw [filter_record? left owned, filter_record? right owned]

/-- The stores show the same items of a scope of the hive. -/
theorem scopeItems_eq (same : store.SameFor view other) (left : view.Oversees store)
    (right : view.Oversees other) {scope : ScopeId} (owned : view.owns scope.asContent) :
    store.scopeItems scope = other.scopeItems scope := by
  refine scopeItems_congr fun id => ?_
  by_cases hid : view.owns id
  · exact same.items _ hid
  · have hnone : ∀ state : StoreState, view.Oversees state → state.item? ⟨scope, id⟩ = none := by
      intro state oversees
      refine Option.eq_none_iff_forall_ne_some.2 fun item hitem => hid ?_
      have hkey := (oversees.items _ item hitem).1
      have hitemId : item.id = id := congrArg ContentKey.id hkey
      exact hitemId ▸ (oversees.ownsItem_of_scope hitem owned).id
    rw [hnone store left, hnone other right]

/-- To a request that concerns the hive only, both stores reply in the same way but for what belongs
to other hives, and they hold the same of the hive afterwards. -/
theorem reply (same : store.SameFor view other) (left : view.Oversees store)
    (right : view.Oversees other) (drawn : ∀ id, view.draws id → view.owns id) {request : Request}
    (admitted : view.Admits (.store request)) :
    Effect.veil view.hive (.store request) (store.reply limits request).1 =
        Effect.veil view.hive (.store request) (other.reply limits request).1 ∧
      (store.reply limits request).2.SameFor view (other.reply limits request).2 := by
  have parallel : Parallel view (store.perform limits request) (other.perform limits request) →
      Effect.veil view.hive (.store request) (store.reply limits request).1 =
          Effect.veil view.hive (.store request) (other.reply limits request).1 ∧
        (store.reply limits request).2.SameFor view (other.reply limits request).2 :=
    fun h => (h.reply same).imp_left (congrArg _)
  cases request with
  | ping => exact parallel (.done () same)
  | putContent item =>
    obtain ⟨-, -, hid⟩ := admitted
    refine parallel ?_
    simp only [perform]
    rw [same.items item.key (drawn _ hid)]
    split
    · exact .failed _
    · exact .done () (same.putItem _ _)
  | getContent key =>
    have hstate : ∀ state : StoreState, (state.reply limits (.getContent key)).2 = state := by
      intro state
      simp only [StoreState.reply, perform]
      cases state.item? key <;> rfl
    refine ⟨?_, by rw [hstate, hstate]; exact same⟩
    by_cases owned : view.owns key.id
    · simp only [StoreState.reply, perform, same.items key owned]
      cases other.item? key <;> rfl
    · rw [veil_getContent left owned, veil_getContent right owned]
  | queryContent query =>
    refine parallel (same.parallel_page ?_)
    rw [queryContent, queryContent, itemsAfter, itemsAfter, same.scopeItems_eq left right admitted]
  | adjustCounts key change => exact parallel (same.parallel_updateItem admitted _)
  | touchActivity key time =>
    exact parallel ((same.parallel_updateItem admitted _).map fun _ => ())
  | markReviewed key => exact parallel (same.parallel_updateItem admitted _)
  | setPinned key pinned => exact parallel (same.parallel_updateItem admitted _)
  | deleteContent key =>
    refine parallel ?_
    simp only [perform]
    rw [same.items key admitted]
    split
    · exact .failed _
    · exact .done () (same.removeItem key)
  | getEngagement user content =>
    have hstate : ∀ state : StoreState,
        (state.reply limits (.getEngagement user content)).2 = state := by
      intro state
      simp only [StoreState.reply, perform]
      cases state.record? ⟨user, content⟩ <;> rfl
    refine ⟨?_, by rw [hstate, hstate]; exact same⟩
    rw [veil_getEngagement, veil_getEngagement, same.filter_record?_eq left right]
  | lookupEngagement user contents =>
    refine ⟨congrArg Except.ok (Table.ext_get? fun content => ?_), same⟩
    rw [Table.get?_filter, Table.get?_filter, get?_lookupEngagement, get?_lookupEngagement]
    split
    · exact same.filter_record?_eq left right _
    · rfl
  | putEngagement record => exact parallel (same.parallel_writeRecord admitted.content)
  | commitReport record key outcome =>
    exact parallel (same.parallel_commitReport admitted.1.content admitted.2)
  | commitVote record key change =>
    exact parallel (same.parallel_commitVote admitted.1.content admitted.2)
  | queryEngagement query =>
    refine parallel (same.parallel_page ?_)
    have hrecords := recordsAfter_congr
      (fun key (hkey : key.content = query.content) => same.records key (hkey ▸ admitted))
      query.startAfter
    rw [queryEngagement, queryEngagement, hrecords]
  | deleteEngagements keys =>
    refine parallel ?_
    simp only [perform]
    split
    · exact .failed _
    · exact .done _ (same.removeRecords _)

end SameFor

end StoreState

end HiveForum
