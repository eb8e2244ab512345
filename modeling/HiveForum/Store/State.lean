import HiveForum.Store.Request

/-!
# The contents of a store

A store holds the items of each scope and the records of users on items. Each request either fails
and leaves the contents as they are, or gives its answer with the contents after it.

## Main definitions

* `StoreState`: the items and the records.
* `StoreState.perform`: the meaning of every request.
* `QueryLimits`: what bounds a query and a batch from the store's side.

## Main results

* `StoreState.item?_putItem`, `StoreState.item?_removeItem`: the items after a change.
-/

namespace HiveForum

/-- The items of each scope, and the records of users on items. -/
structure StoreState where
  content : Table ScopeId (Table ContentId ContentItem)
  engagement : Table EngagementKey EngagementRecord
deriving DecidableEq, Inhabited

/-- The store's own bounds on one call. -/
structure QueryLimits where
  /-- The largest number of entries that one query looks at. -/
  pageItems : Nat
  /-- The largest number of keys that one batch removes. -/
  writeCapacity : Nat
  /-- A query looks at one entry at least. -/
  pageItems_pos : 0 < pageItems
deriving DecidableEq

namespace StoreState

/-- The store without contents. -/
def empty : StoreState := ⟨.empty, .empty⟩

/-- The items of a scope. -/
def scopeItems (state : StoreState) (scope : ScopeId) : List ContentItem :=
  match state.content.get? scope with
  | none => []
  | some items => items.values

/-- All items. -/
def items (state : StoreState) : List ContentItem := state.content.values.flatMap (·.values)

/-- All records. -/
def records (state : StoreState) : List EngagementRecord := state.engagement.values

/-- The item stored under a key. -/
def item? (state : StoreState) (key : ContentKey) : Option ContentItem :=
  (state.content.get? key.scope).bind (·.get? key.id)

/-- The record of a user on an item. -/
def record? (state : StoreState) (key : EngagementKey) : Option EngagementRecord :=
  state.engagement.get? key

/-- Stores an item under a key. -/
def putItem (state : StoreState) (key : ContentKey) (item : ContentItem) : StoreState :=
  let items := (state.content.get? key.scope).getD .empty
  { state with content := state.content.insert key.scope (items.insert key.id item) }

/-- Removes the item stored under a key, and its scope with the last item of it. -/
def removeItem (state : StoreState) (key : ContentKey) : StoreState :=
  match state.content.get? key.scope with
  | none => state
  | some items =>
    let left := items.erase key.id
    if left.isEmpty then { state with content := state.content.erase key.scope }
    else { state with content := state.content.insert key.scope left }

/-- Replaces the item stored under a key by a changed one. -/
def updateItem (state : StoreState) (key : ContentKey) (change : ContentItem → ContentItem) :
    Except StoreError (ContentItem × StoreState) :=
  match state.item? key with
  | none => .error .contentNotFound
  | some item => .ok (change item, state.putItem key (change item))

/-- The stored version of a record; zero if there is none. -/
def storedVersion (state : StoreState) (key : EngagementKey) : Int64 :=
  match state.record? key with
  | none => 0
  | some record => record.version

/-- Writes a record if its version is the stored one; the version then counts one more write. -/
def writeRecord (state : StoreState) (record : EngagementRecord) :
    Except StoreError (EngagementRecord × StoreState) :=
  if state.storedVersion record.key = record.version then
    let stored := { record with version := record.version + 1 }
    .ok (stored, { state with engagement := state.engagement.insert record.key stored })
  else .error .versionConflict

/-- The items of a scope that a walk visits after a position, in scan order. -/
def itemsAfter (state : StoreState) (query : ContentQuery) : List ContentItem :=
  ContentItem.sort query.sort query.direction <|
    (state.scopeItems query.scope).filter fun item =>
      match query.startAfter with
      | none => true
      | some start => query.direction.isAfter (item.indexKey query.sort) start

/-- One page of an index: the walk looks at no more entries than the query and the store allow,
and the filter drops items among those. -/
def queryContent (state : StoreState) (limits : QueryLimits) (query : ContentQuery) :
    Except StoreError ContentPage :=
  if query.limit = 0 then .error .zeroLimit
  else
    let index := state.itemsAfter query
    let window := min query.limit limits.pageItems
    let seen := index.take window
    .ok {
      items := seen.filter (·.matchesTags query.tags)
      lastEvaluated :=
        if index.length ≤ window then none
        else seen.getLast?.map (·.indexKey query.sort) }

/-- Where the walk over the records of an item starts: right after a user, or at the empty name,
which is the first of all. -/
def recordsBound (content : ContentId) : Option UserId → Table.Bound EngagementKey
  | none => .included ⟨⟨""⟩, content⟩
  | some user => .excluded ⟨user, content⟩

/-- The records of an item after a user, by increasing user: the walk goes on until it comes by the
record of another item. -/
def recordsAfter (state : StoreState) (content : ContentId) (startAfter : Option UserId) :
    List EngagementRecord :=
  ((state.engagement.entriesFrom (recordsBound content startAfter)).takeWhile fun entry =>
    decide (entry.1.content = content)).map (·.2)

/-- One page of the records of an item. -/
def queryEngagement (state : StoreState) (limits : QueryLimits) (query : EngagementQuery) :
    Except StoreError EngagementPage :=
  let limit := min query.limit limits.pageItems
  if limit = 0 then .error .zeroLimit
  else
    let rest := state.recordsAfter query.content query.startAfter
    .ok {
      records := rest.take limit
      lastEvaluated :=
        if (rest.drop limit).isEmpty then none else (rest.take limit).getLast?.map (·.user) }

/-- Removes records. -/
def removeRecords (state : StoreState) (keys : List EngagementKey) : StoreState :=
  { state with engagement := keys.foldl Table.erase state.engagement }

/-- The records of a user on several items. -/
def lookupEngagement (state : StoreState) (user : UserId) (contents : List ContentId) :
    Table ContentId EngagementRecord :=
  .ofList (contents.filterMap fun content =>
    (state.record? ⟨user, content⟩).map (content, ·))

/-- Writes a record together with its report outcome for the item. -/
def commitReport (state : StoreState) (record : EngagementRecord) (key : ContentKey)
    (outcome : ReportOutcome) :
    Except StoreError ((EngagementRecord × ContentItem) × StoreState) :=
  match state.item? key with
  | none => .error .contentNotFound
  | some item =>
    if outcome = .added ∧ item.reviewed then .error .contentReviewed
    else
      match state.writeRecord record with
      | .error error => .error error
      | .ok (stored, state) =>
        .ok ((stored, outcome.applyTo item), state.putItem key (outcome.applyTo item))

/-- Writes a record together with its change of the item's counts. -/
def commitVote (state : StoreState) (record : EngagementRecord) (key : ContentKey)
    (change : CountChange) :
    Except StoreError ((EngagementRecord × ContentItem) × StoreState) :=
  match state.item? key with
  | none => .error .contentNotFound
  | some item =>
    match state.writeRecord record with
    | .error error => .error error
    | .ok (stored, state) =>
      .ok ((stored, change.applyTo item), state.putItem key (change.applyTo item))

/-- The answer to a request with the contents after it, or why it fails. -/
def perform (limits : QueryLimits) (state : StoreState) :
    (request : Request) → Except StoreError (request.Answer × StoreState)
  | .ping => .ok ((), state)
  | .putContent item =>
    if (state.item? item.key).isSome then .error .contentExists
    else .ok ((), state.putItem item.key item)
  | .getContent key =>
    match state.item? key with
    | none => .error .contentNotFound
    | some item => .ok (item, state)
  | .queryContent query => (state.queryContent limits query).map (·, state)
  | .adjustCounts key change => state.updateItem key change.applyTo
  | .touchActivity key time =>
    (state.updateItem key fun item =>
      { item with lastActivityAt := max item.lastActivityAt time }).map fun r => ((), r.2)
  | .markReviewed key =>
    state.updateItem key fun item => { item with reviewed := true, obfuscated := false }
  | .setPinned key pinned => state.updateItem key fun item => { item with pinned := pinned }
  | .deleteContent key =>
    match state.item? key with
    | none => .error .contentNotFound
    | some _ => .ok ((), state.removeItem key)
  | .getEngagement user content =>
    match state.record? ⟨user, content⟩ with
    | none => .error .recordNotFound
    | some record => .ok (record, state)
  | .lookupEngagement user contents => .ok (state.lookupEngagement user contents, state)
  | .putEngagement record => state.writeRecord record
  | .commitReport record key outcome => state.commitReport record key outcome
  | .commitVote record key change => state.commitVote record key change
  | .queryEngagement query => (state.queryEngagement limits query).map (·, state)
  | .deleteEngagements keys =>
    match checkBatch keys with
    | .error error => .error error
    | .ok () =>
      .ok (keys.drop limits.writeCapacity, state.removeRecords (keys.take limits.writeCapacity))

/-! ### Items after a change -/

/-- A stored item is found under its key, and no other key is affected. -/
theorem item?_putItem (state : StoreState) (key key' : ContentKey) (item : ContentItem) :
    (state.putItem key item).item? key' = if key' = key then some item else state.item? key' := by
  obtain ⟨scope, id⟩ := key
  obtain ⟨scope', id'⟩ := key'
  unfold putItem item?
  by_cases hs : scope' = scope
  · subst hs
    by_cases hi : id' = id
    · subst hi
      simp [Table.get?_insert]
    · cases h : state.content.get? scope' <;> simp [Table.get?_insert, hi]
  · simp [Table.get?_insert, hs]

/-- A removed item is gone, and no other key is affected. -/
theorem item?_removeItem (state : StoreState) (key key' : ContentKey) :
    (state.removeItem key).item? key' = if key' = key then none else state.item? key' := by
  obtain ⟨scope, id⟩ := key
  obtain ⟨scope', id'⟩ := key'
  unfold removeItem item?
  cases h : state.content.get? scope with
  | none =>
    by_cases hk : scope' = scope
    · subst hk
      simp [h]
    · simp [hk]
  | some items =>
    by_cases hs : scope' = scope
    · subst hs
      by_cases he : (items.erase id).isEmpty
      · have hnone : ∀ i, (items.erase id).get? i = none := by
          intro i
          have : (items.erase id).entries = [] := List.isEmpty_iff.1 he
          simp [Table.get?, this, Table.find?]
        have hi := hnone id'
        rw [Table.get?_erase] at hi
        by_cases hid : id' = id
        · simp [he, Table.get?_erase, hid]
        · simp [he, Table.get?_erase, h, hid] at hi ⊢
          exact hi.symm
      · simp [he, Table.get?_insert, Table.get?_erase, h]
    · by_cases he : (items.erase id).isEmpty
      · simp [he, Table.get?_erase, hs]
      · simp [he, Table.get?_insert, hs]

end StoreState

end HiveForum
