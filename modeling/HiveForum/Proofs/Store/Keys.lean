import HiveForum.Proofs.Store.Change
import HiveForum.Proofs.Store.Page
import HiveForum.Store.Memory

/-!
# Everything is stored under its own key

A request files an item or a record under the key that it carries, and an edit leaves the key of an
item as it is. Hence in a store that began without contents everything is found under its own key,
whatever requests the store has answered since.

## Main definitions

* `MemoryStore.Reachable`: a store in memory that answering requests has brought about.

## Main results

* `StoreState.Keyed.change`: whatever a request changes, everything is still under its own key.
* `MemoryStore.Reachable.keyed`: in a store that can be reached everything is.
-/

namespace HiveForum

theorem Request.Edits.key_eq {request : Request} {key : ContentKey} {item item' : ContentItem}
    (h : request.Edits key item item') : item'.key = item.key := by
  cases h <;> rfl

theorem CountChange.key_applyTo (change : CountChange) (item : ContentItem) :
    (change.applyTo item).key = item.key := rfl

theorem ReportOutcome.key_applyTo (outcome : ReportOutcome) (item : ContentItem) :
    (outcome.applyTo item).key = item.key := by
  cases outcome <;> rfl

namespace StoreState

variable {state later : StoreState}

theorem keyed_empty : StoreState.empty.Keyed := ⟨filed_empty, fun _ _ h => by cases h⟩

theorem Keyed.putItem (keyed : state.Keyed) {key : ContentKey} {item : ContentItem}
    (h : item.key = key) : (state.putItem key item).Keyed :=
  ⟨Filed.putItem keyed.items h, keyed.records⟩

theorem Keyed.removeItem (keyed : state.Keyed) (key : ContentKey) :
    (state.removeItem key).Keyed := by
  refine ⟨Filed.removeItem keyed.items key, fun key' record hrecord => ?_⟩
  rw [record?_removeItem] at hrecord
  exact keyed.records key' record hrecord

theorem Keyed.withRecord (keyed : state.Keyed) (record : EngagementRecord) :
    (state.withRecord record).Keyed := by
  refine ⟨keyed.items, fun key other hother => ?_⟩
  rw [record?_withRecord] at hother
  split at hother
  · rename_i hkey
    obtain rfl := Option.some.inj hother
    exact hkey.symm
  · exact keyed.records key other hother

theorem Keyed.removeRecords (keyed : state.Keyed) (keys : List EngagementKey) :
    (state.removeRecords keys).Keyed := by
  refine ⟨keyed.items, fun key record hrecord => ?_⟩
  rw [record?_removeRecords] at hrecord
  split at hrecord
  · cases hrecord
  · exact keyed.records key record hrecord

/-- Whatever a request changes, everything is still under its own key. -/
theorem Keyed.change {request : Request} (keyed : state.Keyed)
    (change : state.Change request later) : later.Keyed := by
  cases change with
  | read => exact keyed
  | put => exact keyed.putItem rfl
  | edit edits found => exact keyed.putItem (edits.key_eq.trans (keyed.items _ _ found))
  | remove => exact keyed.removeItem _
  | write => exact keyed.withRecord _
  | vote found =>
    exact (keyed.withRecord _).putItem
      ((CountChange.key_applyTo _ _).trans (keyed.items _ _ found))
  | report found =>
    exact (keyed.withRecord _).putItem
      ((ReportOutcome.key_applyTo _ _).trans (keyed.items _ _ found))
  | erase => exact keyed.removeRecords _

end StoreState

namespace MemoryStore

variable {store : MemoryStore}

/-- A store in memory that has been brought about: it began without contents, and has answered
requests. Its bounds, its latency and its switch may have been set at any time. -/
inductive Reachable : MemoryStore → Prop where
  | new {store : MemoryStore} (blank : store.state = .empty) : Reachable store
  | answer {store : MemoryStore} (reachable : Reachable store) (request : Request) :
      Reachable (store.answer request).2
  | set {store later : MemoryStore} (reachable : Reachable store)
      (same : later.state = store.state) : Reachable later

/-- A store that answers a request has the settings that it had, and its contents are as they were
or have been changed as the request may change them. -/
theorem answer_eq (store : MemoryStore) (request : Request) :
    ∃ state, (store.answer request).2 = { store with state := state } ∧
      (state = store.state ∨ store.state.Change request state) := by
  rw [MemoryStore.answer]
  split
  · split
    · exact ⟨store.state, rfl, .inl rfl⟩
    · rename_i hperform
      exact ⟨_, rfl, .inr (StoreState.change_of_perform hperform)⟩
  · exact ⟨store.state, rfl, .inl rfl⟩

/-- In a store that has been brought about everything is under its own key. -/
theorem Reachable.keyed (reachable : store.Reachable) : store.state.Keyed := by
  induction reachable with
  | new blank => rw [blank]; exact StoreState.keyed_empty
  | @answer store _ request keyed =>
    obtain ⟨state, heq, rfl | change⟩ := store.answer_eq request
    · rw [heq]; exact keyed
    · rw [heq]; exact keyed.change change
  | set _ same keyed => rw [same]; exact keyed

end MemoryStore

end HiveForum
