import HiveForum.Store.State

/-!
# The store in memory

A store in memory answers every request from its contents, at once or after a fixed latency, unless
it is switched off.

## Main definitions

* `MemoryStore`: the contents with the bounds, the latency and the switch.
* `MemoryStore.answer`: the answer to a request.

## Main results

* `MemoryStore.answer_of_unavailable`: a store that is switched off changes nothing.
-/

namespace HiveForum

/-- A store in memory. -/
structure MemoryStore where
  state : StoreState := .empty
  /-- The largest number of entries that one query looks at. -/
  pageItems : Nat := 100
  /-- The largest number of keys that one batch removes. -/
  writeCapacity : Nat := Limit.batchWrite
  /-- The time that every call takes, in milliseconds. -/
  latency : Nat := 0
  available : Bool := true
deriving DecidableEq, Inhabited

namespace MemoryStore

/-- The bounds on one call; a query looks at one entry at least. -/
def limits (store : MemoryStore) : QueryLimits where
  pageItems := max store.pageItems 1
  writeCapacity := store.writeCapacity
  pageItems_pos := by omega

/-- The answer to a request and the store after it. -/
def answer (store : MemoryStore) (request : Request) :
    Except StoreError request.Answer × MemoryStore :=
  if store.available then
    match store.state.perform store.limits request with
    | .error error => (.error error, store)
    | .ok (answer, state) => (.ok answer, { store with state := state })
  else (.error .unavailable, store)

/-- A store that is switched off changes nothing. -/
theorem answer_of_unavailable {store : MemoryStore} (h : store.available = false)
    (request : Request) : store.answer request = (.error .unavailable, store) := by
  simp [answer, h]

theorem answer_error {store : MemoryStore} {request : Request} {error : StoreError}
    (h : (store.answer request).1 = .error error) : (store.answer request).2 = store := by
  unfold answer at *
  split
  · split
    · rfl
    · simp_all
  · rfl

end MemoryStore

end HiveForum
