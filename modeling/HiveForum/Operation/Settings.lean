import HiveForum.Content.Item
import HiveForum.Schedule.Backoff

/-!
# Settings and targets of operations

## Main definitions

* `Settings`: the sizes, limits and times that operations work with.
* `Target`: an item addressed within a hive.
-/

namespace HiveForum

/-- The sizes, limits and times that operations work with. -/
structure Settings where
  /-- The page size of a listing that asks for none. -/
  defaultLimit : Nat := 25
  /-- The number of items asked of the store at once for a small page. -/
  storePageSize : Nat := 25
  /-- The number of units of a deletion that run at once. -/
  cascadeConcurrency : Nat := 8
  backoff : BackoffSettings := {}
  /-- The longest time for one call to the store, in milliseconds. -/
  callTimeout : UInt64 := 5000
  /-- How often a record is read again after a version conflict. -/
  conflictRetries : Nat := 3
deriving DecidableEq, Inhabited

/-- An item addressed within a hive. -/
structure Target where
  hive : ScopeId
  content : ContentKey
deriving DecidableEq, Inhabited

end HiveForum
