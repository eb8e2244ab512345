/-!
# Errors of a store

## Main definitions

* `StoreError`: why a store call fails, each with its text.
* `StoreError.isNotFound`, `StoreError.isTransient`: the classes that callers distinguish.
-/

namespace HiveForum

/-- Why a store call fails. -/
inductive StoreError where
  | contentNotFound
  | recordNotFound
  | contentExists
  | versionConflict
  | contentReviewed
  /-- A batch has `count` keys, more than are written at once. -/
  | batchTooLarge (count : Nat)
  | invalidInput (reason : String)
  | unavailable
  | timeout
  | database (reason : String)
  | migration (reason : String)
  | missingDatabaseUrl
deriving DecidableEq

namespace StoreError

/-- The text of the error. -/
def message : StoreError → String
  | .contentNotFound => "content not found"
  | .recordNotFound => "engagement record not found"
  | .contentExists => "content already exists"
  | .versionConflict => "record version conflict"
  | .contentReviewed => "content has been reviewed"
  | .batchTooLarge count => s!"batch of {count} keys exceeds the write limit"
  | .invalidInput reason => s!"invalid input: {reason}"
  | .unavailable => "storage unavailable"
  | .timeout => "storage call timed out"
  | .database reason => s!"database error: {reason}"
  | .migration reason => s!"migration error: {reason}"
  | .missingDatabaseUrl => "DATABASE_URL is not set"

/-- Whether an item or a record is missing. -/
def isNotFound : StoreError → Bool
  | .contentNotFound | .recordNotFound => true
  | _ => false

/-- Whether the same call may succeed later. -/
def isTransient : StoreError → Bool
  | .unavailable | .timeout => true
  | _ => false

end StoreError

end HiveForum
