import HiveForum.Access.Directory
import HiveForum.Cursor
import HiveForum.Engagement.Report
import HiveForum.Limits
import HiveForum.Store.Error

/-!
# Errors of operations

An operation fails for one of seven kinds of reason, each with its cause.

## Main definitions

* `OperationError`: the kinds, with their causes and texts.
* `OperationError.ofStore`, `OperationError.ofAccess`, `OperationError.ofCursor`,
  `OperationError.ofLimit`, `OperationError.ofRejection`: the error that a cause leads to.
* `OperationError.isRetryable`, `OperationError.isNoOp`: the classes that callers distinguish.

## Main results

* `OperationError.ofStore_eq_notFound_iff`: which errors of the store mean that nothing was found.
-/

namespace HiveForum

/-- Why a request makes no sense. -/
inductive BadRequest where
  | limit (error : LimitError)
  | cursor (error : CursorError)
  | store (error : StoreError)
  | rule (text : String)
deriving DecidableEq

namespace BadRequest

/-- Comments are added to posts only. -/
def commentsOnPostsOnly : BadRequest := .rule "comments can only be added to posts"

/-- Only posts have a listing of comments. -/
def listingsOfPostsOnly : BadRequest := .rule "only posts have comment listings"

/-- The text of the reason. -/
def message : BadRequest → String
  | .limit error => error.message
  | .cursor error => s!"invalid cursor: {error.message}"
  | .store error => error.message
  | .rule text => text

end BadRequest

/-- Why a caller may not do something. -/
inductive Unauthorized where
  | access (error : AccessError)
  | rejection (rejected : ReportRejected)
  | store (error : StoreError)
  | notAuthor
deriving DecidableEq

/-- The text of the reason. -/
def Unauthorized.message : Unauthorized → String
  | .access error => error.message
  | .rejection rejected => rejected.message
  | .store error => error.message
  | .notAuthor => "only the author or a moderator may delete content"

/-- Why the store, or what it depends on, could not serve a request. -/
inductive Outage where
  | store (error : StoreError)
  | access (error : AccessError)
  | deadline
deriving DecidableEq

/-- The text of the reason. -/
def Outage.message : Outage → String
  | .store error => error.message
  | .access error => error.message
  | .deadline => "deadline exceeded"

/-- Why an operation fails. -/
inductive OperationError where
  | notFound
  | noOp
  | badRequest (cause : BadRequest)
  | unauthorized (cause : Unauthorized)
  /-- The store could not serve the request; it may be made again. -/
  | storeUnavailable (cause : Outage)
  | retriesExhausted (attempts remaining : Nat)
  | unknown (cause : StoreError)
deriving DecidableEq

namespace OperationError

/-- The text of the error. -/
def message : OperationError → String
  | .notFound => "not found"
  | .noOp => "already in the requested state"
  | .badRequest cause => s!"bad request: {cause.message}"
  | .unauthorized cause => s!"unauthorized: {cause.message}"
  | .storeUnavailable cause => s!"store unavailable: {cause.message}"
  | .retriesExhausted attempts remaining =>
    s!"gave up after {attempts} attempts with {remaining} keys unprocessed"
  | .unknown cause => s!"internal error: {cause.message}"

/-- Whether the same request may succeed later. -/
def isRetryable : OperationError → Bool
  | .storeUnavailable _ => true
  | _ => false

/-- Whether the wanted state is reached already. -/
def isNoOp : OperationError → Bool
  | .noOp => true
  | _ => false

/-- The error that an error of the store leads to. A version conflict counts as an outage: it is
what is left when the retries of a write are used up. -/
def ofStore : StoreError → OperationError
  | .contentNotFound => .notFound
  | .recordNotFound => .notFound
  | .unavailable => .storeUnavailable (.store .unavailable)
  | .timeout => .storeUnavailable (.store .timeout)
  | .versionConflict => .storeUnavailable (.store .versionConflict)
  | .contentReviewed => .unauthorized (.store .contentReviewed)
  | .contentExists => .badRequest (.store .contentExists)
  | .batchTooLarge count => .badRequest (.store (.batchTooLarge count))
  | .invalidInput reason => .badRequest (.store (.invalidInput reason))
  | .database reason => .unknown (.database reason)
  | .migration reason => .unknown (.migration reason)
  | .missingDatabaseUrl => .unknown .missingDatabaseUrl

/-- The error that an error of the membership service leads to. -/
def ofAccess : AccessError → OperationError
  | .hiveNotFound => .notFound
  | .notMember => .unauthorized (.access .notMember)
  | .forbidden required => .unauthorized (.access (.forbidden required))
  | .unavailable reason => .storeUnavailable (.access (.unavailable reason))

/-- The error that a bad cursor leads to. -/
def ofCursor (error : CursorError) : OperationError := .badRequest (.cursor error)

/-- The error that a broken limit leads to. -/
def ofLimit (error : LimitError) : OperationError := .badRequest (.limit error)

/-- The error that a rejected report leads to. -/
def ofRejection (rejected : ReportRejected) : OperationError :=
  .unauthorized (.rejection rejected)

/-- Nothing was found exactly if an item or a record is missing. -/
theorem ofStore_eq_notFound_iff (error : StoreError) :
    ofStore error = .notFound ↔ error.isNotFound = true := by
  cases error <;> simp [ofStore, StoreError.isNotFound]

end OperationError

end HiveForum
