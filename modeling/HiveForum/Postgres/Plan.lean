import HiveForum.Postgres.Statements
import HiveForum.Sql.Connection

/-!
# What the store asks of the database

Every call to the store is answered without the database, or by one statement on its own, or by a
transaction of several statements. A transaction reads the answer to each statement before it
decides on the next one.

## Main definitions

* `Postgres.Dialogue`: what happens inside a transaction.
* `Postgres.Plan`: how a call is answered.
* `Postgres.plan`: the plan for each call.
-/

namespace HiveForum.Postgres

open Sql

/-- What happens inside a transaction. -/
inductive Dialogue (α : Type) where
  /-- The changes are wanted; the value is the answer once they last. -/
  | commit (value : α)
  | abort (error : StoreError)
  | ask (query : Query) (next : Answered → Dialogue α)

namespace Dialogue

/-- The dialogue goes on with the value that has been read, or is aborted. -/
def read {α β : Type} (value : Except StoreError α) (next : α → Dialogue β) : Dialogue β :=
  match value with
  | .ok value => next value
  | .error error => .abort error

end Dialogue

/-- How a call to the store is answered. -/
inductive Plan (α : Type) where
  | known (answer : Except StoreError α)
  | single (query : Query) (answer : Reply → Except StoreError α)
  | transaction (dialogue : Dialogue α)

/-! ### Reading answers -/

/-- The answer to a statement; its failure is a failure of the store. -/
def answered (reply : Reply) : Except StoreError Answered :=
  match reply with
  | .ok answer => .ok answer
  | .error failure => .error failure.storeError

/-- Reads the first row; further ones are ignored. -/
def firstRow {α : Type} (ofRow : Row → Except StoreError α) (missing : StoreError)
    (answer : Answered) : Except StoreError α :=
  match answer.rows with
  | [] => .error missing
  | row :: _ => ofRow row

/-- Reads every row. -/
def everyRow {α : Type} (ofRow : Row → Except StoreError α) (answer : Answered) :
    Except StoreError (List α) :=
  answer.rows.mapM ofRow

/-- Checks that a row was changed. -/
def someRow (missing : StoreError) (answer : Answered) : Except StoreError Unit :=
  if answer.affected = 0 then .error missing else .ok ()

/-- The item of the first row. -/
def itemOf : Answered → Except StoreError ContentItem :=
  firstRow ContentItem.ofRow .contentNotFound

/-- The record of the first row, as it is stored now. -/
def writtenRecord : Answered → Except StoreError EngagementRecord :=
  firstRow EngagementRecord.ofRow .versionConflict

/-- A page is full if it has as many rows as were asked for; then the walk resumes after its last
one. -/
def resumePoint {α β : Type} (limit : Nat) (position : α → β) (page : List α) : Option β :=
  if page.length = limit then page.getLast?.map position else none

/-- The plan of one statement whose failures are failures of the store. -/
def one {α : Type} (query : Query) (read : Answered → Except StoreError α) : Plan α :=
  .single query fun reply => (answered reply).bind read

/-! ### Transactions -/

/-- Writes a record. -/
def putEngagement (record : EngagementRecord) : Dialogue EngagementRecord :=
  .ask (writeRecord record) fun answer =>
    Dialogue.read (writtenRecord answer) fun written => .commit written

/-- Locks an item, writes a record, and changes the item by the outcome of the report. A reviewed
item takes no further reports. -/
def commitReport (record : EngagementRecord) (key : ContentKey) (outcome : ReportOutcome) :
    Dialogue (EngagementRecord × ContentItem) :=
  .ask (selectContent key true) fun answer =>
    Dialogue.read (itemOf answer) fun item =>
      if outcome = .added ∧ item.reviewed then .abort .contentReviewed
      else
        .ask (writeRecord record) fun answer =>
          Dialogue.read (writtenRecord answer) fun written =>
            let changed := outcome.applyTo item
            .ask (setReports key changed.reports changed.obfuscated) fun _ =>
              .commit (written, changed)

/-- Changes the counts of an item, and writes a record. -/
def commitVote (record : EngagementRecord) (key : ContentKey) (change : CountChange) :
    Dialogue (EngagementRecord × ContentItem) :=
  .ask (adjustCounts key change) fun answer =>
    Dialogue.read (itemOf answer) fun item =>
      .ask (writeRecord record) fun answer =>
        Dialogue.read (writtenRecord answer) fun written => .commit (written, item)

/-! ### Plans -/

/-- The answer to the statement that adds an item: the key may be taken. -/
def putAnswer : Reply → Except StoreError Unit
  | .ok _ => .ok ()
  | .error (.refused refusal) =>
    if refusal.isUniqueViolation then .error .contentExists
    else .error (Failure.refused refusal).storeError
  | .error .disconnected => .error .unavailable

/-- The plan for a call to the store. -/
def plan : (request : Request) → Plan request.Answer
  | .ping => one ping fun _ => .ok ()
  | .putContent item => .single (putContent item) putAnswer
  | .getContent key => one (selectContent key false) itemOf
  | .queryContent query =>
    if query.limit = 0 then .known (.error .zeroLimit)
    else
      one (queryContent query) fun answer => do
        let items ← everyRow ContentItem.ofRow answer
        .ok ⟨items, resumePoint query.limit (ContentItem.indexKey · query.sort) items⟩
  | .adjustCounts key change => one (adjustCounts key change) itemOf
  | .touchActivity key time => one (touchActivity key time) (someRow .contentNotFound)
  | .markReviewed key => one (markReviewed key) itemOf
  | .setPinned key pinned => one (setPinned key pinned) itemOf
  | .deleteContent key => one (deleteContent key) (someRow .contentNotFound)
  | .getEngagement user content =>
    one (getEngagement user content) (firstRow EngagementRecord.ofRow .recordNotFound)
  | .lookupEngagement user contents =>
    if contents.isEmpty then .known (.ok .empty)
    else
      one (lookupEngagement user contents) fun answer => do
        let records ← everyRow EngagementRecord.ofRow answer
        .ok (.ofList (records.map fun record => (record.content, record)))
  | .putEngagement record => .transaction (putEngagement record)
  | .commitReport record key outcome => .transaction (commitReport record key outcome)
  | .commitVote record key change => .transaction (commitVote record key change)
  | .queryEngagement query =>
    if query.limit = 0 then .known (.error .zeroLimit)
    else
      one (queryEngagement query) fun answer => do
        let records ← everyRow EngagementRecord.ofRow answer
        .ok ⟨records, resumePoint query.limit EngagementRecord.user records⟩
  | .deleteEngagements keys =>
    match checkBatch keys with
    | .error error => .known (.error error)
    | .ok () =>
      if keys.isEmpty then .known (.ok [])
      else one (deleteEngagements keys) fun _ => .ok []

end HiveForum.Postgres
