import HiveForum.Operation.Publish

/-!
# Voting, saving and reporting

Each action reads the caller's record, takes its transition and writes the result on condition
that the record is still the one that was read. A write that loses a race is made again from the
record that won, a bounded number of times.

## Main definitions

* `retryConflicts`: a conditional write made again after conflicts.
* `currentRecord`: the caller's record, neutral if there is none.
* `vote`, `setSaved`, `report`: the actions.
* `getEngagement`, `lookupEngagement`: reading one's own records.
-/

namespace HiveForum

open Program

/-- Makes an attempt again while it loses races, `retries` times at most. -/
def retryConflicts {α : Type} (attempt : Program (Except StoreError α)) :
    (retries : Nat) → Program α
  | 0 => do ofExcept .ofStore (← attempt)
  | retries + 1 => do
    match ← attempt with
    | .error .versionConflict => retryConflicts attempt retries
    | result => ofExcept .ofStore result

/-- The change that a transition makes; it fails if there is nothing to do. -/
def changeOf {α : Type} : Transition α → Program α
  | .apply change => done change
  | .noOp => fail .noOp

/-- The caller's record on the target, a neutral one if there is none. -/
def currentRecord (caller : Caller) (target : Target) : Program EngagementRecord := do
  match ← tryCall (.getEngagement caller.user target.content.id) with
  | .ok record => return record
  | .error error =>
    if error.isNotFound then return .neutral caller.user target.content target.hive
    fail (.ofStore error)

/-- One attempt to vote: the record is read, changed and written with the counts. -/
def attemptVote (caller : Caller) (target : Target) (request : VoteRequest) (time : Int64) :
    Program (Except StoreError (EngagementRecord × ContentItem)) := do
  let record ← currentRecord caller target
  let (changed, change) ← changeOf (record.vote request time)
  tryCall (.commitVote changed target.content change.counts)

/-- Adds or takes a vote. The author of the item is told of a vote that someone else adds for
it. -/
def vote (settings : Settings) (caller : Caller) (target : Target) (request : VoteRequest) :
    Program EngagementRecord := do
  let _ ← authorize caller target.hive
  let item ← loadTarget target
  let time ← timestamp
  let (stored, _) ← retryConflicts (attemptVote caller target request time)
    settings.conflictRetries
  if request = .addUp ∧ item.author ≠ caller.user then
    notify (.upVoted target.hive target.content caller.user item.author)
  return stored

/-- One attempt to save or unsave. -/
def attemptSave (caller : Caller) (target : Target) (saved : Bool) :
    Program (Except StoreError EngagementRecord) := do
  let record ← currentRecord caller target
  let changed ← changeOf (record.setSaved saved)
  tryCall (.putEngagement changed)

/-- Saves or unsaves an item. -/
def setSaved (settings : Settings) (caller : Caller) (target : Target) (saved : Bool) :
    Program EngagementRecord := do
  let _ ← authorize caller target.hive
  let _ ← loadTarget target
  retryConflicts (attemptSave caller target saved) settings.conflictRetries

/-- One attempt to report or to withdraw a report. -/
def attemptReport (caller : Caller) (target : Target) (action : ReportAction) :
    Program (Except StoreError (EngagementRecord × ContentItem)) := do
  let item ← loadTarget target
  let record ← currentRecord caller target
  let transition ← ofExcept .ofRejection (record.report action item.reviewed)
  let (changed, outcome) ← changeOf transition
  tryCall (.commitReport changed target.content outcome)

/-- Reports an item or withdraws the report. -/
def applyReport (settings : Settings) (caller : Caller) (target : Target)
    (action : ReportAction) : Program EngagementRecord := do
  let _ ← authorize caller target.hive
  let (stored, _) ← retryConflicts (attemptReport caller target action) settings.conflictRetries
  return stored

/-- Reports an item. -/
def report (settings : Settings) (caller : Caller) (target : Target) (reason : Option String) :
    Program EngagementRecord := do
  ofExcept .ofLimit (checkReason reason)
  applyReport settings caller target (.report reason)

/-- Withdraws the report of an item. -/
def withdrawReport (settings : Settings) (caller : Caller) (target : Target) :
    Program EngagementRecord :=
  applyReport settings caller target .withdraw

/-- Reads the caller's record on an item. -/
def getEngagement (caller : Caller) (target : Target) : Program EngagementRecord := do
  let _ ← authorize caller target.hive
  let record ← call (.getEngagement caller.user target.content.id)
  if record.hive = target.hive then return record
  fail .notFound

/-- Reads the caller's records on several items of a hive. -/
def lookupEngagement (caller : Caller) (hive : ScopeId) (contents : List ContentId) :
    Program (Table ContentId EngagementRecord) := do
  let _ ← authorize caller hive
  ofExcept .ofLimit (checkLookup contents)
  let records ← call (.lookupEngagement caller.user contents)
  return records.filter fun _ record => record.hive = hive

end HiveForum
