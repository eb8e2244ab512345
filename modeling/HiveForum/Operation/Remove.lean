import HiveForum.Operation.Browse
import HiveForum.Operation.Publish

/-!
# Deleting content

An item is deleted with everything under it: its comments, each with what is under it, then the
records of users on it, then the item itself. Comments and batches of records are deleted side by
side; the item goes only when all of them have gone. A deletion that fails half-way leaves the item
in place, and deleting it again finishes the work.

## Main definitions

* `deleteBatch`: one batch of records, retried on the backoff ladder.
* `cascade`: an item with everything under it.
* `deleteContent`: the operation.
-/

namespace HiveForum

open Program

/-- What a batch call leaves to do: the keys that are left, none if all are done. A call that
fails for the moment leaves all of them. -/
def remainingKeys (pending : List EngagementKey) :
    Except StoreError (List EngagementKey) → Except StoreError (List EngagementKey)
  | .ok unprocessed => .ok unprocessed
  | .error error => if error.isTransient then .ok pending else .error error

/-- Deletes records on a ladder with `left` attempts left. -/
def deleteBatchFrom (settings : BackoffSettings) (left : Nat) (pending : List EngagementKey) :
    Program Unit := do
  let result ← tryCall (.deleteEngagements pending)
  match result with
  | .ok [] => return ()
  | _ =>
    let pending ← ofExcept .ofStore (remainingKeys pending result)
    match left with
    | 0 => fail (.retriesExhausted (⟨settings, 0⟩ : Backoff).attempts pending.length)
    | left + 1 => do
      let word ← randomWord
      pause ((⟨settings, left⟩ : Backoff).delay word)
      deleteBatchFrom settings left pending

/-- Deletes one batch of records, retrying what the store leaves undone. -/
def deleteBatch (settings : BackoffSettings) (keys : List EngagementKey) : Program Unit :=
  deleteBatchFrom settings (Backoff.new settings).left keys

/-- The page that a program gives; none if what it pages through is not there. -/
def unlessNotFound {α : Type} (program : Program α) : Program (Option α) := do
  match ← program.attempt with
  | .ok value => return some value
  | .error .notFound => return none
  | .error error => fail error

/-- Spawns the deletion of every record of an item, one batch for each page. -/
def spawnRecords (settings : Settings) (content : ContentId) :
    (pages : Nat) → Option UserId → Program Unit
  | 0, _ => unfinished
  | pages + 1, startAfter => do
    let query : EngagementQuery := ⟨content, Limit.batchWrite, startAfter⟩
    match ← unlessNotFound (call (.queryEngagement query)) with
    | none => return ()
    | some page =>
      if !page.records.isEmpty then
        fork (deleteBatch settings.backoff (page.records.map (·.key)))
      match page.lastEvaluated with
      | none => return ()
      | some user => spawnRecords settings content pages (some user)

/-- Spawns a unit for every item of a scope. -/
def spawnChildren (settings : Settings) (rounds : Nat) (scope : ScopeId)
    (unit : ContentItem → Program Unit) : (pages : Nat) → Option IndexKey → Program Unit
  | 0, _ => unfinished
  | pages + 1, startAfter => do
    match ← unlessNotFound (collect settings rounds (.children scope startAfter)) with
    | none => return ()
    | some collected =>
      forkAll (collected.items.map unit)
      match collected.next with
      | none => return ()
      | some position => spawnChildren settings rounds scope unit pages (some position)

/-- Deletes an item with everything under it, and tells whether the item itself was still there.
Items nest `depth` deep at most; a listing takes `pages` pages and rounds at most. -/
def cascade (settings : Settings) (pages : Nat) : (depth : Nat) → ContentKey → ContentKind →
    Program Bool
  | 0, _, _ => unfinished
  | depth + 1, key, kind => do
    let gathered ← group settings.cascadeConcurrency do
      if kind = .post then
        spawnChildren settings pages key.id.asScope
          (fun child => do let _ ← cascade settings pages depth child.key child.kind) pages none
      spawnRecords settings key.id pages none
    ofExcept id gathered.spawner
    ofExcept id gathered.units
    match ← tryCall (.deleteContent key) with
    | .ok () => return true
    | .error error =>
      if error.isNotFound then return false
      fail (.ofStore error)

/-- Deletes an item with everything under it. An item that is gone already counts as deleted. Only
its author and the moderators of its hive may delete it; the count of comments of the post above a
deleted comment follows as far as the store allows. -/
def deleteContent (settings : Settings) (horizon : Nat) (caller : Caller) (target : Target) :
    Program Unit := do
  let role ← authorize caller target.hive
  match ← unlessNotFound (loadTarget target) with
  | none => return ()
  | some item =>
    if item.author ≠ caller.user ∧ ¬role.permits .moderator then
      fail (.unauthorized .notAuthor)
    let deleted ← cascade settings horizon horizon item.key item.kind
    if deleted ∧ item.kind = .comment then
      let _ ← tryCall (.adjustCounts ⟨item.hive, item.scope.asContent⟩ (.ofComments (-1)))

end HiveForum
