import HiveForum.Postgres.Plan

/-!
# The store in a database

A store in a database carries out the plan of each call over a connection. A transaction is opened,
and ends with a commit; if it cannot, its changes are taken back, unless the connection is gone.

## Main definitions

* `Postgres.Dialogue.run`: the course of a transaction that has been opened.
* `Postgres.Plan.run`: the course of a call.
* `Postgres.Store`: a store whose connections are open or closed.
* `Postgres.Store.answer`: the answer to a call.
-/

namespace HiveForum.Postgres

open Sql

variable {σ α : Type}

/-- What is sent after a command of a transaction has failed: the changes are taken back, unless the
connection is gone. -/
def withdraw (peer : Peer σ) (failure : Failure) (state : σ) : List Command × σ :=
  match failure with
  | .refused _ => ([.rollback], (peer.reply .rollback state).2)
  | .disconnected => ([], state)

/-- The course of a transaction that has been opened. -/
def Dialogue.run (peer : Peer σ) : Dialogue α → σ → Transcript (Except StoreError α) × σ
  | .commit value, state =>
    match peer.reply .commit state with
    | (.ok _, state) => (⟨.ok value, [.commit]⟩, state)
    | (.error failure, state) =>
      let (sent, state) := withdraw peer failure state
      (⟨.error failure.storeError, .commit :: sent⟩, state)
  | .abort error, state => (⟨.error error, [.rollback]⟩, (peer.reply .rollback state).2)
  | .ask query next, state =>
    match peer.reply (.query query) state with
    | (.ok answer, state) =>
      let (transcript, state) := (next answer).run peer state
      (⟨transcript.value, .query query :: transcript.sent⟩, state)
    | (.error failure, state) =>
      let (sent, state) := withdraw peer failure state
      (⟨.error failure.storeError, .query query :: sent⟩, state)

/-- The course of a call. -/
def Plan.run (peer : Peer σ) : Plan α → σ → Transcript (Except StoreError α) × σ
  | .known answer, state => (⟨answer, []⟩, state)
  | .single query read, state =>
    let (reply, state) := peer.reply (.query query) state
    (⟨read reply, [.query query]⟩, state)
  | .transaction dialogue, state =>
    match peer.reply .begin state with
    | (.ok _, state) =>
      let (transcript, state) := dialogue.run peer state
      (⟨transcript.value, .begin :: transcript.sent⟩, state)
    | (.error failure, state) => (⟨.error failure.storeError, [.begin]⟩, state)

/-- Without a connection, only what needs none is answered. -/
def Plan.offline : Plan α → Except StoreError α
  | .known answer => answer
  | .single _ _ | .transaction _ => .error .unavailable

/-- A store in a database. -/
structure Store where
  isOpen : Bool := true
deriving DecidableEq, Inhabited

namespace Store

/-- The store without connections. -/
def close (_ : Store) : Store := ⟨false⟩

/-- The answer to a call, with what was sent for it. -/
def answer (store : Store) (peer : Peer σ) (request : Request) (state : σ) :
    Transcript (Except StoreError request.Answer) × σ :=
  if store.isOpen then (plan request).run peer state else (⟨(plan request).offline, []⟩, state)

end Store

end HiveForum.Postgres
