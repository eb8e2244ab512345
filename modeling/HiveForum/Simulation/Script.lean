import HiveForum.Sql.Connection

/-!
# Scripted databases

A scripted database gives replies that were written down beforehand: one to each statement in
order, and a failure to the commands of a transaction where one is planned.

## Main definitions

* `ScriptedDatabase`: the replies that are left.
* `ScriptedDatabase.peer`: how it replies.
-/

namespace HiveForum

open Sql

/-- Replies that were written down beforehand. -/
structure ScriptedDatabase where
  replies : List Reply := []
  atBegin : Option Refusal := none
  atCommit : Option Refusal := none
  atRollback : Option Refusal := none

namespace ScriptedDatabase

/-- An answer without rows. -/
def empty : Reply := .ok ⟨[], 0⟩

/-- The reply to a command of a transaction, for which an error may be planned. -/
def control : Option Refusal → Reply
  | none => empty
  | some refusal => .error (.refused refusal)

/-- The reply to a statement: the next one written down, or an answer without rows. -/
def next (database : ScriptedDatabase) : Reply × ScriptedDatabase :=
  match database.replies with
  | [] => (empty, database)
  | reply :: rest => (reply, { database with replies := rest })

/-- How a scripted database replies; a planned error strikes once. -/
def peer : Peer ScriptedDatabase where
  reply
    | .begin, database => (control database.atBegin, { database with atBegin := none })
    | .commit, database => (control database.atCommit, { database with atCommit := none })
    | .rollback, database => (control database.atRollback, { database with atRollback := none })
    | .query _, database => database.next
    | .script _, database => database.next

end ScriptedDatabase

end HiveForum
