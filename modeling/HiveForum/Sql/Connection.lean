import HiveForum.Sql.Printer
import HiveForum.Store.Error

/-!
# Connections to a database

A connection takes commands one at a time and answers each. What stands at its other end is any
state that replies to commands.

## Main definitions

* `Sql.Command`: what is sent.
* `Sql.Reply`: what comes back.
* `Sql.Peer`: the other end of a connection.
* `Sql.Failure.storeError`: the error of a store that a failed command stands for.
-/

namespace HiveForum.Sql

/-- What is sent to a database. -/
inductive Command where
  | begin
  | commit
  | rollback
  | query (query : Query)
  | script (text : String)
deriving DecidableEq

namespace Command

/-- The text that is sent. -/
def text : Command → String
  | .begin => "BEGIN"
  | .commit => "COMMIT"
  | .rollback => "ROLLBACK"
  | .query q => q.statement.text
  | .script s => s

/-- The values that are sent along. -/
def params : Command → List Value
  | .query q => q.params
  | _ => []

end Command

/-- The rows that a statement answers with, and the number of rows it touched. -/
structure Answered where
  rows : List Row
  affected : Nat
deriving DecidableEq, Inhabited

/-- An error that the database reports. -/
structure Refusal where
  code : String
  message : String
deriving DecidableEq

/-- Two rows would agree on a primary key. -/
def Refusal.isUniqueViolation (refusal : Refusal) : Bool := refusal.code == "23505"

/-- Why a command has no answer. -/
inductive Failure where
  | refused (refusal : Refusal)
  | disconnected
deriving DecidableEq

/-- The error of a store that a failed command stands for. -/
def Failure.storeError : Failure → StoreError
  | .refused refusal => .database s!"error returned from database: {refusal.message}"
  | .disconnected => .unavailable

/-- What comes back for a command. -/
abbrev Reply : Type := Except Failure Answered

/-- The other end of a connection: how a state replies to commands. -/
structure Peer (σ : Type) where
  reply : Command → σ → Reply × σ

/-- A value with the commands that were sent for it, the first one first. -/
structure Transcript (α : Type) where
  value : α
  sent : List Command := []
deriving DecidableEq

end HiveForum.Sql
