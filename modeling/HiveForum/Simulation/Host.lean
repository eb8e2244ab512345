import HiveForum.Operation
import HiveForum.Program.Run
import HiveForum.Schedule.Deadline
import HiveForum.Simulation.Sources
import HiveForum.Store.Memory

/-!
# Hosts

A host runs the operations of the forum over a store in memory and a directory. Its clock counts
milliseconds and moves only while a call or a pause takes time. Every call to the store is bounded
by a timeout and by the deadline of the session that makes it.

## Main definitions

* `Host`: the store, the directory, and the sources of time stamps, identifiers and random words.
* `Session`: the bounds that an operation runs under.
* `Host.world`: how a host carries out effects.
* `Host.execute`: the run of an operation.
-/

namespace HiveForum

/-- Why a notification is not delivered. -/
structure NotifyError where
  reason : String
deriving DecidableEq

/-- What the delivery of a notification answers. -/
abbrev Notifier : Type := Notification → Except NotifyError Unit

/-- A running forum. -/
structure Host where
  settings : Settings := {}
  store : MemoryStore := {}
  directory : Directory := .empty
  stamps : StampClock
  ids : IdSource := {}
  randoms : RandomSource := ⟨[]⟩
  /-- The milliseconds since the start. -/
  time : Nat := 0
  notifier : Notifier := fun _ => .ok ()
  /-- The notifications sent so far, the latest last. -/
  sent : List Notification := []
  /-- Why notifications were not delivered, the latest last. -/
  undelivered : List NotifyError := []

/-- The bounds that an operation runs under. -/
structure Session where
  deadline : Option Deadline := none
deriving DecidableEq, Inhabited

namespace Session

/-- The session bounded by one more deadline. -/
def withDeadline (session : Session) (deadline : Deadline) : Session :=
  ⟨some (deadline.earliest session.deadline)⟩

/-- The deadline of a call that is made now. -/
def callDeadline (session : Session) (settings : Settings) (now : Nat) : Deadline :=
  (Deadline.after now settings.callTimeout.toNat).earliest session.deadline

/-- Whether a pause that starts now ends in time. -/
def allows (session : Session) (delay : UInt64) (now : Nat) : Bool :=
  match session.deadline with
  | none => true
  | some deadline => decide (delay.toNat < deadline.remaining now)

/-- The milliseconds left; zero if there is no deadline. -/
def remaining (session : Session) (now : Nat) : Nat :=
  match session.deadline with
  | none => 0
  | some deadline => deadline.remaining now

end Session

namespace Host

/-- The host some milliseconds later. -/
def advance (host : Host) (millis : Nat) : Host := { host with time := host.time + millis }

/-- The answer of the store at the present time. -/
def answer (host : Host) (request : Request) : Except StoreError request.Answer × Host :=
  let (answer, store) := host.store.answer request
  (answer, { host with store := store })

/-- Waits as long as a call to the store takes. If that is past the bound, the wait ends at the
bound and gives false. -/
def await (host : Host) (bound : Option Deadline) : Bool × Host :=
  let later := host.advance host.store.latency
  match bound with
  | none => (true, later)
  | some deadline =>
    if deadline.instant < later.time then (false, { host with time := deadline.instant })
    else (true, later)

/-- Calls the store within a bound; a call that would end past the bound has no effect. -/
def callWithin (host : Host) (bound : Option Deadline) (request : Request) :
    Except StoreError request.Answer × Host :=
  match host.await bound with
  | (false, host) => (.error .timeout, host)
  | (true, host) => host.answer request

/-- Calls the store in a session; no call is made when the time is up. -/
def callStore (session : Session) (host : Host) (request : Request) :
    Except StoreError request.Answer × Host :=
  let deadline := session.callDeadline host.settings host.time
  if deadline.isExpired host.time then (.error .timeout, host)
  else host.callWithin (some deadline) request

/-- Sends a notification; what the delivery answers is noted and changes nothing else. -/
def send (host : Host) (notification : Notification) : Host :=
  let host := { host with sent := host.sent ++ [notification] }
  match host.notifier notification with
  | .ok () => host
  | .error error => { host with undelivered := host.undelivered ++ [error] }

/-- Waits, unless the time of the session would be up. -/
def pause (session : Session) (host : Host) (delay : UInt64) : Except Outage Unit × Host :=
  if session.allows delay host.time then (.ok (), host.advance delay.toNat)
  else (.error .deadline, host)

/-- Carries out an effect in a session. -/
def perform (session : Session) : (effect : Effect) → Host → effect.Reply × Host
  | .store request, host => host.callStore session request
  | .membership caller hive, host => (host.directory.checkMember caller hive, host)
  | .timestamp, host =>
    let (stamp, stamps) := host.stamps.tick
    (stamp, { host with stamps := stamps })
  | .newContentId, host =>
    let (id, ids) := host.ids.draw
    (⟨id⟩, { host with ids := ids })
  | .randomWord, host =>
    let (word, randoms) := host.randoms.draw
    (word, { host with randoms := randoms })
  | .pause delay, host => host.pause session delay
  | .notify notification, host => ((), host.send notification)

/-- How a host carries out the effects of an operation in a session. -/
def world (session : Session) : World Host where
  perform := perform session
  time := time
  setTime host time := { host with time := time }

/-- The number of items and records, and two more: no walk over the store takes more pages. Where
posts lie below themselves a deletion goes on until its time is up, with a millisecond at least for
each level if calls take time. -/
def horizon (host : Host) (session : Session) : Nat :=
  host.store.state.items.length + host.store.state.records.length + 2 +
    session.remaining host.time

/-- Runs an operation in a session. -/
def execute (host : Host) (session : Session) (op : Operation) : Outcome op.Result × Host :=
  (op.program host.settings (host.horizon session)).run (world session) host

end Host

end HiveForum
