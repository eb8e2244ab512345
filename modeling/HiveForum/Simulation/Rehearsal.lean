import HiveForum.Simulation.Fault

/-!
# Rehearsals

A rehearsal runs operations on a host whose calls are struck by planned faults, and notes the calls
that are made.

## Main definitions

* `Rehearsal`: a host with a plan of faults and the calls so far.
* `Rehearsal.world`: how a rehearsal carries out effects.
* `Rehearsal.execute`: the run of an operation.
* `Rehearsal.intervene`: a change of the store from outside.
* `Rehearsal.drain`: the pages of a listing, one after another.
* `Rehearsal.health`: what the forum answers when asked for its health.
-/

namespace HiveForum

/-- A host with a plan of faults and the calls made so far. -/
structure Rehearsal where
  host : Host
  plan : FaultPlan := []
  /-- The calls made so far, the latest first. -/
  calls : List CallKind := []

namespace Host

/-- Changes the store from outside, within a bound. Gives false if the bound ends the wait for the
store; the change is not made then. -/
def intervene (host : Host) (bound : Option Deadline) : Intervention → Bool × Host
  | .request request =>
    match host.await bound with
    | (false, host) => (false, host)
    | (true, host) => (true, (host.answer request).2)
  | .setAvailable available =>
    (true, { host with store := { host.store with available := available } })
  | .setWriteCapacity capacity =>
    (true, { host with store := { host.store with writeCapacity := capacity } })

/-- Lets the race of a fault happen, if it has one. -/
def raceWith (host : Host) (bound : Option Deadline) (fault : Fault) : Bool × Host :=
  match fault.race with
  | none => (true, host)
  | some intervention => host.intervene bound intervention

end Host

namespace Rehearsal

/-- The rehearsal with another host. -/
def withHost (rehearsal : Rehearsal) (host : Host) : Rehearsal := { rehearsal with host := host }

/-- Notes a call, and takes the fault that strikes it from the plan. -/
def note (rehearsal : Rehearsal) (kind : CallKind) : Option Fault × Rehearsal :=
  let (fault, plan) := rehearsal.plan.take kind
  (fault, { rehearsal with plan := plan, calls := kind :: rehearsal.calls })

/-- Calls the store within a bound, struck by a fault. -/
def strikeStore (host : Host) (bound : Option Deadline) (fault : Fault) (request : Request) :
    Except StoreError request.Answer × Host :=
  match host.raceWith bound fault with
  | (false, host) => (.error .timeout, host)
  | (true, host) =>
    match fault.error with
    | some error => (.error error, host)
    | none =>
      let (answer, host) := host.callWithin bound request
      (if fault.reverse then answer.map request.reversed else answer, host)

/-- Calls the store in a session. -/
def callStore (session : Session) (rehearsal : Rehearsal) (request : Request) :
    Except StoreError request.Answer × Rehearsal :=
  let host := rehearsal.host
  let deadline := session.callDeadline host.settings host.time
  if deadline.isExpired host.time then (.error .timeout, rehearsal)
  else
    match rehearsal.note request.kind with
    | (none, rehearsal) =>
      let (answer, host) := host.callWithin (some deadline) request
      (answer, rehearsal.withHost host)
    | (some fault, rehearsal) =>
      let (answer, host) := strikeStore host (some deadline) fault request
      (answer, rehearsal.withHost host)

/-- Asks the directory. -/
def checkMember (rehearsal : Rehearsal) (caller : Caller) (hive : ScopeId) :
    Except AccessError Role × Rehearsal :=
  match rehearsal.note .membership with
  | (none, rehearsal) => (rehearsal.host.directory.checkMember caller hive, rehearsal)
  | (some fault, rehearsal) =>
    let (_, host) := rehearsal.host.raceWith none fault
    match fault.accessError with
    | some error => (.error error, rehearsal.withHost host)
    | none => (host.directory.checkMember caller hive, rehearsal.withHost host)

/-- Carries out an effect in a session: calls are noted and struck, all else is the host's. -/
def perform (session : Session) : (effect : Effect) → Rehearsal → effect.Reply × Rehearsal
  | .store request, rehearsal => rehearsal.callStore session request
  | .membership caller hive, rehearsal => rehearsal.checkMember caller hive
  | effect, rehearsal =>
    let (reply, host) := Host.perform session effect rehearsal.host
    (reply, rehearsal.withHost host)

/-- How a rehearsal carries out the effects of an operation in a session. -/
def world (session : Session) : World Rehearsal where
  perform := perform session
  time rehearsal := rehearsal.host.time
  setTime rehearsal time := rehearsal.withHost { rehearsal.host with time := time }

/-- The pages that walks over the store may take: those of the host, and one for each strike, as a
race may store one item more. -/
def horizon (rehearsal : Rehearsal) (session : Session) : Nat :=
  rehearsal.host.horizon session + rehearsal.plan.strikes

/-- Runs an operation in a session. -/
def execute (rehearsal : Rehearsal) (session : Session) (op : Operation) :
    Outcome op.Result × Rehearsal :=
  (op.program rehearsal.host.settings (rehearsal.horizon session)).run (world session) rehearsal

/-- The pages of a listing, one after another, `pages` at most. -/
def drain (rehearsal : Rehearsal) (session : Session) (caller : Caller) (hive : ScopeId)
    (request : ListRequest) (pages : Nat) : Outcome (List ListPage) × Rehearsal :=
  (browseContent rehearsal.host.settings (rehearsal.horizon session) caller hive request
    (List.replicate pages request.limit) request.cursor).run (world session) rehearsal

/-- What the forum answers when asked for its health: 200 if the store is there, else 503. -/
def health (rehearsal : Rehearsal) (session : Session) : Outcome Nat × Rehearsal :=
  match rehearsal.execute session .ping with
  | (.ok (), rehearsal) => (.ok 200, rehearsal)
  | (.error (.failed _), rehearsal) => (.ok 503, rehearsal)
  | (.error .unfinished, rehearsal) => (.error .unfinished, rehearsal)

end Rehearsal

end HiveForum
