/-!
# Task groups

A task group runs units of work side by side, no more than a limit at once. Every unit has a task,
and a task needs a permit, which the tasks get in the order in which they were spawned. A task that
has got its permit looks at a flag: if a unit has failed it skips its own, else the unit runs. When
a unit fails its task sets the flag, and only then gives the permit back. A join takes the tasks in
the order in which they end; it collects the outputs and keeps the first error.

`pass`, `enter`, `conclude` and `release` are the moves of a group. `run` is a schedule of them: a
unit gets its permit as soon as there is one, after all that ends by then.

## Main definitions

* `WorkUnit`: a unit with the time of its arrival; from its start it gives a result and the time
  of its end.
* `TaskGroup.Turn`: what becomes of a unit that gets its permit.
* `TaskGroup`: the permits, the flag and the tasks of the units so far.
* `TaskGroup.run`: a group that runs all of a list of units.
* `TaskGroup.joined`: the result of a group.
-/

namespace HiveForum

/-- A unit of work over a state `σ`. -/
structure WorkUnit (σ ε β : Type) where
  arrival : Nat
  work : Nat → σ → Except ε β × Nat × σ

/-- What becomes of a unit. -/
inductive UnitRun (ε β : Type) where
  | skipped
  | ran (finish : Nat) (result : Except ε β)

/-- What becomes of a unit whose task gets a permit. -/
structure TaskGroup.Turn (ε β : Type) where
  /-- The place of the unit in the order of spawning. -/
  index : Nat
  slot : Nat
  run : UnitRun ε β

namespace TaskGroup.Turn

variable {ε β : Type}

/-- When the unit ends; at once if it is skipped. -/
def finish (turn : Turn ε β) : Nat :=
  match turn.run with
  | .skipped => turn.slot
  | .ran finish _ => finish

def started (turn : Turn ε β) : Bool :=
  match turn.run with
  | .skipped => false
  | .ran .. => true

def error? (turn : Turn ε β) : Option ε :=
  match turn.run with
  | .ran _ (.error error) => some error
  | _ => none

def output? (turn : Turn ε β) : Option β :=
  match turn.run with
  | .ran _ (.ok output) => some output
  | _ => none

end TaskGroup.Turn

/-- A group some of whose tasks have got their permits. -/
structure TaskGroup (σ ε β : Type) where
  state : σ
  clock : Nat
  permits : Nat
  failed : Bool
  admitted : Nat
  /-- The tasks whose units run, in the order in which these will end. -/
  running : List (TaskGroup.Turn ε β)
  leaving : List (TaskGroup.Turn ε β)
  /-- The tasks that have ended, in the order of their ends. -/
  ended : List (TaskGroup.Turn ε β)

namespace TaskGroup

variable {σ ε β : Type}

/-- The group without units; at least one unit may run. -/
def new (limit : Nat) (state : σ) : TaskGroup σ ε β where
  state
  clock := 0
  permits := max limit 1
  failed := false
  admitted := 0
  running := []
  leaving := []
  ended := []

/-! ### Moves -/

/-- The clock goes on to a time. -/
def pass (group : TaskGroup σ ε β) (time : Nat) : TaskGroup σ ε β :=
  { group with clock := max group.clock time }

/-- Adds a task to those that run. -/
def enqueue (turn : Turn ε β) : List (Turn ε β) → List (Turn ε β)
  | [] => [turn]
  | other :: rest =>
    if turn.finish < other.finish then turn :: other :: rest else other :: enqueue turn rest

/-- The task of the next unit gets a permit, and skips the unit. -/
def skip (group : TaskGroup σ ε β) : TaskGroup σ ε β :=
  { group with
    permits := group.permits - 1
    admitted := group.admitted + 1
    leaving := group.leaving ++ [⟨group.admitted, group.clock, .skipped⟩] }

/-- The task of the next unit gets a permit, and the unit starts. -/
def start (group : TaskGroup σ ε β) (unit : WorkUnit σ ε β) : TaskGroup σ ε β :=
  let (result, finish, state) := unit.work group.clock group.state
  { group with
    state
    permits := group.permits - 1
    admitted := group.admitted + 1
    running := enqueue ⟨group.admitted, group.clock, .ran finish result⟩ group.running }

/-- The task of the next unit gets a permit, and looks at the flag. -/
def enter (group : TaskGroup σ ε β) (unit : WorkUnit σ ε β) : TaskGroup σ ε β :=
  if group.failed then group.skip else group.start unit

/-- The unit of a task ends while `others` run on. If it has failed, the task sets the flag. -/
def conclude (group : TaskGroup σ ε β) (turn : Turn ε β) (others : List (Turn ε β)) :
    TaskGroup σ ε β :=
  { group with
    failed := group.failed || turn.error?.isSome
    running := others
    leaving := group.leaving ++ [turn] }

/-- A task gives its permit back, and so has ended, while `others` are still to do so. -/
def release (group : TaskGroup σ ε β) (turn : Turn ε β) (others : List (Turn ε β)) :
    TaskGroup σ ε β :=
  { group with
    permits := group.permits + 1
    leaving := others
    ended := group.ended ++ [turn] }

/-! ### A schedule -/

/-- The first task that has nothing more to do ends. -/
def releaseFirst (group : TaskGroup σ ε β) : TaskGroup σ ε β :=
  match group.leaving with
  | [] => group
  | turn :: others => group.release turn others

/-- The unit that is the first to end does so, and its task as well. -/
def endFirst (group : TaskGroup σ ε β) : TaskGroup σ ε β :=
  match group.running with
  | [] => group
  | turn :: others => ((group.pass turn.finish).conclude turn others).releaseFirst

/-- As many units end, one after another, as there are in the list. -/
def settle (group : TaskGroup σ ε β) (due : List (Turn ε β)) : TaskGroup σ ε β :=
  due.foldl (fun group _ => group.endFirst) group

/-- When the task of a unit gets a permit: when the unit arrives if one is left, else when the next
unit ends. -/
def opening (group : TaskGroup σ ε β) (arrival : Nat) : Nat :=
  match group.permits, group.running with
  | 0, turn :: _ => max arrival turn.finish
  | _, _ => arrival

/-- The units that end before the task of the next unit gets its permit. -/
def due (group : TaskGroup σ ε β) (unit : WorkUnit σ ε β) : List (Turn ε β) :=
  group.running.takeWhile fun turn => turn.finish ≤ group.opening unit.arrival

/-- The group when the task of the next unit can have its permit. -/
def await (group : TaskGroup σ ε β) (unit : WorkUnit σ ε β) : TaskGroup σ ε β :=
  (group.settle (group.due unit)).pass unit.arrival

/-- The group when the task of the next unit has got its permit. -/
def add (group : TaskGroup σ ε β) (unit : WorkUnit σ ε β) : TaskGroup σ ε β :=
  ((group.await unit).enter unit).releaseFirst

/-- The group after all units of a list. -/
def run (limit : Nat) (units : List (WorkUnit σ ε β)) (state : σ) : TaskGroup σ ε β :=
  let group := units.foldl add (new limit state)
  group.settle group.running

/-! ### The result -/

/-- All tasks that have got their permits. -/
def turns (group : TaskGroup σ ε β) : List (Turn ε β) :=
  group.ended ++ group.leaving ++ group.running

/-- What became of the units. -/
def runs (group : TaskGroup σ ε β) : List (UnitRun ε β) := group.turns.map (·.run)

/-- The errors of the units that failed. -/
def failures (group : TaskGroup σ ε β) : List ε := group.turns.filterMap (·.error?)

/-- The places of the units that started. -/
def started (group : TaskGroup σ ε β) : List Nat :=
  (group.turns.filter (·.started)).map (·.index)

/-- A join that goes on with the tasks in the order in which they end, and that has taken some
outputs and perhaps an error before. -/
def collect : List (Turn ε β) → List β → Option ε → Except ε (List β)
  | [], outputs, none => .ok outputs
  | [], _, some error => .error error
  | turn :: turns, outputs, first =>
    match turn.run with
    | .skipped => collect turns outputs first
    | .ran _ (.ok output) => collect turns (outputs ++ [output]) first
    | .ran _ (.error error) => collect turns outputs (first <|> some error)

/-- What a join returns when all tasks have ended. -/
def joined (group : TaskGroup σ ε β) : Except ε (List β) := collect group.ended [] none

/-- When a join returns that begins at `time`, if all tasks have ended. -/
def finishedAt (group : TaskGroup σ ε β) (time : Nat) : Nat := max time group.clock

end TaskGroup

end HiveForum
