import HiveForum.Program.Basic
import HiveForum.Schedule.TaskGroup

/-!
# Running a program

A world carries out effects and keeps a clock. A program runs alone against a world: its effects
are carried out one after another, except that the units of a group run side by side in time. The
units of a group change the world in the order in which they were spawned; the clock of each
starts when it gets its slot, and the clock after the group shows when the last unit has ended.

## Main definitions

* `World`: how a state carries out effects, and its clock.
* `Outcome`: how a run ends.
* `Program.run`: the run of a program.
-/

namespace HiveForum

/-- How a state carries out effects, and its clock in milliseconds. -/
structure World (σ : Type) where
  perform : (effect : Effect) → σ → effect.Reply × σ
  time : σ → Nat
  setTime : σ → Nat → σ

/-- Why a run gives no value. -/
inductive Stop where
  | failed (error : OperationError)
  | unfinished
deriving DecidableEq

/-- How a run ends. -/
abbrev Outcome (α : Type) : Type := Except Stop α

/-- A unit of work that a program has spawned. -/
abbrev Spawned (σ : Type) : Type := WorkUnit σ Stop Unit

/-- The result that an outcome stands for; none for a run without end. -/
def Outcome.result? {α : Type} : Outcome α → Option (Except OperationError α)
  | .ok value => some (.ok value)
  | .error (.failed error) => some (.error error)
  | .error .unfinished => none

/-- The results of a group whose spawning program and units have ended; none if one of them has no
end. -/
def gathered? {σ : Type} (spawner : Outcome Unit) (group : TaskGroup σ Stop Unit) :
    Option Gathered :=
  if group.failures.any (· = .unfinished) then none
  else do
    let spawner ← spawner.result?
    let units ← Outcome.result? (group.joined.map fun _ => ())
    some ⟨spawner, units⟩

namespace Program

variable {σ : Type}

/-- Runs a program; the last component lists the units spawned so far in the surrounding group. -/
def runWith (world : World σ) {α : Type} : Program α → σ → List (Spawned σ) →
    Outcome α × σ × List (Spawned σ)
  | .done value, state, units => (.ok value, state, units)
  | .fail error, state, units => (.error (.failed error), state, units)
  | .unfinished, state, units => (.error .unfinished, state, units)
  | .perform effect next, state, units =>
    let (reply, state) := world.perform effect state
    (next reply).runWith world state units
  | .spawn unit next, state, units =>
    let spawned : Spawned σ :=
      { arrival := world.time state
        work := fun start state =>
          let (outcome, state, _) := unit.runWith world (world.setTime state start) []
          (outcome, world.time state, state) }
    next.runWith world state (units ++ [spawned])
  | .gather limit spawner next, state, units =>
    let (outcome, state, spawned) := spawner.runWith world state []
    let group := TaskGroup.run limit spawned state
    let state := world.setTime group.state (group.finishedAt (world.time state))
    match gathered? outcome group with
    | none => (.error .unfinished, state, units)
    | some gathered => (next gathered).runWith world state units

/-- Runs a program alone. -/
def run {α : Type} (program : Program α) (world : World σ) (state : σ) : Outcome α × σ :=
  let (outcome, state, _) := program.runWith world state []
  (outcome, state)

end Program

end HiveForum
