import HiveForum.Proofs.Program.Trace
import HiveForum.Simulation.Host
import HiveForum.Proofs.Schedule.Moves
import Mathlib.Data.List.Forall2

/-!
# Hosts in company

An operation is seldom alone on its host. Between two of its effects others may change what is
stored, switch the store off, make it slower or faster, and use up random words. The operation may
find anything there when it goes on; only its settings, its session and the clock remain. Its
effects are entered into a journal, each as the host was before and after it.

## Main definitions

* `World.Shows`: a world does what another one does, as far as can be seen in it.
* `Company`: what others make of the store and of the random words before an effect.
* `Host.worldAmong`, `Host.executeAmong`: the run of an operation in company, with its journal.

## Main results

* `Program.run_shows`: a run looks the same in both worlds.
* `Host.execute_eq_executeAmong`: where there are no others, the operation runs as it does alone.
-/

namespace HiveForum

variable {σ τ ε β : Type}

/-! ### Views of a world -/

/-- What can be seen of the states of one world is what the other world does. -/
structure World.Shows (world : World σ) (other : World τ) (view : σ → τ) : Prop where
  perform : ∀ (effect : Effect) (state : σ), other.perform effect (view state) =
    ((world.perform effect state).1, view (world.perform effect state).2)
  time : ∀ state, other.time (view state) = world.time state
  setTime : ∀ state time, other.setTime (view state) time = view (world.setTime state time)

/-- The units arrive at the same time, and what can be seen of the one is what the other does. -/
structure WorkUnit.Shows (view : σ → τ) (unit : WorkUnit σ ε β) (other : WorkUnit τ ε β) :
    Prop where
  arrival : other.arrival = unit.arrival
  work : ∀ start state, other.work start (view state) =
    ((unit.work start state).1, (unit.work start state).2.1, view (unit.work start state).2.2)

namespace TaskGroup

theorem seen_enter {view : σ → τ} (group : TaskGroup σ ε β) {unit : WorkUnit σ ε β}
    {other : WorkUnit τ ε β} (h : unit.Shows view other) :
    (group.seen view).enter other = (group.enter unit).seen view := by
  obtain ⟨state, clock, permits, failed, admitted, running, leaving, ended⟩ := group
  cases failed with
  | true => rfl
  | false => simp [enter, start, seen, h.work clock state]

theorem seen_add {view : σ → τ} (group : TaskGroup σ ε β) {unit : WorkUnit σ ε β}
    {other : WorkUnit τ ε β} (h : unit.Shows view other) :
    (group.seen view).add other = (group.add unit).seen view := by
  have hawait : (group.seen view).await other = (group.await unit).seen view := by
    have hdue : (group.seen view).due other = group.due unit := by
      unfold due
      rw [h.arrival]
      rfl
    rw [await, await, hdue, h.arrival, seen_settle]
    rfl
  rw [add, add, hawait, seen_enter _ h, seen_releaseFirst]

/-- What can be seen of a run of units is the run of what can be seen of them. -/
theorem seen_run {view : σ → τ} {units : List (WorkUnit σ ε β)} {others : List (WorkUnit τ ε β)}
    (h : List.Forall₂ (WorkUnit.Shows view) units others) (limit : Nat) (state : σ) :
    run limit others (view state) = (run limit units state).seen view := by
  have hfold : ∀ group : TaskGroup σ ε β,
      others.foldl add (group.seen view) = (units.foldl add group).seen view := by
    induction h with
    | nil => exact fun _ => rfl
    | @cons unit other units others hunit _ ih =>
      intro group
      rw [List.foldl_cons, List.foldl_cons, group.seen_add hunit]
      exact ih _
  have hunits : others.foldl add (new limit (view state)) =
      (units.foldl add (new limit state)).seen view := hfold (new limit state)
  unfold run
  dsimp only
  rw [hunits, ← seen_settle]
  rfl

end TaskGroup

namespace Program

variable {world : World σ} {other : World τ} {view : σ → τ} {α : Type}

/-- A run looks the same in both worlds, and so do the units that it spawns. -/
theorem runWith_shows (shows : world.Shows other view) (p : Program α) (state : σ)
    {units : List (Spawned σ)} {others : List (Spawned τ)}
    (hunits : List.Forall₂ (WorkUnit.Shows view) units others) :
    (p.runWith other (view state) others).1 = (p.runWith world state units).1 ∧
      (p.runWith other (view state) others).2.1 = view (p.runWith world state units).2.1 ∧
        List.Forall₂ (WorkUnit.Shows view) (p.runWith world state units).2.2
          (p.runWith other (view state) others).2.2 := by
  induction p generalizing state units others with
  | done => exact ⟨rfl, rfl, hunits⟩
  | fail => exact ⟨rfl, rfl, hunits⟩
  | unfinished => exact ⟨rfl, rfl, hunits⟩
  | perform effect next ih =>
    simp only [runWith, shows.perform effect state]
    exact ih _ _ hunits
  | spawn unit next ihunit ih =>
    refine ih state (List.rel_append hunits (.cons ⟨shows.time state, fun start state => ?_⟩ .nil))
    obtain ⟨houtcome, hstate, -⟩ := ihunit (world.setTime state start) .nil
    dsimp only
    rw [shows.setTime, houtcome, hstate, shows.time]
  | gather limit spawner next ihspawner ih =>
    obtain ⟨houtcome, hstate, hspawned⟩ := ihspawner state .nil
    rcases hrun : spawner.runWith world state [] with ⟨outcome, middle, spawned⟩
    rcases hrun' : spawner.runWith other (view state) [] with ⟨outcome', middle', spawned'⟩
    rw [hrun, hrun'] at houtcome hstate hspawned
    obtain rfl : outcome' = outcome := houtcome
    obtain rfl : middle' = view middle := hstate
    have hgroup := TaskGroup.seen_run hspawned limit middle
    have hgathered : gathered? outcome' (TaskGroup.run limit spawned' (view middle)) =
        gathered? outcome' (TaskGroup.run limit spawned middle) := by
      rw [hgroup]
      rfl
    have hjoined : other.setTime (TaskGroup.run limit spawned' (view middle)).state
        ((TaskGroup.run limit spawned' (view middle)).finishedAt (other.time (view middle))) =
        view (world.setTime (TaskGroup.run limit spawned middle).state
          ((TaskGroup.run limit spawned middle).finishedAt (world.time middle))) := by
      rw [hgroup, shows.time, ← shows.setTime]
      rfl
    simp only [runWith, hrun, hrun', hgathered, hjoined]
    cases gathered? outcome' (TaskGroup.run limit spawned middle) with
    | none => exact ⟨rfl, rfl, hunits⟩
    | some gathered => exact ih gathered _ hunits

/-- A run looks the same in both worlds. -/
theorem run_shows (shows : world.Shows other view) (p : Program α) (state : σ) :
    p.run other (view state) = ((p.run world state).1, view (p.run world state).2) := by
  obtain ⟨houtcome, hstate, -⟩ := p.runWith_shows shows state (.nil : List.Forall₂ _ [] [])
  exact Prod.ext houtcome hstate

end Program

/-! ### Hosts -/

/-- What others make of the store and of the supply of random words before an effect, with all that
has happened by then in view. -/
abbrev Company : Type := List (Event Host) → Host → MemoryStore × RandomSource

namespace Company

/-- Nobody else is there. -/
def nobody : Company := fun _ host => (host.store, host.randoms)

/-- However others change the store, calls to it go on to take time. -/
def Slow (others : Company) : Prop :=
  ∀ journal host, 0 < host.store.latency → 0 < (others journal host).1.latency

theorem slow_nobody : nobody.Slow := fun _ _ h => h

end Company

namespace Host

/-- The host as others leave it after some effects. -/
def leftBy (host : Host) (others : Company) (journal : List (Event Host)) : Host :=
  { host with store := (others journal host).1, randoms := (others journal host).2 }

/-- How a host in company carries out the effects of an operation in a session. Every effect is
entered into the journal. -/
def worldAmong (session : Session) (others : Company) : World (Host × List (Event Host)) where
  perform effect state :=
    let before := state.1.leftBy others state.2
    let (reply, after) := before.perform session effect
    (reply, after, state.2 ++ [⟨effect, before, reply, after⟩])
  time state := state.1.time
  setTime state time := ({ state.1 with time := time }, state.2)

/-- Runs an operation in company, within some bound for walks over the store. -/
def executeAmong (host : Host) (session : Session) (others : Company) (horizon : Nat)
    (op : Operation) : Outcome op.Result × Host × List (Event Host) :=
  (op.program host.settings horizon).run (worldAmong session others) (host, [])

theorem shows_worldAmong (session : Session) :
    (worldAmong session .nobody).Shows (world session) Prod.fst where
  perform _ _ := rfl
  time _ := rfl
  setTime _ _ := rfl

/-- Where there are no others, an operation runs as it does alone. -/
theorem execute_eq_executeAmong (host : Host) (session : Session) (op : Operation) :
    host.execute session op =
      ((host.executeAmong session .nobody (host.horizon session) op).1,
        (host.executeAmong session .nobody (host.horizon session) op).2.1) :=
  Program.run_shows (shows_worldAmong session) _ (host, [])

end Host

end HiveForum
