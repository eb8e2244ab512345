import HiveForum.Program.Run
import HiveForum.Proofs.Isolation.Confinement
import HiveForum.Proofs.Schedule.Moves
import Mathlib.Data.List.Forall2

/-!
# Runs that cannot be told apart

Two runs of a program that keeps to a hive take the same course from states in which the view of the
hive finds the same: whatever is behind the veil, the program goes on in the same way, so that both
runs are at the same point of the same program all along.

## Main definitions

* `WorkUnit.Alike`, `TaskGroup.Alike`: units of work, and groups, that take the same course.
* `World.Aligned`: a world keeps states alike when an effect concerns the hive only.

## Main results

* `TaskGroup.run_alike`: groups of units that are alike take the same course.
* `Program.Confined.runWith_alike`, `Program.Confined.run_alike`: a program that keeps to a hive has
  the same outcome from states that are alike, and leaves states that are alike.
-/

namespace HiveForum

variable {σ ε β : Type} {Related : σ → σ → Prop}

/-- The units arrive at the same time, and from states that are alike they have the same result at
the same time and leave states that are alike. -/
structure WorkUnit.Alike (Related : σ → σ → Prop) (unit other : WorkUnit σ ε β) : Prop where
  arrival : unit.arrival = other.arrival
  result : ∀ {state state'} start, Related state state' →
    (unit.work start state).1 = (other.work start state').1
  finish : ∀ {state state'} start, Related state state' →
    (unit.work start state).2.1 = (other.work start state').2.1
  state : ∀ {state state'} start, Related state state' →
    Related (unit.work start state).2.2 (other.work start state').2.2

namespace TaskGroup

/-- The groups have taken the same course so far, and are in states that are alike. -/
structure Alike (Related : σ → σ → Prop) (group other : TaskGroup σ ε β) : Prop where
  course : group.seen (fun _ => ()) = other.seen fun _ => ()
  state : Related group.state other.state

theorem Alike.settle {group other : TaskGroup σ ε β} (h : group.Alike Related other)
    (due : List (Turn ε β)) : (group.settle due).Alike Related (other.settle due) where
  course := by rw [← seen_settle, ← seen_settle, h.course]
  state := by
    rw [(ahead_settle group due).state, (ahead_settle other due).state]
    exact h.state

theorem Alike.releaseFirst {group other : TaskGroup σ ε β} (h : group.Alike Related other) :
    group.releaseFirst.Alike Related other.releaseFirst where
  course := by rw [← seen_releaseFirst, ← seen_releaseFirst, h.course]
  state := by
    rw [(ahead_releaseFirst group).state, (ahead_releaseFirst other).state]
    exact h.state

theorem Alike.enter {group other : TaskGroup σ ε β} {unit unit' : WorkUnit σ ε β}
    (h : group.Alike Related other) (hunit : unit.Alike Related unit') :
    (group.enter unit).Alike Related (other.enter unit') := by
  obtain ⟨state, clock, permits, failed, admitted, running, leaving, ended⟩ := group
  obtain ⟨state', clock', permits', failed', admitted', running', leaving', ended'⟩ := other
  obtain ⟨hcourse, hstate⟩ := h
  obtain ⟨-, rfl, rfl, rfl, rfl, rfl, rfl, rfl⟩ := TaskGroup.mk.inj hcourse
  cases failed with
  | true => exact ⟨rfl, hstate⟩
  | false =>
    refine ⟨?_, hunit.state clock hstate⟩
    simp [TaskGroup.enter, start, seen, hunit.result clock hstate, hunit.finish clock hstate]

theorem Alike.add {group other : TaskGroup σ ε β} {unit unit' : WorkUnit σ ε β}
    (h : group.Alike Related other) (hunit : unit.Alike Related unit') :
    (group.add unit).Alike Related (other.add unit') := by
  have hdue : group.due unit = other.due unit' := by
    have hseen : (group.seen fun _ => ()).running.takeWhile (fun turn =>
        turn.finish ≤ (group.seen fun _ => ()).opening unit.arrival) = other.due unit' := by
      rw [h.course, hunit.arrival]
      rfl
    exact hseen
  have hawait : (group.await unit).Alike Related (other.await unit') := by
    obtain ⟨hcourse, hstate⟩ := h.settle (group.due unit)
    unfold await
    rw [← hdue, ← hunit.arrival]
    exact ⟨congrArg (·.pass unit.arrival) hcourse, hstate⟩
  exact (hawait.enter hunit).releaseFirst

/-- Groups of units that are alike take the same course from states that are alike. -/
theorem run_alike {units others : List (WorkUnit σ ε β)} {state state' : σ} (limit : Nat)
    (h : List.Forall₂ (WorkUnit.Alike Related) units others) (hstate : Related state state') :
    (run limit units state).Alike Related (run limit others state') := by
  have hfold : ∀ {group other : TaskGroup σ ε β}, group.Alike Related other →
      (units.foldl add group).Alike Related (others.foldl add other) := by
    induction h with
    | nil => exact id
    | cons hunit _ ih => exact fun hgroup => ih (hgroup.add hunit)
  have hgroup : (units.foldl add (new limit state)).Alike Related
      (others.foldl add (new limit state')) := hfold ⟨rfl, hstate⟩
  have hrunning : (units.foldl add (new limit state)).running =
      (others.foldl add (new limit state')).running := congrArg (·.running) hgroup.course
  unfold run
  dsimp only
  rw [← hrunning]
  exact hgroup.settle (units.foldl add (new limit state)).running

end TaskGroup

theorem gathered?_congr {group other : TaskGroup σ Stop Unit} (spawner : Outcome Unit)
    (h : group.seen (fun _ => ()) = other.seen fun _ => ()) :
    gathered? spawner group = gathered? spawner other := by
  change gathered? spawner (group.seen fun _ => ()) = gathered? spawner (other.seen fun _ => ())
  rw [h]

/-- A world in which states that are alike remain so when an effect concerns the hive of a view
only. The replies are the same but for what belongs to other hives, and the clock is the same. As
long as an identifier may be drawn, the next one is among those that the view allows. -/
structure World.Aligned (world : World σ) (view : View) (Related : Bool → σ → σ → Prop) : Prop where
  reply : ∀ {draws state state' effect}, Related draws state state' → view.Admits effect →
    effect.veil view.hive (world.perform effect state).1 =
      effect.veil view.hive (world.perform effect state').1
  vouches : ∀ {draws state state' effect}, Related draws state state' → view.Admits effect →
    view.Vouches effect (world.perform effect state).1 ∧
      view.Vouches effect (world.perform effect state').1
  after : ∀ {draws state state' effect}, Related draws state state' → view.Admits effect →
    Related draws (world.perform effect state).2 (world.perform effect state').2
  draw : ∀ {state state'}, Related true state state' →
    (world.perform .newContentId state).1 = (world.perform .newContentId state').1 ∧
      view.draws (world.perform .newContentId state).1 ∧
        Related false (world.perform .newContentId state).2 (world.perform .newContentId state').2
  drawn : ∀ {state state'}, Related true state state' → Related false state state'
  time : ∀ {draws state state'}, Related draws state state' → world.time state = world.time state'
  setTime : ∀ {draws state state'} time, Related draws state state' →
    Related draws (world.setTime state time) (world.setTime state' time)

namespace Program

variable {world : World σ} {view : View} {Related : Bool → σ → σ → Prop}

/-- Units that are alike, whether or not an identifier may still be drawn elsewhere. -/
abbrev UnitsAlike (Related : Bool → σ → σ → Prop) : List (Spawned σ) → List (Spawned σ) → Prop :=
  List.Forall₂ fun unit other => ∀ draws, WorkUnit.Alike (Related draws) unit other

/-- From states that are alike, a program that keeps to a hive has the same outcome, leaves states
that are alike, and spawns units that are alike. -/
theorem Confined.runWith_alike (aligned : world.Aligned view Related) {α : Type} {p : Program α}
    {mayDraw : Bool} {post : α → Prop} (h : p.Confined view mayDraw post) {draws : Bool}
    {state state' : σ} {units others : List (Spawned σ)} (able : mayDraw = true → draws = true)
    (hstate : Related draws state state') (hunits : UnitsAlike Related units others) :
    (p.runWith world state units).1 = (p.runWith world state' others).1 ∧
      Related (draws && !mayDraw) (p.runWith world state units).2.1
        (p.runWith world state' others).2.1 ∧
        UnitsAlike Related (p.runWith world state units).2.2
          (p.runWith world state' others).2.2 := by
  have settled : ∀ {mayDraw draws : Bool} {state state' : σ}, (mayDraw = true → draws = true) →
      Related draws state state' → Related (draws && !mayDraw) state state' := by
    intro mayDraw draws state state' able hstate
    cases mayDraw with
    | false => simpa using hstate
    | true =>
      obtain rfl := able rfl
      exact aligned.drawn hstate
  induction h generalizing draws state state' units others with
  | done => exact ⟨rfl, settled able hstate, hunits⟩
  | fail => exact ⟨rfl, settled able hstate, hunits⟩
  | unfinished => exact ⟨rfl, settled able hstate, hunits⟩
  | @perform _ _ effect next _ admitted blind _ ih =>
    obtain ⟨hvouched, hvouched'⟩ := aligned.vouches hstate admitted
    -- both runs go on as from the reply without what belongs to other hives
    have hnext : next (world.perform effect state).1 = next (world.perform effect state').1 := by
      rw [← blind _ hvouched, ← blind _ hvouched', aligned.reply hstate admitted]
    have hih := ih _ hvouched able (aligned.after hstate admitted) hunits
    simp only [runWith]
    rw [← hnext]
    exact hih
  | @draw _ next _ _ ih =>
    obtain rfl := able rfl
    obtain ⟨hsame, hallowed, hafter⟩ := aligned.draw hstate
    have hih := ih _ hallowed (fun h => h) hafter hunits
    simp only [runWith]
    rw [← hsame]
    exact hih
  | @spawn _ _ unit next _ _ _ ihunit ih =>
    refine ih able hstate (List.rel_append hunits (.cons (fun draws => ?_) .nil))
    have hunit : ∀ {state state' : σ} (start : Nat), Related draws state state' →
        (unit.runWith world (world.setTime state start) []).1 =
          (unit.runWith world (world.setTime state' start) []).1 ∧
        Related draws (unit.runWith world (world.setTime state start) []).2.1
          (unit.runWith world (world.setTime state' start) []).2.1 := by
      intro state state' start h
      obtain ⟨hresult, hafter, -⟩ :=
        ihunit (fun h => absurd h (by decide)) (aligned.setTime start h) .nil
      exact ⟨hresult, by simpa using hafter⟩
    exact ⟨aligned.time hstate, fun start h => (hunit start h).1,
      fun start h => aligned.time (hunit start h).2, fun start h => (hunit start h).2⟩
  | @gather _ _ limit spawner next _ _ _ ihspawner ih =>
    rcases hrun : spawner.runWith world state [] with ⟨outcome, middle, spawned⟩
    rcases hrun' : spawner.runWith world state' [] with ⟨outcome', middle', spawned'⟩
    have hspawning := ihspawner (fun h => absurd h (by decide)) hstate .nil
    rw [hrun, hrun'] at hspawning
    obtain ⟨rfl, hmiddle, hspawned⟩ := hspawning
    have hmiddle : Related draws middle middle' := by simpa using hmiddle
    have hgroup := TaskGroup.run_alike limit (hspawned.imp fun _ _ h => h draws) hmiddle
    have hclock : (TaskGroup.run limit spawned middle).clock =
        (TaskGroup.run limit spawned' middle').clock := congrArg (·.clock) hgroup.course
    have hfinished : (TaskGroup.run limit spawned middle).finishedAt (world.time middle) =
        (TaskGroup.run limit spawned' middle').finishedAt (world.time middle') := by
      rw [TaskGroup.finishedAt, TaskGroup.finishedAt, hclock, aligned.time hmiddle]
    have hjoined := aligned.setTime
      ((TaskGroup.run limit spawned middle).finishedAt (world.time middle)) hgroup.state
    simp only [runWith, hrun, hrun']
    rw [← gathered?_congr _ hgroup.course, ← hfinished]
    cases gathered? outcome (TaskGroup.run limit spawned middle) with
    | none => exact ⟨rfl, settled able hjoined, hunits⟩
    | some gathered => exact ih gathered able hjoined hunits

/-- A program that keeps to a hive has the same outcome from states that are alike, and leaves
states that are alike. -/
theorem Confined.run_alike (aligned : world.Aligned view Related) {α : Type} {p : Program α}
    {mayDraw : Bool} {post : α → Prop} (h : p.Confined view mayDraw post) {state state' : σ}
    (hstate : Related true state state') :
    (p.run world state).1 = (p.run world state').1 ∧
      Related false (p.run world state).2 (p.run world state').2 := by
  obtain ⟨houtcome, hafter, -⟩ := h.runWith_alike aligned (fun _ => rfl) hstate .nil
  refine ⟨houtcome, ?_⟩
  cases mayDraw with
  | false => exact aligned.drawn hafter
  | true => exact hafter

end Program

end HiveForum
