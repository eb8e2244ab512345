import HiveForum.Program.Run
import HiveForum.Proofs.Schedule.Moves
import Mathlib.Data.List.Forall2

/-!
# Greater bounds

The walks of a program take a bounded number of pages, and a program that goes beyond its bound
gives no result. With a greater bound it goes on from there, and is the same everywhere else. So a
run that comes to an end is the same with every greater bound.

## Main definitions

* `Program.Truncates`: a program is another one, cut off in some places.
* `WorkUnit.Truncates`: a unit of work is another one unless it has no end.

## Main results

* `Program.Truncates.bind`, `Program.Truncates.attempt`, `Program.truncates_forkAll`: composing
  programs that are cut off.
* `TaskGroup.run_truncates`: a group is the same unless one of its units has no end.
* `Program.Truncates.run_eq`: a run that comes to an end goes on to be the same.
-/

namespace HiveForum

variable {σ : Type}

/-! ### Groups -/

/-- The units arrive at the same time, and whenever the first one has an end it does the same as the
second one. -/
structure WorkUnit.Truncates (unit other : Spawned σ) : Prop where
  arrival : unit.arrival = other.arrival
  work : ∀ start state, (unit.work start state).1 = .error .unfinished ∨
    unit.work start state = other.work start state

namespace TaskGroup

/-- One of the units has no end. -/
def Endless (group : TaskGroup σ Stop Unit) : Prop := .unfinished ∈ group.failures

theorem Endless.ahead {group later : TaskGroup σ Stop Unit} (h : group.Endless)
    (ahead : group.Ahead later) : later.Endless := ahead.failures.mem_iff.2 h

theorem Endless.add {group : TaskGroup σ Stop Unit} (h : group.Endless) (unit : Spawned σ) :
    (group.add unit).Endless := by
  obtain ⟨run, hturns, -⟩ := group.add_course unit
  obtain ⟨turn, hturn, hstop⟩ := mem_failures.1 h
  exact mem_failures.2 ⟨turn, hturns.mem_iff.2 (List.mem_cons_of_mem _ hturn), hstop⟩

theorem Endless.foldl {group : TaskGroup σ Stop Unit} (h : group.Endless)
    (units : List (Spawned σ)) : (units.foldl TaskGroup.add group).Endless := by
  induction units generalizing group with
  | nil => exact h
  | cons unit units ih => exact ih (h.add unit)

theorem endless_run_singleton (limit : Nat) {unit : Spawned σ} {state : σ}
    (h : (unit.work unit.arrival state).1 = .error .unfinished) :
    (run limit [unit] state).Endless := by
  have hadd : ((new limit state).add unit).Endless := by
    obtain ⟨run, hturns, ⟨hfailed, -, -⟩ | ⟨result, finish, hwork, rfl⟩⟩ :=
      (new limit state).add_course unit
    · cases hfailed
    · have hclock : ((new limit state).await unit).clock = unit.arrival := Nat.zero_max _
      rw [hclock] at hwork
      obtain rfl : result = .error .unfinished := (congrArg Prod.fst hwork).symm.trans h
      exact mem_failures.2 ⟨_, hturns.mem_iff.2 List.mem_cons_self, rfl⟩
  exact hadd.ahead (ahead_settle _ _)

/-- A group goes on in the same way, unless the unit that it is given has no end. -/
theorem add_truncates (group : TaskGroup σ Stop Unit) {unit other : Spawned σ}
    (h : unit.Truncates other) : (group.add unit).Endless ∨ group.add unit = group.add other := by
  have hawait : group.await unit = group.await other := by
    unfold await due
    rw [h.arrival]
  obtain ⟨run, hturns, ⟨hfailed, -, -⟩ | ⟨result, finish, hwork, rfl⟩⟩ := group.add_course unit
  · rw [add, add, hawait, enter, enter, ← hawait, hfailed]
    exact .inr rfl
  · obtain hstop | hsame := h.work (group.await unit).clock group.state
    · rw [hwork] at hstop
      obtain rfl : result = .error .unfinished := hstop
      exact .inl (mem_failures.2 ⟨_, hturns.mem_iff.2 List.mem_cons_self, rfl⟩)
    · have hstate : (group.await other).state = group.state :=
        (ahead_settle group (group.due other)).state
      rw [hawait, ← hstate] at hsame
      rw [add, add, hawait, enter, enter, start, start, hsame]
      exact .inr rfl

/-- A group is the same, unless one of its units has no end. -/
theorem run_truncates {units others : List (Spawned σ)} (limit : Nat) (state : σ)
    (h : List.Forall₂ WorkUnit.Truncates units others) :
    (run limit units state).Endless ∨ run limit units state = run limit others state := by
  unfold run
  generalize (new limit state : TaskGroup σ Stop Unit) = group
  induction h generalizing group with
  | nil => exact .inr rfl
  | @cons unit other units others hunit _ ih =>
    simp only [List.foldl_cons]
    obtain hendless | hadd := group.add_truncates hunit
    · exact .inl ((hendless.foldl units).ahead (ahead_settle _ _))
    · rw [hadd]
      exact ih _

end TaskGroup

theorem gathered?_of_endless {group : TaskGroup σ Stop Unit} (spawner : Outcome Unit)
    (h : group.Endless) : gathered? spawner group = none :=
  if_pos (List.any_eq_true.2 ⟨_, h, decide_eq_true rfl⟩)

theorem gathered?_unfinished (group : TaskGroup σ Stop Unit) :
    gathered? (.error .unfinished) group = none := by
  unfold gathered?
  split <;> rfl

/-! ### Programs -/

namespace Program

/-- The program is the other one, cut off in some places. -/
inductive Truncates : {α : Type} → Program α → Program α → Prop where
  | cut {α : Type} (other : Program α) : Truncates .unfinished other
  | done {α : Type} (value : α) : Truncates (.done value) (.done value)
  | fail {α : Type} (error : OperationError) : Truncates (.fail (α := α) error) (.fail error)
  | perform {α : Type} {effect : Effect} {next next' : effect.Reply → Program α}
      (follows : ∀ reply, Truncates (next reply) (next' reply)) :
      Truncates (.perform effect next) (.perform effect next')
  | spawn {α : Type} {unit unit' : Program Unit} {next next' : Program α}
      (spawned : Truncates unit unit') (beside : Truncates next next') :
      Truncates (.spawn unit next) (.spawn unit' next')
  | gather {α : Type} {limit : Nat} {spawner spawner' : Program Unit}
      {next next' : Gathered → Program α} (spawning : Truncates spawner spawner')
      (follows : ∀ gathered, Truncates (next gathered) (next' gathered)) :
      Truncates (.gather limit spawner next) (.gather limit spawner' next')

variable {α β : Type} {p q : Program α}

theorem Truncates.refl (p : Program α) : p.Truncates p := by
  induction p with
  | done value => exact .done value
  | fail error => exact .fail error
  | unfinished => exact .cut _
  | perform effect next ih => exact .perform ih
  | spawn unit next ihunit ih => exact .spawn ihunit ih
  | gather limit spawner next ihspawner ih => exact .gather ihspawner ih

/-- One program after another. -/
theorem Truncates.bind (h : p.Truncates q) {f g : α → Program β}
    (hf : ∀ value, (f value).Truncates (g value)) : (p.bind f).Truncates (q.bind g) := by
  induction h with
  | cut => exact .cut _
  | done value => exact hf value
  | fail error => exact .fail error
  | perform _ ih => exact .perform fun reply => ih reply hf
  | spawn spawned _ _ ih => exact .spawn spawned (ih hf)
  | gather spawning _ _ ih => exact .gather spawning fun gathered => ih gathered hf

/-- An attempt. -/
theorem Truncates.attempt (h : p.Truncates q) : p.attempt.Truncates q.attempt := by
  induction h with
  | cut => exact .cut _
  | done value => exact .done _
  | fail error => exact .done _
  | perform _ ih => exact .perform ih
  | spawn spawned _ _ ih => exact .spawn spawned ih
  | gather spawning _ _ ih => exact .gather spawning ih

/-- Several units of one group. -/
theorem truncates_forkAll {ι : Type} (items : List ι) {unit unit' : ι → Program Unit}
    (h : ∀ item, (unit item).Truncates (unit' item)) :
    (forkAll (items.map unit)).Truncates (forkAll (items.map unit')) := by
  induction items with
  | nil => exact .refl _
  | cons item items ih => exact .spawn (h item) ih

/-- A run has no end, or it is that of the other program; the units spawned by then are cut off in
the same way. -/
theorem Truncates.runWith {world : World σ} (h : p.Truncates q) (state : σ)
    {units others : List (Spawned σ)} (hunits : List.Forall₂ WorkUnit.Truncates units others) :
    (p.runWith world state units).1 = .error .unfinished ∨
      (p.runWith world state units).1 = (q.runWith world state others).1 ∧
        (p.runWith world state units).2.1 = (q.runWith world state others).2.1 ∧
          List.Forall₂ WorkUnit.Truncates (p.runWith world state units).2.2
            (q.runWith world state others).2.2 := by
  induction h generalizing state units others with
  | cut => exact .inl rfl
  | done value => exact .inr ⟨rfl, rfl, hunits⟩
  | fail error => exact .inr ⟨rfl, rfl, hunits⟩
  | perform _ ih => exact ih _ _ hunits
  | @spawn _ unit unit' _ _ _ _ ihunit ih =>
    refine ih state (List.rel_append hunits (.cons ⟨rfl, fun start state => ?_⟩ .nil))
    refine (ihunit (world.setTime state start) .nil).imp id fun ⟨houtcome, hstate, _⟩ => ?_
    dsimp only
    rw [houtcome, hstate]
  | @gather _ limit spawner spawner' next next' _ _ ihspawner ih =>
    rcases hrun : spawner.runWith world state [] with ⟨outcome, middle, spawned⟩
    rcases hrun' : spawner'.runWith world state [] with ⟨outcome', middle', spawned'⟩
    have hspawning := ihspawner state .nil
    rw [hrun, hrun'] at hspawning
    simp only [Program.runWith, hrun, hrun']
    obtain rfl | ⟨rfl, rfl, hspawned⟩ := hspawning
    · rw [gathered?_unfinished]
      exact .inl rfl
    · obtain hendless | hgroup := TaskGroup.run_truncates limit middle hspawned
      · rw [gathered?_of_endless _ hendless]
        exact .inl rfl
      · rw [hgroup]
        cases gathered? outcome (TaskGroup.run limit spawned' middle) with
        | none => exact .inl rfl
        | some gathered => exact ih gathered _ hunits

/-- A run that comes to an end is the same for a program that is cut off in fewer places. -/
theorem Truncates.run_eq {world : World σ} {state : σ} (h : p.Truncates q)
    (ended : (p.run world state).1 ≠ .error .unfinished) :
    p.run world state = q.run world state := by
  obtain hstop | ⟨houtcome, hstate, -⟩ := @Truncates.runWith σ α p q world h state [] [] .nil
  · exact absurd hstop ended
  · exact Prod.ext houtcome hstate

end Program

end HiveForum
