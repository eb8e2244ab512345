import HiveForum.Proofs.Program.Execution

/-!
# The clock of a run

The units of a group run one after another, but each with a clock of its own: a unit starts when it
gets its slot, which may be long before the units before it have ended. So the clock goes back and
forth in the course of a run, and only what a slot leaves open is certain: a unit starts no earlier
than it was spawned, and it starts when it is spawned or when another unit ends. What holds of every
point in time that a run comes by holds of its end.

A program is cut off where it goes beyond the bound that it was built with. If many calls have to be
answered before it gets there, and each of them takes time, then the time is up before.

## Main definitions

* `World.Maintains`: what effects, and settings of the clock to certain times, keep.
* `Effect.answers`: a call that is answered counts one.
* `Program.Lasts`: a program is not cut off before a number of calls in a row have been answered.
* `World.Paces`: calls that are answered take time, and end by a deadline.

## Main results

* `World.Maintains.run`: what effects and settings of the clock keep, a run keeps.
* `Program.Lasts.bind`, `Program.Lasts.forkAll`: composing programs that last.
* `Program.Lasts.run_ne_unfinished`: a program that lasts until the deadline comes to an end.
-/

namespace HiveForum

variable {σ ε β : Type}

/-! ### What a run keeps -/

/-- A claim about the state is kept by effects, and by settings of the clock to the times that the
clock may show. -/
structure World.Maintains (world : World σ) (Holds : σ → Prop) (Shows : Nat → Prop) : Prop where
  perform : ∀ (effect : Effect) {state : σ}, Holds state → Holds (world.perform effect state).2
  time : ∀ {state : σ}, Holds state → Shows (world.time state)
  setTime : ∀ {state : σ} {time : Nat}, Holds state → Shows time → Holds (world.setTime state time)

/-- The unit arrives at a time that the clock may show. If it starts at such a time it keeps the
claim, and ends at such a time. -/
structure WorkUnit.Maintains (unit : WorkUnit σ ε β) (Holds : σ → Prop) (Shows : Nat → Prop) :
    Prop where
  arrival : Shows unit.arrival
  finish : ∀ {start : Nat} {state : σ}, Shows start → Holds state →
    Shows (unit.work start state).2.1
  state : ∀ {start : Nat} {state : σ}, Shows start → Holds state →
    Holds (unit.work start state).2.2

namespace TaskGroup

variable {Holds : σ → Prop} {Shows : Nat → Prop}

/-- The claim holds, and units end at times that the clock may show. So does the clock of the group
show such a time once it has been set. -/
structure Maintains (group : TaskGroup σ ε β) (Holds : σ → Prop) (Shows : Nat → Prop) :
    Prop where
  state : Holds group.state
  clock : group.clock = 0 ∨ Shows group.clock
  turns : ∀ turn ∈ group.turns, Shows turn.finish

theorem Maintains.ahead {group later : TaskGroup σ ε β} (h : group.Maintains Holds Shows)
    (ahead : group.Ahead later) : later.Maintains Holds Shows where
  state := ahead.state ▸ h.state
  clock := by
    obtain heq | ⟨turn, hturn, heq⟩ := ahead.clock
    · rw [heq]
      exact h.clock
    · exact .inr (heq ▸ h.turns turn hturn)
  turns turn hturn := h.turns turn (ahead.turns.mem_iff.1 hturn)

theorem Maintains.add {group : TaskGroup σ ε β} (h : group.Maintains Holds Shows)
    {unit : WorkUnit σ ε β} (hunit : unit.Maintains Holds Shows) :
    (group.add unit).Maintains Holds Shows := by
  obtain ⟨harrival, hclock⟩ := group.await_course unit
  have hslot : Shows (group.await unit).clock := by
    obtain heq | heq | ⟨turn, hturn, heq⟩ := hclock
    · exact heq ▸ hunit.arrival
    · obtain hzero | hshows := h.clock
      · have hsame : unit.arrival = (group.await unit).clock := by omega
        exact hsame ▸ hunit.arrival
      · exact heq ▸ hshows
    · exact heq ▸ h.turns turn hturn
  obtain ⟨run, hturns, hrun⟩ := group.add_course unit
  have hall : ∀ {turn : Turn ε β}, (group.add unit).turns.Perm (turn :: group.turns) →
      Shows turn.finish → ∀ other ∈ (group.add unit).turns, Shows other.finish := by
    intro turn hturns hshows other hother
    obtain rfl | hother := List.mem_cons.1 (hturns.mem_iff.1 hother)
    · exact hshows
    · exact h.turns other hother
  have hafter : (group.add unit).clock = 0 ∨ Shows (group.add unit).clock :=
    .inr (group.clock_add unit ▸ hslot)
  obtain ⟨-, rfl, hstate⟩ | ⟨result, finish, hwork, rfl⟩ := hrun
  · exact ⟨hstate ▸ h.state, hafter, hall hturns hslot⟩
  · have hfinish := hunit.finish hslot h.state
    have hstate := hunit.state hslot h.state
    rw [hwork] at hfinish hstate
    exact ⟨hstate, hafter, hall hturns hfinish⟩

theorem maintains_run {limit : Nat} {units : List (WorkUnit σ ε β)} {state : σ} (h : Holds state)
    (hunits : ∀ unit ∈ units, unit.Maintains Holds Shows) :
    (run limit units state).Maintains Holds Shows :=
  run_induction (·.Maintains Holds Shows) ⟨h, .inl rfl, fun _ hturn => by cases hturn⟩
    (fun _ unit hunit hgroup => hgroup.add (hunits unit hunit)) fun _ _ ahead h => h.ahead ahead

theorem Maintains.finishedAt {group : TaskGroup σ ε β} (h : group.Maintains Holds Shows)
    {time : Nat} (shows : Shows time) : Shows (group.finishedAt time) := by
  rw [TaskGroup.finishedAt]
  obtain hzero | hclock := h.clock
  · rwa [hzero, Nat.max_zero]
  · obtain heq | heq : max time group.clock = time ∨ max time group.clock = group.clock := by omega
    · rwa [heq]
    · rwa [heq]

end TaskGroup

namespace World.Maintains

variable {world : World σ} {Holds : σ → Prop} {Shows : Nat → Prop} {α : Type}

/-- What effects and settings of the clock keep, a run keeps, and so do the units that have been
spawned by its end. -/
theorem runWith (maintains : world.Maintains Holds Shows) (p : Program α) {state : σ}
    {units : List (Spawned σ)} (h : Holds state)
    (hunits : ∀ unit ∈ units, unit.Maintains Holds Shows) :
    Holds (p.runWith world state units).2.1 ∧
      ∀ unit ∈ (p.runWith world state units).2.2, unit.Maintains Holds Shows := by
  induction p generalizing state units with
  | done => exact ⟨h, hunits⟩
  | fail => exact ⟨h, hunits⟩
  | unfinished => exact ⟨h, hunits⟩
  | perform effect next ih => exact ih _ (maintains.perform effect h) hunits
  | spawn unit next ihunit ih =>
    refine ih h (List.forall_mem_append.2 ⟨hunits, List.forall_mem_singleton.2 ?_⟩)
    have hended : ∀ {start : Nat} {state : σ}, Shows start → Holds state →
        Holds (unit.runWith world (world.setTime state start) []).2.1 := fun hstart h =>
      (ihunit (maintains.setTime h hstart) fun _ hunit => by cases hunit).1
    exact ⟨maintains.time h, fun hstart h => maintains.time (hended hstart h), hended⟩
  | gather limit spawner next ihspawner ih =>
    obtain ⟨hmiddle, hspawned⟩ := @ihspawner state [] h fun _ hunit => by cases hunit
    rcases hrun : spawner.runWith world state [] with ⟨outcome, middle, spawned⟩
    rw [hrun] at hmiddle hspawned
    have hgroup : (TaskGroup.run limit spawned middle).Maintains Holds Shows :=
      TaskGroup.maintains_run hmiddle hspawned
    have hjoined := maintains.setTime hgroup.state (hgroup.finishedAt (maintains.time hmiddle))
    simp only [Program.runWith, hrun]
    split
    · exact ⟨hjoined, hunits⟩
    · exact ih _ hjoined hunits

/-- What effects and settings of the clock keep, a run keeps. -/
theorem run (maintains : world.Maintains Holds Shows) (p : Program α) {state : σ}
    (h : Holds state) : Holds (p.run world state).2 :=
  (maintains.runWith p h fun _ hunit => by cases hunit).1

end World.Maintains

/-! ### Programs that last -/

/-- A call to the store that is answered counts one, and nothing else counts. -/
def Effect.answers : (effect : Effect) → effect.Reply → Nat
  | .store _, .ok _ => 1
  | _, _ => 0

namespace Program

/-- The program is not cut off before `calls` calls in a row have been answered. -/
def Lasts : {α : Type} → Program α → (calls : Nat) → Prop
  | _, .done _, _ => True
  | _, .fail _, _ => True
  | _, .unfinished, calls => calls = 0
  | _, .perform effect next, calls => ∀ reply, (next reply).Lasts (calls - effect.answers reply)
  | _, .spawn unit next, calls => unit.Lasts calls ∧ next.Lasts calls
  | _, .gather _ spawner next, calls =>
    spawner.Lasts calls ∧ ∀ gathered, (next gathered).Lasts calls

variable {α γ : Type}

theorem Lasts.mono {p : Program α} {calls fewer : Nat} (h : p.Lasts calls) (le : fewer ≤ calls) :
    p.Lasts fewer := by
  induction p generalizing calls fewer with
  | done => trivial
  | fail => trivial
  | unfinished => exact Nat.le_zero.1 (Nat.le_trans le (Nat.le_of_eq h))
  | perform effect next ih => exact fun reply => ih reply (h reply) (Nat.sub_le_sub_right le _)
  | spawn unit next ihunit ih => exact ⟨ihunit h.1 le, ih h.2 le⟩
  | gather limit spawner next ihspawner ih =>
    exact ⟨ihspawner h.1 le, fun gathered => ih gathered (h.2 gathered) le⟩

theorem lasts_zero (p : Program α) : p.Lasts 0 := by
  induction p with
  | done => trivial
  | fail => trivial
  | unfinished => rfl
  | perform effect next ih => exact fun reply => (Nat.zero_sub _).symm ▸ ih reply
  | spawn unit next ihunit ih => exact ⟨ihunit, ih⟩
  | gather limit spawner next ihspawner ih => exact ⟨ihspawner, ih⟩

/-- One program after another. -/
theorem Lasts.bind {p : Program α} {f : α → Program γ} {calls : Nat} (h : p.Lasts calls)
    (hf : ∀ value, (f value).Lasts calls) : (p.bind f).Lasts calls := by
  induction p generalizing calls with
  | done value => exact hf value
  | fail => trivial
  | unfinished => exact h
  | perform effect next ih =>
    exact fun reply => ih reply (h reply) fun value => (hf value).mono (Nat.sub_le _ _)
  | spawn unit next _ ih => exact ⟨h.1, ih h.2 hf⟩
  | gather limit spawner next _ ih => exact ⟨h.1, fun gathered => ih gathered (h.2 gathered) hf⟩

/-- Several units of one group. -/
theorem Lasts.forkAll {ι : Type} {items : List ι} {unit : ι → Program Unit} {rest : Program γ}
    {calls : Nat} (hunits : ∀ item ∈ items, (unit item).Lasts calls) (hrest : rest.Lasts calls) :
    ((Program.forkAll (items.map unit)).bind fun _ => rest).Lasts calls := by
  induction items with
  | nil => exact hrest
  | cons item items ih =>
    obtain ⟨hunit, hunits⟩ := List.forall_mem_cons.1 hunits
    exact ⟨hunit, ih hunits⟩

end Program

/-- The clock goes on while effects are carried out, and can be set. A call that is answered takes
some time, and ends by the deadline. -/
structure World.Paces (world : World σ) (Holds : σ → Prop) (deadline : Nat) : Prop where
  perform : ∀ (effect : Effect) {state : σ}, Holds state → Holds (world.perform effect state).2
  setTime : ∀ {state : σ} (time : Nat), Holds state → Holds (world.setTime state time)
  time_setTime : ∀ (state : σ) (time : Nat), world.time (world.setTime state time) = time
  onward : ∀ (effect : Effect) {state : σ}, Holds state →
    world.time state ≤ world.time (world.perform effect state).2
  answered : ∀ (effect : Effect) {state : σ}, Holds state →
    effect.answers (world.perform effect state).1 = 0 ∨
      world.time state < world.time (world.perform effect state).2 ∧
        world.time (world.perform effect state).2 ≤ deadline

/-- The unit comes to an end from whenever it starts after its arrival. -/
structure WorkUnit.Ends (unit : Spawned σ) (Holds : σ → Prop) : Prop where
  result : ∀ {start : Nat} {state : σ}, unit.arrival ≤ start → Holds state →
    (unit.work start state).1 ≠ .error .unfinished
  state : ∀ {start : Nat} {state : σ}, unit.arrival ≤ start → Holds state →
    Holds (unit.work start state).2.2

namespace TaskGroup

variable {Holds : σ → Prop}

/-- The units of the group so far come to an end. -/
structure Ends (group : TaskGroup σ Stop Unit) (Holds : σ → Prop) : Prop where
  state : Holds group.state
  failures : .unfinished ∉ group.failures

theorem Ends.ahead {group later : TaskGroup σ Stop Unit} (h : group.Ends Holds)
    (ahead : group.Ahead later) : later.Ends Holds where
  state := ahead.state ▸ h.state
  failures hstop := h.failures (ahead.failures.mem_iff.1 hstop)

theorem Ends.add {group : TaskGroup σ Stop Unit} (h : group.Ends Holds) {unit : Spawned σ}
    (hunit : unit.Ends Holds) : (group.add unit).Ends Holds := by
  have harrival := (group.await_course unit).1
  obtain ⟨run, hturns, ⟨-, rfl, hstate⟩ | ⟨result, finish, hwork, rfl⟩⟩ := group.add_course unit
  · have hfailures : (group.add unit).failures.Perm group.failures := hturns.filterMap _
    exact ⟨hstate ▸ h.state, fun hstop => h.failures (hfailures.mem_iff.1 hstop)⟩
  · have hresult := hunit.result harrival h.state
    have hafter := hunit.state harrival h.state
    rw [hwork] at hresult hafter
    refine ⟨hafter, fun hstop => ?_⟩
    obtain ⟨turn, hturn, hstop⟩ := mem_failures.1 hstop
    obtain rfl | hturn := List.mem_cons.1 (hturns.mem_iff.1 hturn)
    · cases result with
      | ok output => cases hstop
      | error stop => exact hresult (congrArg _ (Option.some.inj hstop))
    · exact h.failures (mem_failures.2 ⟨turn, hturn, hstop⟩)

theorem ends_run {limit : Nat} {units : List (Spawned σ)} {state : σ} (h : Holds state)
    (hunits : ∀ unit ∈ units, unit.Ends Holds) : (run limit units state).Ends Holds :=
  run_induction (·.Ends Holds) ⟨h, fun hstop => by cases hstop⟩
    (fun _ unit hunit hgroup => hgroup.add (hunits unit hunit)) fun _ _ ahead h => h.ahead ahead

end TaskGroup

/-- A group gives its results if the program that spawns its units and all units come to an end. -/
theorem gathered?_ne_none {group : TaskGroup σ Stop Unit} {Holds : σ → Prop}
    {spawner : Outcome Unit} (hspawner : spawner ≠ .error .unfinished) (h : group.Ends Holds)
    (isOver : group.Over) : gathered? spawner group ≠ none := by
  have hany : ¬group.failures.any (· = .unfinished) = true := by
    rw [List.any_eq_true]
    rintro ⟨stop, hmem, hstop⟩
    exact h.failures (of_decide_eq_true hstop ▸ hmem)
  have hjoined : ∃ units, Outcome.result? (group.joined.map fun _ => ()) = some units := by
    obtain ⟨-, hjoined⟩ | ⟨stop, rest, hfailures, hjoined⟩ := isOver.joined_cases
    · rw [hjoined]
      exact ⟨_, rfl⟩
    · rw [hjoined]
      cases stop with
      | failed error => exact ⟨_, rfl⟩
      | unfinished => exact absurd (hfailures ▸ List.mem_cons_self) h.failures
  obtain ⟨units, hunits⟩ := hjoined
  rw [gathered?, if_neg hany, hunits]
  cases spawner with
  | ok value => exact fun h => by cases h
  | error stop =>
    cases stop with
    | failed error => exact fun h => by cases h
    | unfinished => exact absurd rfl hspawner

namespace Program

variable {world : World σ} {Holds : σ → Prop} {deadline : Nat} {α : Type}

/-- A program that lasts for more calls than milliseconds are left comes to an end, and so do the
units that it spawns. -/
theorem Lasts.runWith (paces : world.Paces Holds deadline) {p : Program α} {calls : Nat}
    (lasts : p.Lasts calls) {state : σ} {units : List (Spawned σ)} (h : Holds state)
    (left : deadline - world.time state < calls) (hunits : ∀ unit ∈ units, unit.Ends Holds) :
    (p.runWith world state units).1 ≠ .error .unfinished ∧
      world.time state ≤ world.time (p.runWith world state units).2.1 ∧
        Holds (p.runWith world state units).2.1 ∧
          ∀ unit ∈ (p.runWith world state units).2.2, unit.Ends Holds := by
  induction p generalizing calls state units with
  | done => exact ⟨fun heq => (by cases heq), Nat.le_refl _, h, hunits⟩
  | fail => exact ⟨fun heq => (by cases heq), Nat.le_refl _, h, hunits⟩
  | unfinished =>
    have hcalls : calls = 0 := lasts
    omega
  | perform effect next ih =>
    have honward := paces.onward effect h
    have hleft : deadline - world.time (world.perform effect state).2 <
        calls - effect.answers (world.perform effect state).1 := by
      obtain hnone | ⟨hlater, hintime⟩ := paces.answered effect h
      · omega
      · have hone : effect.answers (world.perform effect state).1 ≤ 1 := by
          unfold Effect.answers
          split <;> omega
        omega
    obtain ⟨hends, hlater, hrest⟩ := ih _ (lasts _) (paces.perform effect h) hleft hunits
    exact ⟨hends, Nat.le_trans honward hlater, hrest⟩
  | spawn unit next ihunit ih =>
    refine ih lasts.2 h left (List.forall_mem_append.2 ⟨hunits, List.forall_mem_singleton.2 ?_⟩)
    have hended := fun {start : Nat} {later : σ} (hstart : world.time state ≤ start)
        (h : Holds later) =>
      @ihunit calls lasts.1 (world.setTime later start) [] (paces.setTime start h)
        (by rw [paces.time_setTime]; omega) fun _ hunit => by cases hunit
    exact ⟨fun hstart h => (hended hstart h).1, fun hstart h => (hended hstart h).2.2.1⟩
  | gather limit spawner next ihspawner ih =>
    obtain ⟨houtcome, hlater, hmiddle, hspawned⟩ :=
      @ihspawner calls lasts.1 state [] h left fun _ hunit => by cases hunit
    rcases hrun : spawner.runWith world state [] with ⟨outcome, middle, spawned⟩
    rw [hrun] at houtcome hlater hmiddle hspawned
    let group := TaskGroup.run limit spawned middle
    have hgroup : group.Ends Holds := TaskGroup.ends_run hmiddle hspawned
    let joined := world.setTime group.state (group.finishedAt (world.time middle))
    have hjoined : world.time state ≤ world.time joined := by
      have hfinished : world.time middle ≤ group.finishedAt (world.time middle) :=
        Nat.le_max_left _ _
      rw [paces.time_setTime]
      exact Nat.le_trans hlater hfinished
    have hresults : ∃ gathered,
        gathered? outcome (TaskGroup.run limit spawned middle) = some gathered :=
      Option.ne_none_iff_exists'.1 (gathered?_ne_none houtcome hgroup (TaskGroup.over_run ..))
    obtain ⟨gathered, hgathered⟩ := hresults
    have hfollows := @ih gathered calls (lasts.2 gathered) joined units
      (paces.setTime _ hgroup.state) (by omega) hunits
    simp only [Program.runWith, hrun, hgathered]
    exact ⟨hfollows.1, Nat.le_trans hjoined hfollows.2.1, hfollows.2.2⟩

/-- A program that lasts for more calls than milliseconds are left comes to an end. -/
theorem Lasts.run_ne_unfinished (paces : world.Paces Holds deadline) {p : Program α} {calls : Nat}
    (lasts : p.Lasts calls) {state : σ} (h : Holds state)
    (left : deadline - world.time state < calls) : (p.run world state).1 ≠ .error .unfinished :=
  (lasts.runWith paces h left fun _ hunit => by cases hunit).1

end Program

end HiveForum
