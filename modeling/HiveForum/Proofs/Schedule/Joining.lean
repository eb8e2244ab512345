import HiveForum.Proofs.Forum.Deadlines
import HiveForum.Proofs.Schedule.Slots

/-!
# What a task group joins to

Whatever the order is in which the tasks of a group make their moves, the units that start are the
first ones. Those that have got their permits before a unit fails run to their ends, and none starts
once the flag is set. The join takes the tasks as they end, and so the first error that it finds is
that of the unit that failed first, and without an error it has the outputs of all units.

## Main definitions

* `TaskGroup.Schedule`: the moves of a group and of the units that wait, in any order.
* `TaskGroup.Moment`: what holds of a group at every moment of a schedule.
* `TaskGroup.Attends`: what a group does from such a moment on.
* `TaskGroup.FailsFirst`: which unit fails first, and what becomes of the others.
* `TaskGroup.Conducts`: how a group has run its units when all tasks have ended.
* `World.Onward`: the clock of a world does not go back.

## Main results

* `TaskGroup.Moment.schedule`: a group comes from one such moment to another.
* `TaskGroup.Moment.schedule_foldl`, `TaskGroup.Moment.exists_over`: a group can run all its units.
* `TaskGroup.Moment.exists_failsFirst`: the first failure of a group, and its result.
* `TaskGroup.run_conducts`: in every schedule a group conducts units that are handed over in order.
* `Program.orderly_spawned`: the units that a program spawns are handed over in order.
-/

namespace HiveForum

open Relation

variable {σ ε β : Type}

namespace TaskGroup

/-- The moves of a group and of the units whose tasks wait for a permit, in any order. -/
abbrev Schedule : List (WorkUnit σ ε β) × TaskGroup σ ε β →
    List (WorkUnit σ ε β) × TaskGroup σ ε β → Prop := ReflTransGen Step

/-- When the units end that have started. -/
def ends (group : TaskGroup σ ε β) : List Nat :=
  (group.turns.filter (·.started)).map (·.finish)

variable {group group' : TaskGroup σ ε β} {unit : WorkUnit σ ε β}
  {units waiting waiting' : List (WorkUnit σ ε β)} {turn : Turn ε β}
  {due rest turns : List (Turn ε β)} {limit time : Nat} {state : σ}

/-! ### The moments of a schedule -/

/-- What holds at every moment of a schedule. -/
structure Moment (limit : Nat) (units waiting : List (WorkUnit σ ε β)) (turns : List (Turn ε β))
    (group : TaskGroup σ ε β) : Prop where
  timed : group.Timed limit
  flagged : group.Flagged
  supplied : group.Supplied limit waiting
  placed : group.Placed limit units waiting turns

namespace Moment

theorem orderly (h : Moment limit units waiting turns group) (orderly : Orderly units) :
    Orderly waiting := by
  obtain ⟨begun, rfl, -⟩ := h.placed.served
  exact ⟨(List.pairwise_append.1 orderly.inOrder).2.1,
    fun unit hunit => orderly.onward unit (List.mem_append_right _ hunit)⟩

theorem step (h : Moment limit units waiting turns group) (orderly : Orderly units)
    (step : Step (waiting, group) (waiting', group')) :
    ∃ turns', Moment limit units waiting' turns' group' := by
  obtain ⟨inOrder, onward⟩ := h.orderly orderly
  have timed := h.timed.step onward step
  have flagged := h.flagged.step h.timed onward step
  have supplied := h.supplied.step h.timed inOrder step
  cases step with
  | pass time settled runs waits =>
    exact ⟨turns, timed, flagged, supplied,
      h.placed.of_perm (.refl _) (Nat.le_max_left _ _) rfl⟩
  | enter free arrived =>
    obtain ⟨run, placed⟩ := h.placed.enter h.timed h.flagged h.supplied arrived
    exact ⟨_, timed, flagged, supplied, placed⟩
  | conclude hrunning due =>
    exact ⟨turns, timed, flagged, supplied,
      h.placed.of_perm (perm_turns_conclude hrunning) (Nat.le_refl _) rfl⟩
  | release hleaving =>
    exact ⟨turns, timed, flagged, supplied,
      h.placed.of_perm (perm_turns_release hleaving) (Nat.le_refl _) rfl⟩

theorem schedule (h : Moment limit units waiting turns group) (orderly : Orderly units)
    (schedule : Schedule (waiting, group) (waiting', group')) :
    ∃ turns', Moment limit units waiting' turns' group' := by
  have hall : ∀ {config : List (WorkUnit σ ε β) × TaskGroup σ ε β},
      Schedule (waiting, group) config → ∃ turns', Moment limit units config.1 turns' config.2 := by
    intro config hconfig
    induction hconfig with
    | refl => exact ⟨turns, h⟩
    | tail _ step ih =>
      obtain ⟨turns', hmoment⟩ := ih
      exact hmoment.step orderly step
  exact hall schedule

end Moment

theorem moment_new (limit : Nat) (units : List (WorkUnit σ ε β)) (state : σ) :
    Moment limit units units [] (new limit state) where
  timed := timed_new limit state
  flagged := flagged_new limit state
  supplied :=
    ⟨fun _ h => absurd h (Nat.not_lt_zero _), fun _ _ _ _ h => absurd h (Nat.not_lt_zero _)⟩
  placed := placed_new limit units state

/-! ### Going on to the end -/

theorem pass_of_le (h : time ≤ group.clock) : group.pass time = group := by
  rw [pass, Nat.max_eq_left h]

theorem schedule_releaseFirst (waiting : List (WorkUnit σ ε β)) (group : TaskGroup σ ε β) :
    Schedule (waiting, group) (waiting, group.releaseFirst) := by
  unfold releaseFirst
  split
  · exact .refl
  · rename_i turn others h
    have hfirst : group.leaving = [] ++ turn :: others := h
    exact .single (.release hfirst)

theorem lt_of_mem_dropWhile (h : turns.Pairwise fun turn later => turn.finish ≤ later.finish)
    (hturn : turn ∈ turns.dropWhile fun turn => turn.finish ≤ time) : time < turn.finish := by
  induction turns with
  | nil => cases hturn
  | cons first turns ih =>
    obtain ⟨hfirst, hturns⟩ := List.pairwise_cons.1 h
    rw [List.dropWhile_cons] at hturn
    split at hturn
    · exact ih hturns hturn
    · rename_i hdue
      have hlt : time < first.finish := Nat.not_le.1 fun hle => hdue (decide_eq_true hle)
      obtain rfl | hturn := List.mem_cons.1 hturn
      · exact hlt
      · exact Nat.lt_of_lt_of_le hlt (hfirst turn hturn)

theorem clock_endFirst (hrunning : group.running = turn :: rest) :
    group.endFirst.clock = max group.clock turn.finish := by
  unfold endFirst releaseFirst
  rw [hrunning]
  dsimp only
  split <;> rfl

theorem arrival_le_opening (group : TaskGroup σ ε β) (arrival : Nat) :
    arrival ≤ group.opening arrival := by
  unfold opening
  split
  · exact Nat.le_max_left _ _
  · exact Nat.le_refl _

theorem opening_of_permits (hpermits : group.permits ≠ 0) : group.opening time = time := by
  unfold opening
  split
  · rename_i hzero _
    exact absurd hzero hpermits
  · rfl

theorem due_of_permits (hpermits : group.permits = 0) (hrunning : group.running = turn :: rest) :
    group.due unit =
      turn :: rest.takeWhile fun other => other.finish ≤ max unit.arrival turn.finish := by
  have hopening : group.opening unit.arrival = max unit.arrival turn.finish := by
    simp only [opening, hpermits, hrunning]
  rw [due, hrunning, hopening, List.takeWhile_cons_of_pos]
  exact decide_eq_true (Nat.le_max_right _ _)

theorem running_settle_due (settled : group.leaving = []) :
    (group.settle (group.due unit)).running =
      group.running.dropWhile fun turn => turn.finish ≤ group.opening unit.arrival := by
  have hsplit : group.due unit ++ group.running.dropWhile (fun turn =>
      turn.finish ≤ group.opening unit.arrival) = group.running := List.takeWhile_append_dropWhile
  rw [running_settle settled]
  nth_rewrite 1 [← hsplit]
  exact List.drop_left

theorem Timed.exists_running (h : group.Timed limit) (settled : group.leaving = [])
    (hpermits : group.permits = 0) : ∃ turn rest, group.running = turn :: rest := by
  refine List.exists_cons_of_ne_nil fun hnone => ?_
  have hcount := h.permits
  rw [hpermits, settled, hnone, List.length_nil] at hcount
  omega

/-- When the units have ended that are due there is a permit for the next one. -/
theorem Timed.permits_await (h : group.Timed limit) (settled : group.leaving = [])
    (timed : (group.settle (group.due unit)).Timed limit) : 0 < (group.await unit).permits := by
  have hcount := h.permits
  have hlater := timed.permits
  have hlength : (group.settle (group.due unit)).running.length =
      group.running.length - (group.due unit).length := by
    rw [running_settle settled, List.length_drop]
  rw [settled, List.length_nil] at hcount
  rw [leaving_settle settled, List.length_nil, hlength] at hlater
  change 0 < (group.settle (group.due unit)).permits
  by_cases hpermits : group.permits = 0
  · obtain ⟨turn, rest, hrunning⟩ := h.exists_running settled hpermits
    have hrunning' : 0 < group.running.length := by simp [hrunning]
    have hdue : 0 < (group.due unit).length := by simp [due_of_permits hpermits hrunning]
    omega
  · omega

namespace Moment

variable (h : Moment limit units waiting turns group)

include h

/-- The unit that is the first to end does so, unless a task can have a permit before that. -/
theorem schedule_endFirst (settled : group.leaving = []) (hrunning : group.running = turn :: rest)
    (waits : turn.finish ≤ group.clock ∨
      ∀ unit ∈ waiting.head?, group.permits = 0 ∨ turn.finish ≤ unit.arrival) :
    Schedule (waiting, group) (waiting, group.endFirst) := by
  have hpass : Schedule (waiting, group) (waiting, group.pass turn.finish) := by
    obtain hpast | hwaits := waits
    · rw [pass_of_le hpast]
    · refine .single (.pass turn.finish settled (fun other hother => ?_) hwaits)
      rw [hrunning] at hother
      obtain rfl | hother := List.mem_cons.1 hother
      · exact Nat.le_refl _
      · exact (List.pairwise_cons.1 (hrunning ▸ h.timed.lined)).1 other hother
  have hfirst : (group.pass turn.finish).running = [] ++ turn :: rest := hrunning
  have hconclude : Step (waiting, group.pass turn.finish)
      (waiting, (group.pass turn.finish).conclude turn rest) :=
    .conclude hfirst (Nat.le_max_right _ _)
  have hend : group.endFirst =
      ((group.pass turn.finish).conclude turn rest).releaseFirst := by
    unfold endFirst
    rw [hrunning]
  rw [hend]
  exact (hpass.tail hconclude).trans (schedule_releaseFirst _ _)

theorem schedule_settle (orderly : Orderly units) (settled : group.leaving = [])
    (hrunning : group.running = due ++ rest) (waits : ∀ turn ∈ due,
      turn.finish ≤ group.clock ∨ ∀ unit ∈ waiting.head?, turn.finish ≤ unit.arrival) :
    Schedule (waiting, group) (waiting, group.settle due) := by
  induction due generalizing group turns with
  | nil => exact .refl
  | cons turn due ih =>
    obtain ⟨hturn, hdue⟩ := List.forall_mem_cons.1 waits
    have hfirst := h.schedule_endFirst settled hrunning <|
      hturn.imp_right fun hwaits unit hunit => .inr (hwaits unit hunit)
    obtain ⟨turns', hmoment⟩ := h.schedule orderly hfirst
    have hrest : group.endFirst.running = due ++ rest := by
      rw [running_endFirst settled, hrunning]
      rfl
    exact hfirst.trans <| ih hmoment (leaving_endFirst settled) hrest fun other hother =>
      (hdue other hother).imp_left fun hle => Nat.le_trans hle (ahead_endFirst group).onward

/-- What ends before the next unit gets its permit does so. -/
theorem schedule_due (orderly : Orderly units) (settled : group.leaving = [])
    (hwaiting : waiting.head? = some unit) :
    Schedule (waiting, group) (waiting, group.settle (group.due unit)) := by
  by_cases hpermits : group.permits = 0
  · -- the first of the units that run has to end, and then there is a permit
    obtain ⟨first, rest, hrunning⟩ := h.timed.exists_running settled hpermits
    have hfirst := h.schedule_endFirst settled hrunning (.inr fun _ _ => .inl hpermits)
    obtain ⟨turns', hmoment⟩ := h.schedule orderly hfirst
    have hrest : group.endFirst.running =
        (rest.takeWhile fun turn => turn.finish ≤ max unit.arrival first.finish) ++
          rest.dropWhile fun turn => turn.finish ≤ max unit.arrival first.finish := by
      rw [running_endFirst settled, hrunning]
      exact List.takeWhile_append_dropWhile.symm
    rw [due_of_permits hpermits hrunning]
    refine hfirst.trans (hmoment.schedule_settle orderly (leaving_endFirst settled) hrest ?_)
    intro turn hturn
    have hle := of_decide_eq_true (List.all_eq_true.1 List.all_takeWhile turn hturn)
    rw [clock_endFirst hrunning, hwaiting]
    obtain hle | hle : turn.finish ≤ unit.arrival ∨ turn.finish ≤ first.finish := by omega
    · exact .inr fun other hother => Option.some.inj hother ▸ hle
    · exact .inl (Nat.le_trans hle (Nat.le_max_right _ _))
  · have hsplit : group.running = group.due unit ++ _ := List.takeWhile_append_dropWhile.symm
    refine h.schedule_settle orderly settled hsplit fun turn hturn => .inr ?_
    have hle := of_decide_eq_true (List.all_eq_true.1 List.all_takeWhile turn hturn)
    rw [opening_of_permits hpermits] at hle
    rw [hwaiting]
    exact fun other hother => Option.some.inj hother ▸ hle

end Moment

/-- The next unit gets its permit, and its task ends at once if the unit is skipped. -/
theorem Moment.schedule_add (h : Moment limit units (unit :: waiting) turns group)
    (orderly : Orderly units) (settled : group.leaving = []) :
    Schedule (unit :: waiting, group) (waiting, group.add unit) := by
  have hdue := h.schedule_due orderly settled rfl
  obtain ⟨turns', hmoment⟩ := h.schedule orderly hdue
  have hleaving : (group.settle (group.due unit)).leaving = [] := leaving_settle settled _
  have hpass : Step (unit :: waiting, group.settle (group.due unit))
      (unit :: waiting, group.await unit) := by
    refine .pass unit.arrival hleaving (fun turn hturn => ?_) fun other hother => .inr ?_
    · have hopening := arrival_le_opening group unit.arrival
      rw [running_settle_due settled] at hturn
      have hlater := lt_of_mem_dropWhile h.timed.lined hturn
      omega
    · exact Nat.le_of_eq (congrArg _ (Option.some.inj hother))
  have henter : Step (unit :: waiting, group.await unit) (waiting, (group.await unit).enter unit) :=
    .enter (h.timed.permits_await settled hmoment.timed) (Nat.le_max_right _ _)
  exact ((hdue.tail hpass).tail henter).trans (schedule_releaseFirst _ _)

/-- Units that wait get their permits one after another, and when all have got one they run to their
ends. -/
theorem Moment.schedule_foldl (h : Moment limit units waiting turns group)
    (orderly : Orderly units) (settled : group.leaving = []) :
    let last := waiting.foldl add group
    Schedule (waiting, group) ([], last.settle last.running) ∧ (last.settle last.running).Over := by
  induction waiting generalizing group turns with
  | nil =>
    have hrunning : group.running = group.running ++ [] := (List.append_nil _).symm
    refine ⟨h.schedule_settle orderly settled hrunning fun _ _ => .inr fun _ hunit => ?_,
      over_settle settled⟩
    cases hunit
  | cons unit waiting ih =>
    have hadd := h.schedule_add orderly settled
    obtain ⟨turns', hmoment⟩ := h.schedule orderly hadd
    obtain ⟨hrest, hover⟩ := ih hmoment (leaving_add settled)
    exact ⟨hadd.trans hrest, hover⟩

theorem exists_schedule_released (waiting : List (WorkUnit σ ε β)) (group : TaskGroup σ ε β) :
    ∃ later, Schedule (waiting, group) (waiting, later) ∧ later.leaving = [] := by
  generalize hleaving : group.leaving = leaving
  induction leaving generalizing group with
  | nil => exact ⟨group, .refl, hleaving⟩
  | cons turn others ih =>
    have hfirst : group.leaving = [] ++ turn :: others := hleaving
    obtain ⟨later, hlater, hnone⟩ := ih (group.release turn others) rfl
    exact ⟨later, .head (.release hfirst) hlater, hnone⟩

/-- At every moment there is a way to go on until all tasks have ended. -/
theorem Moment.exists_over (h : Moment limit units waiting turns group) (orderly : Orderly units) :
    ∃ last, Schedule (waiting, group) ([], last) ∧ last.Over := by
  obtain ⟨later, hlater, hnone⟩ := exists_schedule_released waiting group
  obtain ⟨turns', hmoment⟩ := h.schedule orderly hlater
  obtain ⟨hlast, hover⟩ := hmoment.schedule_foldl orderly hnone
  exact ⟨_, hlater.trans hlast, hover⟩

/-- Once the flag is set no unit starts. -/
theorem mem_turns_of_failed (schedule : Schedule (waiting, group) (waiting', group'))
    (failed : group.failed = true) (hturn : turn ∈ group'.turns) (hran : turn.run ≠ .skipped) :
    turn ∈ group.turns := by
  have hall : ∀ {config : List (WorkUnit σ ε β) × TaskGroup σ ε β},
      Schedule (waiting, group) config → config.2.failed = true ∧
        ∀ turn ∈ config.2.turns, turn.run ≠ .skipped → turn ∈ group.turns := by
    intro config hconfig
    induction hconfig with
    | refl => exact ⟨failed, fun _ hturn _ => hturn⟩
    | tail _ step ih =>
      obtain ⟨hfailed, hturns⟩ := ih
      cases step with
      | pass => exact ⟨hfailed, hturns⟩
      | enter =>
        rw [enter, if_pos hfailed]
        refine ⟨hfailed, fun turn hturn hran => ?_⟩
        obtain rfl | hturn := List.mem_cons.1 ((perm_turns_skip _).mem_iff.1 hturn)
        · exact absurd rfl hran
        · exact hturns turn hturn hran
      | conclude hrunning =>
        refine ⟨Bool.or_eq_true_iff.2 (.inl hfailed), fun turn hturn => ?_⟩
        exact hturns turn ((perm_turns_conclude hrunning).mem_iff.1 hturn)
      | release hleaving =>
        refine ⟨hfailed, fun turn hturn => ?_⟩
        exact hturns turn ((perm_turns_release hleaving).mem_iff.1 hturn)
  exact (hall schedule).2 turn hturn hran

/-- What a group does at a moment of a schedule, and from then on. -/
structure Attends (limit : Nat) (waiting : List (WorkUnit σ ε β)) (group : TaskGroup σ ε β) :
    Prop where
  bounded : group.running.length ≤ max limit 1
  /-- When the task of a unit that failed has given its permit back, the flag is set. -/
  warned : ∀ turn ∈ group.ended, turn.error?.isSome → group.failed = true
  /-- Once the flag is set no unit starts. -/
  halts : ∀ {waiting' group'}, Schedule (waiting, group) (waiting', group') →
    group.failed = true → ∀ turn ∈ group'.turns, turn.run ≠ .skipped → turn ∈ group.turns
  /-- All tasks can end, and then the join returns. -/
  returns : ∃ last, Schedule (waiting, group) ([], last) ∧ last.Over

theorem Moment.attends (h : Moment limit units waiting turns group) (orderly : Orderly units) :
    Attends limit waiting group where
  bounded := h.timed.permits ▸ Nat.le_add_left _ _
  warned turn hturn hfails := h.flagged.flag.2 ⟨turn, List.mem_append_left _ hturn, hfails⟩
  halts schedule failed _ hturn hran := mem_turns_of_failed schedule failed hturn hran
  returns := h.exists_over orderly

/-! ### When all tasks have ended -/

/-- Of the units of a group that of `turn` fails first, at the time `finish`. Those that have got
their permits by then run to their ends, and no unit starts later. -/
structure FailsFirst (before : List (Turn ε β)) (turn : Turn ε β) (after : List (Turn ε β))
    (finish : Nat) (error : ε) : Prop where
  run_eq : turn.run = .ran finish (.error error)
  first : ∀ other ∈ before ++ after, other.error?.isSome → finish < other.finish
  runs : ∀ other ∈ before ++ after, other.slot < finish → other.run ≠ .skipped
  not_later : ∀ other ∈ before ++ after, finish < other.slot → other.run = .skipped

theorem Turn.started_eq_false : turn.started = false ↔ turn.run = .skipped := by
  obtain ⟨index, slot, run⟩ := turn
  cases run <;> simp [Turn.started]

/-- If after a unit that is skipped all are, those that started are the first ones. -/
private theorem exists_filter_eq_take {turns : List (Turn ε β)}
    (h : turns.Pairwise fun turn later => turn.run = .skipped → later.run = .skipped) :
    ∃ count, turns.filter (·.started) = turns.take count := by
  induction turns with
  | nil => exact ⟨0, rfl⟩
  | cons turn turns ih =>
    obtain ⟨hlater, hturns⟩ := List.pairwise_cons.1 h
    obtain ⟨count, hcount⟩ := ih hturns
    cases hstarted : turn.started with
    | true =>
      refine ⟨count + 1, ?_⟩
      rw [List.filter_cons_of_pos hstarted, List.take_succ_cons, hcount]
    | false =>
      refine ⟨0, List.filter_eq_nil_iff.2 fun other hother => Bool.eq_false_iff.1 ?_⟩
      obtain rfl | hother := List.mem_cons.1 hother
      · exact hstarted
      · exact Turn.started_eq_false.2 (hlater other hother (Turn.started_eq_false.1 hstarted))

/-- How a group has run units, and what the join returns. -/
structure Conducts (group : TaskGroup σ ε β) (limit : Nat) (units : List (WorkUnit σ ε β))
    (turns : List (Turn ε β)) : Prop where
  served : List.Forall₂ (Serves limit group) units turns
  ended : group.ended.Perm turns
  /-- Permits go to the units in the order of spawning. -/
  inTurn : turns.Pairwise fun turn later => turn.slot ≤ later.slot
  bounded : ∀ time, group.busy time ≤ max limit 1
  /-- The units that start are the first ones. -/
  started : ∃ count, group.started.Perm (List.range count)
  finished : ∀ turn ∈ turns, turn.slot ≤ turn.finish ∧ turn.finish ≤ group.clock
  succeeds : (∀ turn ∈ turns, turn.error? = none) → ∃ outputs inOrder,
    group.joined = .ok outputs ∧ outputs.Perm inOrder ∧
      List.Forall₂ (fun turn output => ∃ finish, turn.run = .ran finish (.ok output)) turns inOrder
  fails : (∃ turn ∈ turns, turn.error?.isSome) →
    ∃ before turn after finish error, turns = before ++ turn :: after ∧
      FailsFirst before turn after finish error ∧ group.joined = .error error

theorem Turn.exists_run_of_error? {error : ε} (h : turn.error? = some error) :
    turn.run = .ran turn.finish (.error error) := by
  obtain ⟨index, slot, run⟩ := turn
  cases run with
  | skipped => cases h
  | ran finish result =>
    cases result with
    | ok output => cases h
    | error other =>
      obtain rfl : other = error := Option.some.inj h
      rfl

/-- Units that have not failed and were not skipped have outputs. -/
private theorem forall₂_output {turns : List (Turn ε β)} (hgood : ∀ turn ∈ turns,
    turn.error? = none) (hran : ∀ turn ∈ turns, turn.run ≠ .skipped) :
    List.Forall₂ (fun turn output => ∃ finish, turn.run = .ran finish (.ok output)) turns
      (turns.filterMap (·.output?)) := by
  induction turns with
  | nil => exact .nil
  | cons turn turns ih =>
    obtain ⟨hturn, hturns⟩ := List.forall_mem_cons.1 hgood
    obtain ⟨hrun, hruns⟩ := List.forall_mem_cons.1 hran
    obtain ⟨index, slot, run⟩ := turn
    cases run with
    | skipped => exact absurd rfl hrun
    | ran finish result =>
      cases result with
      | ok output => exact .cons ⟨finish, rfl⟩ (ih hturns hruns)
      | error error => cases hturn

namespace Moment

variable (h : Moment limit units waiting turns group)

include h

theorem ended_perm (isOver : group.Over) : group.ended.Perm turns :=
  isOver.turns_eq ▸ h.placed.perm

theorem exists_failed_of_skipped (isOver : group.Over) (hturn : turn ∈ turns)
    (hskipped : turn.run = .skipped) :
    ∃ other ∈ group.ended, other.error?.isSome ∧ other.finish ≤ turn.slot := by
  obtain ⟨other, hother, hfails⟩ :=
    h.flagged.skips turn (h.placed.perm.mem_iff.2 hturn) hskipped
  rw [isOver.1, List.append_nil] at hother
  exact ⟨other, hother, hfails⟩

/-- If no unit fails, all of them run, and the join returns their outputs. -/
theorem exists_outputs (isOver : group.Over) (hgood : ∀ turn ∈ turns, turn.error? = none) :
    ∃ outputs inOrder, group.joined = .ok outputs ∧ outputs.Perm inOrder ∧
      List.Forall₂ (fun turn output => ∃ finish, turn.run = .ran finish (.ok output)) turns
        inOrder := by
  have hended := h.ended_perm isOver
  have hran : ∀ turn ∈ turns, turn.run ≠ .skipped := by
    intro turn hturn hskipped
    obtain ⟨other, hother, hfails, -⟩ := h.exists_failed_of_skipped isOver hturn hskipped
    rw [hgood other (hended.mem_iff.1 hother)] at hfails
    cases hfails
  refine ⟨_, _, ?_, hended.filterMap (·.output?), forall₂_output hgood hran⟩
  obtain ⟨-, hjoined⟩ | ⟨error, rest, hfailures, -⟩ := isOver.joined_cases
  · exact hjoined
  · have hmem : error ∈ group.failures := hfailures ▸ List.mem_cons_self
    obtain ⟨turn, hturn, herror⟩ := mem_failures.1 hmem
    rw [hgood turn (h.placed.perm.mem_iff.1 hturn)] at herror
    cases herror

/-- The join finds the error of a unit first that has failed no later than any other. -/
theorem exists_earliest (isOver : group.Over) (hfails : ∃ turn ∈ turns, turn.error?.isSome) :
    ∃ first ∈ turns, ∃ error, first.error? = some error ∧ group.joined = .error error ∧
      ∀ other ∈ turns, other.error?.isSome → first.finish ≤ other.finish := by
  have hended := h.ended_perm isOver
  obtain ⟨hnone, -⟩ | ⟨error, rest, hfailures, hjoined⟩ := isOver.joined_cases
  · obtain ⟨turn, hturn, hfails⟩ := hfails
    exact absurd hnone (failures_ne_nil (h.placed.perm.mem_iff.2 hturn) hfails)
  · rw [failures, isOver.turns_eq] at hfailures
    obtain ⟨before, first, after, hsplit, hbefore, herror, -⟩ :=
      List.filterMap_eq_cons_iff.1 hfailures
    have hfirst : first ∈ group.ended := by simp [hsplit]
    refine ⟨first, hended.mem_iff.1 hfirst, error, herror, hjoined, fun other hother hsome => ?_⟩
    have hordered := h.timed.ordered
    rw [hsplit] at hordered
    have hmem := hended.mem_iff.2 hother
    rw [hsplit] at hmem
    obtain hmem | hmem := List.mem_append.1 hmem
    · rw [hbefore other hmem] at hsome
      cases hsome
    · obtain rfl | hmem := List.mem_cons.1 hmem
      · exact Nat.le_refl _
      · exact (List.pairwise_cons.1 (List.pairwise_append.1 hordered).2.1).1 other hmem

/-- If a unit fails, one fails first, and the join returns its error. -/
theorem exists_failsFirst (isOver : group.Over) (apart : group.ends.Nodup)
    (hfails : ∃ turn ∈ turns, turn.error?.isSome) :
    ∃ before turn after finish error, turns = before ++ turn :: after ∧
      FailsFirst before turn after finish error ∧ group.joined = .error error := by
  obtain ⟨first, hfirst, error, herror, hjoined, hearliest⟩ := h.exists_earliest isOver hfails
  have hrun := first.exists_run_of_error? herror
  obtain ⟨before, after, rfl⟩ := List.append_of_mem hfirst
  have hothers : ∀ other ∈ before ++ after, other ∈ before ++ first :: after := fun other hother =>
    List.perm_middle.mem_iff.2 (List.mem_cons_of_mem _ hother)
  refine ⟨before, first, after, first.finish, error, rfl, ?_, hjoined⟩
  refine ⟨hrun, fun other hother hsome => ?_, fun other hother hlt hskipped => ?_,
    fun other hother hlt => ?_⟩
  · refine Nat.lt_of_le_of_ne (hearliest other (hothers other hother) hsome) fun heq => ?_
    -- the ends of the two units would be the same
    have hends : group.ends.Perm
        (((first :: (before ++ after)).filter (·.started)).map (·.finish)) :=
      ((h.placed.perm.trans List.perm_middle).filter _).map _
    have hstarted : ∀ {turn : Turn ε β}, turn.error?.isSome → turn.started := by
      intro turn hsome
      by_contra hnot
      have hskipped := Turn.started_eq_false.1 (Bool.eq_false_iff.2 hnot)
      rw [Turn.error?, hskipped] at hsome
      cases hsome
    have hnodup := hends.nodup_iff.1 apart
    rw [List.filter_cons_of_pos (hstarted (by rw [herror]; rfl)), List.map_cons, heq] at hnodup
    exact (List.nodup_cons.1 hnodup).1
      (List.mem_map_of_mem (List.mem_filter.2 ⟨hother, hstarted hsome⟩))
  · obtain ⟨failing, hfailing, hsome, hle⟩ :=
      h.exists_failed_of_skipped isOver (hothers other hother) hskipped
    have hearlier := hearliest failing ((h.ended_perm isOver).mem_iff.1 hfailing) hsome
    omega
  · have hsome : first.error?.isSome := by rw [herror]; rfl
    exact h.flagged.halts first (h.placed.perm.mem_iff.2 hfirst) hsome other
      (h.placed.perm.mem_iff.2 (hothers other hother)) hlt

theorem busy_le (isOver : group.Over) (time : Nat) : group.busy time ≤ max limit 1 := by
  obtain hbefore | hpast := Nat.lt_or_ge time group.clock
  · exact h.supplied.bounded time hbefore
  · have hnone : ∀ turn ∈ group.running, time < turn.finish := by
      rw [isOver.2]
      exact fun _ hturn => by cases hturn
    rw [h.timed.busy_eq isOver.1 hpast hnone, isOver.2]
    exact Nat.zero_le _

theorem exists_started_perm : ∃ count, group.started.Perm (List.range count) := by
  obtain ⟨count, hcount⟩ := exists_filter_eq_take h.placed.front
  refine ⟨min count group.admitted, ((h.placed.perm.filter _).map _).trans (.of_eq ?_)⟩
  rw [hcount, List.map_take, h.placed.indices, List.take_range]

theorem conducts (isOver : group.Over) (apart : group.ends.Nodup) (hwaiting : waiting = []) :
    group.Conducts limit units turns where
  served := by
    obtain ⟨begun, rfl, hserved⟩ := h.placed.served
    rwa [hwaiting, List.append_nil]
  ended := h.ended_perm isOver
  inTurn := h.placed.inTurn
  bounded := h.busy_le isOver
  started := h.exists_started_perm
  finished turn hturn := by
    have hended := (h.ended_perm isOver).mem_iff.2 hturn
    exact ⟨h.timed.lasting turn (h.placed.perm.mem_iff.2 hturn), h.timed.ended turn hended⟩
  succeeds := h.exists_outputs isOver
  fails := h.exists_failsFirst isOver apart

end Moment

/-- In every schedule a group attends to its units, and conducts them if they end at different
times. One of the schedules is the run of the group. -/
theorem run_conducts (h : Orderly units) (limit : Nat) (state : σ) :
    Schedule (units, new limit state) ([], run limit units state) ∧
      (run limit units state).Over ∧
      ∀ waiting group, Schedule (units, new limit state) (waiting, group) →
        group.Attends limit waiting ∧
          (waiting = [] → group.Over → group.ends.Nodup →
            ∃ turns, group.Conducts limit units turns) := by
  have hnew := moment_new limit units state
  obtain ⟨hrun, hover⟩ := hnew.schedule_foldl h rfl
  refine ⟨hrun, hover, fun waiting group hschedule => ?_⟩
  obtain ⟨turns, hmoment⟩ := hnew.schedule h hschedule
  exact ⟨hmoment.attends h, fun hwaiting isOver apart =>
    ⟨turns, hmoment.conducts isOver apart hwaiting⟩⟩

end TaskGroup

/-! ### The units of a program -/

/-- The clock of a world does not go back, except that it can be set. -/
structure World.Onward (world : World σ) : Prop where
  perform : ∀ effect state, world.time state ≤ world.time (world.perform effect state).2
  setTime : ∀ state time, world.time (world.setTime state time) = time

theorem Host.onward_world (session : Session) : (Host.world session).Onward where
  perform effect host := (host.passes_perform session effect).onward
  setTime _ _ := rfl

/-- A program spawns its units one after another, and none of them ends before it starts. -/
theorem Program.orderly_runWith {world : World σ} (onward : world.Onward) {α : Type}
    (program : Program α) {state : σ} {units : List (Spawned σ)}
    (h : TaskGroup.Orderly units) (past : ∀ unit ∈ units, unit.arrival ≤ world.time state) :
    let run := program.runWith world state units
    world.time state ≤ world.time run.2.1 ∧ TaskGroup.Orderly run.2.2 ∧
      ∀ unit ∈ run.2.2, unit.arrival ≤ world.time run.2.1 := by
  induction program generalizing state units with
  | done value => exact ⟨Nat.le_refl _, h, past⟩
  | fail error => exact ⟨Nat.le_refl _, h, past⟩
  | unfinished => exact ⟨Nat.le_refl _, h, past⟩
  | perform effect next ih =>
    have hle := onward.perform effect state
    obtain ⟨hlater, hrest⟩ := ih (world.perform effect state).1 h fun unit hunit =>
      Nat.le_trans (past unit hunit) hle
    exact ⟨Nat.le_trans hle hlater, hrest⟩
  | spawn spawned next ihspawned ih =>
    refine ih ⟨?_, ?_⟩ ?_
    · exact List.pairwise_append.2 ⟨h.inOrder, List.pairwise_singleton _ _,
        fun unit hunit later hlater => List.mem_singleton.1 hlater ▸ past unit hunit⟩
    · refine List.forall_mem_append.2 ⟨h.onward, List.forall_mem_singleton.2 ?_⟩
      intro start before
      have hle := (@ihspawned (world.setTime before start) [] ⟨.nil, fun _ h => (by cases h)⟩
        fun _ h => (by cases h)).1
      rwa [onward.setTime] at hle
    · exact List.forall_mem_append.2 ⟨past, List.forall_mem_singleton.2 (Nat.le_refl _)⟩
  | gather limit spawner next ihspawner ih =>
    obtain ⟨hspawner, -, -⟩ := @ihspawner state []
      ⟨.nil, fun _ h => (by cases h)⟩ fun _ h => (by cases h)
    simp only [runWith]
    generalize spawner.runWith world state [] = spawning at hspawner ⊢
    obtain ⟨outcome, last, spawned⟩ := spawning
    dsimp only at hspawner ⊢
    generalize TaskGroup.run limit spawned last = group
    -- the clock is set to the end of the group
    have hle : world.time state ≤
        world.time (world.setTime group.state (group.finishedAt (world.time last))) := by
      rw [onward.setTime]
      exact Nat.le_trans hspawner (Nat.le_max_left _ _)
    have hpast : ∀ unit ∈ units, unit.arrival ≤ _ := fun unit hunit =>
      Nat.le_trans (past unit hunit) hle
    cases gathered? outcome group with
    | none => exact ⟨hle, h, hpast⟩
    | some gathered =>
      obtain ⟨hlater, hrest⟩ := ih gathered h hpast
      exact ⟨Nat.le_trans hle hlater, hrest⟩

/-- The units of a program that runs on a host are handed over in order. -/
theorem Program.orderly_spawned {α : Type} (program : Program α) (session : Session)
    (host : Host) :
    TaskGroup.Orderly (program.runWith (Host.world session) host []).2.2 :=
  (program.orderly_runWith (Host.onward_world session) ⟨.nil, fun _ h => (by cases h)⟩
    fun _ h => (by cases h)).2.1

namespace Sample

/-- A unit that is there from the start, and takes a number of milliseconds. -/
def timed (duration : Nat) (result : Except String Nat) : WorkUnit Unit String Nat :=
  ⟨0, fun start _ => (result, start + duration, ())⟩

/-- Two units of which the one fails late, a third that fails early, and a fourth. -/
def racing : List (WorkUnit Unit String Nat) :=
  [timed 5 (.error "late"), timed 2 (.ok 1), timed 2 (.error "early"), timed 1 (.ok 2)]

/-- With two permits, the third unit starts when the second has ended and is the first to fail. The
fourth is skipped. -/
theorem racing_conducts :
    let group := TaskGroup.run 2 racing ()
    TaskGroup.Orderly racing ∧ group.ends = [2, 4, 5] ∧ group.started = [1, 2, 0] ∧
      group.joined = .error "early" ∧ group.finishedAt 0 = 5 ∧
      ∃ turns, group.Conducts 2 racing turns := by
  intro group
  have orderly : TaskGroup.Orderly racing :=
    ⟨by simp [racing, timed], by simp [racing, timed]⟩
  have ends : group.ends = [2, 4, 5] := by decide
  obtain ⟨schedule, isOver, conducts⟩ := TaskGroup.run_conducts orderly 2 ()
  exact ⟨orderly, ends, by decide, rfl, rfl,
    (conducts [] group schedule).2 rfl isOver (by rw [ends]; decide)⟩

-- outputs come in the order of the ends
example : (TaskGroup.run 2 [timed 5 (.ok 1), timed 2 (.ok 2)] ()).joined = .ok [2, 1] := rfl

end Sample

end HiveForum
