import HiveForum.Proofs.Schedule.Moves
import Mathlib.Data.List.Forall2
import Mathlib.Logic.Relation

/-!
# Schedules of a task group

The tasks of a group may make their moves in any order that the permits and the clock allow: permits
go to the tasks in the order in which they were spawned, and the clock moves only while all tasks
wait. What a group keeps in every such order is that its permits and the tasks that hold one make
up the limit, that each task ends when its unit does, and that a task waits for a permit only while
all of them are given away.

## Main definitions

* `TaskGroup.Step`: what may happen next to a group and the units that wait for their permits.
* `TaskGroup.Orderly`: units are handed over in order, and do not end before they start.
* `TaskGroup.Timed`: where the tasks of a group are when the clock shows its time.
* `TaskGroup.Supplied`: how many units have run at each time so far.
* `TaskGroup.Flagged`: what the flag tells about the tasks that have ended.
* `TaskGroup.Serves`, `TaskGroup.Placed`: the turns of the units that have got their permits.

## Main results

* `TaskGroup.Timed.step`, `TaskGroup.Supplied.step`, `TaskGroup.Flagged.step`: what a step keeps.
* `TaskGroup.Placed.enter`: the next unit gets its permit in its turn.
-/

namespace HiveForum

variable {σ ε β : Type}

namespace TaskGroup

/-- Units are handed over one after another, and none ends before it starts. -/
structure Orderly (units : List (WorkUnit σ ε β)) : Prop where
  inOrder : units.Pairwise fun unit later => unit.arrival ≤ later.arrival
  onward : ∀ unit ∈ units, ∀ start state, start ≤ (unit.work start state).2.1

/-- What may happen next to a group and the units whose tasks wait for a permit. -/
inductive Step : List (WorkUnit σ ε β) × TaskGroup σ ε β →
    List (WorkUnit σ ε β) × TaskGroup σ ε β → Prop where
  | pass {waiting : List (WorkUnit σ ε β)} {group : TaskGroup σ ε β} (time : Nat)
      (settled : group.leaving = []) (runs : ∀ turn ∈ group.running, time ≤ turn.finish)
      (waits : ∀ unit ∈ waiting.head?, group.permits = 0 ∨ time ≤ unit.arrival) :
      Step (waiting, group) (waiting, group.pass time)
  | enter {unit : WorkUnit σ ε β} {waiting : List (WorkUnit σ ε β)} {group : TaskGroup σ ε β}
      (free : 0 < group.permits) (arrived : unit.arrival ≤ group.clock) :
      Step (unit :: waiting, group) (waiting, group.enter unit)
  | conclude {waiting : List (WorkUnit σ ε β)} {group : TaskGroup σ ε β}
      {before after : List (Turn ε β)} {turn : Turn ε β}
      (h : group.running = before ++ turn :: after) (due : turn.finish ≤ group.clock) :
      Step (waiting, group) (waiting, group.conclude turn (before ++ after))
  | release {waiting : List (WorkUnit σ ε β)} {group : TaskGroup σ ε β}
      {before after : List (Turn ε β)} {turn : Turn ε β}
      (h : group.leaving = before ++ turn :: after) :
      Step (waiting, group) (waiting, group.release turn (before ++ after))

variable {group group' : TaskGroup σ ε β} {unit : WorkUnit σ ε β}
  {units waiting waiting' : List (WorkUnit σ ε β)} {turn : Turn ε β}
  {before after turns : List (Turn ε β)} {limit time : Nat} {state : σ}

/-! ### Where the tasks are -/

/-- Every permit is left or held by a task. A unit runs on until its end, and then its task ends
before the clock moves. -/
structure Timed (limit : Nat) (group : TaskGroup σ ε β) : Prop where
  permits : group.permits + group.leaving.length + group.running.length = max limit 1
  entered : ∀ turn ∈ group.turns, turn.slot ≤ group.clock
  lasting : ∀ turn ∈ group.turns, turn.slot ≤ turn.finish
  running : ∀ turn ∈ group.running, group.clock ≤ turn.finish
  leaving : ∀ turn ∈ group.leaving, turn.finish = group.clock
  ended : ∀ turn ∈ group.ended, turn.finish ≤ group.clock
  lined : group.running.Pairwise fun turn later => turn.finish ≤ later.finish
  ordered : group.ended.Pairwise fun turn later => turn.finish ≤ later.finish

theorem timed_new (limit : Nat) (state : σ) : (new limit state : TaskGroup σ ε β).Timed limit where
  permits := rfl
  entered _ h := by cases h
  lasting _ h := by cases h
  running _ h := by cases h
  leaving _ h := by cases h
  ended _ h := by cases h
  lined := .nil
  ordered := .nil

theorem pairwise_enqueue (h : turns.Pairwise fun turn later => turn.finish ≤ later.finish) :
    (enqueue turn turns).Pairwise fun turn later => turn.finish ≤ later.finish := by
  induction turns with
  | nil => exact List.pairwise_singleton _ _
  | cons other rest ih =>
    obtain ⟨hother, hrest⟩ := List.pairwise_cons.1 h
    rw [enqueue]
    split
    · rename_i hlt
      refine List.pairwise_cons.2 ⟨fun later hlater => ?_, h⟩
      obtain rfl | hlater := List.mem_cons.1 hlater
      · exact Nat.le_of_lt hlt
      · exact Nat.le_trans (Nat.le_of_lt hlt) (hother later hlater)
    · rename_i hle
      refine List.pairwise_cons.2 ⟨fun later hlater => ?_, ih hrest⟩
      obtain rfl | hlater := List.mem_cons.1 ((perm_enqueue turn rest).mem_iff.1 hlater)
      · exact Nat.not_lt.1 hle
      · exact hother later hlater

theorem Timed.pass (h : group.Timed limit) (settled : group.leaving = [])
    (runs : ∀ turn ∈ group.running, time ≤ turn.finish) : (group.pass time).Timed limit where
  permits := h.permits
  entered turn hturn := Nat.le_trans (h.entered turn hturn) (Nat.le_max_left _ _)
  lasting := h.lasting
  running turn hturn := Nat.max_le.2 ⟨h.running turn hturn, runs turn hturn⟩
  leaving turn hturn := by
    have hnone : turn ∈ group.leaving := hturn
    rw [settled] at hnone
    cases hnone
  ended turn hturn := Nat.le_trans (h.ended turn hturn) (Nat.le_max_left _ _)
  lined := h.lined
  ordered := h.ordered

theorem Timed.skip (h : group.Timed limit) (free : 0 < group.permits) : group.skip.Timed limit where
  permits := by
    have hpermits := h.permits
    simp only [TaskGroup.skip, List.length_append, List.length_singleton]
    omega
  entered turn hturn := by
    obtain rfl | hturn := List.mem_cons.1 (group.perm_turns_skip.mem_iff.1 hturn)
    · exact Nat.le_refl _
    · exact h.entered turn hturn
  lasting turn hturn := by
    obtain rfl | hturn := List.mem_cons.1 (group.perm_turns_skip.mem_iff.1 hturn)
    · exact Nat.le_refl _
    · exact h.lasting turn hturn
  running := h.running
  leaving := List.forall_mem_append.2 ⟨h.leaving, List.forall_mem_singleton.2 rfl⟩
  ended := h.ended
  lined := h.lined
  ordered := h.ordered

theorem Timed.start (h : group.Timed limit) (free : 0 < group.permits)
    (onward : ∀ start state, start ≤ (unit.work start state).2.1) :
    (group.start unit).Timed limit where
  permits := by
    have hpermits := h.permits
    simp only [TaskGroup.start, (perm_enqueue _ _).length_eq, List.length_cons]
    omega
  entered turn hturn := by
    obtain rfl | hturn := List.mem_cons.1 ((group.perm_turns_start unit).mem_iff.1 hturn)
    · exact Nat.le_refl _
    · exact h.entered turn hturn
  lasting turn hturn := by
    obtain rfl | hturn := List.mem_cons.1 ((group.perm_turns_start unit).mem_iff.1 hturn)
    · exact onward _ _
    · exact h.lasting turn hturn
  running turn hturn := by
    obtain rfl | hturn := List.mem_cons.1 ((perm_enqueue _ _).mem_iff.1 hturn)
    · exact onward _ _
    · exact h.running turn hturn
  leaving := h.leaving
  ended := h.ended
  lined := pairwise_enqueue h.lined
  ordered := h.ordered

theorem Timed.conclude (h : group.Timed limit) (hrunning : group.running = before ++ turn :: after)
    (due : turn.finish ≤ group.clock) : (group.conclude turn (before ++ after)).Timed limit where
  permits := by
    have hpermits := h.permits
    rw [hrunning] at hpermits
    simp only [TaskGroup.conclude, List.length_append, List.length_cons, List.length_nil]
      at hpermits ⊢
    omega
  entered other hother := h.entered other ((perm_turns_conclude hrunning).mem_iff.1 hother)
  lasting other hother := h.lasting other ((perm_turns_conclude hrunning).mem_iff.1 hother)
  running other hother := h.running other <| by
    rw [hrunning]
    exact List.perm_middle.mem_iff.2 (List.mem_cons_of_mem _ hother)
  leaving := by
    have hturn : turn ∈ group.running := by simp [hrunning]
    exact List.forall_mem_append.2 ⟨h.leaving,
      List.forall_mem_singleton.2 (Nat.le_antisymm due (h.running turn hturn))⟩
  ended := h.ended
  lined := h.lined.sublist <| by
    rw [hrunning]
    exact (List.sublist_cons_self turn after).append_left before
  ordered := h.ordered

theorem Timed.release (h : group.Timed limit) (hleaving : group.leaving = before ++ turn :: after) :
    (group.release turn (before ++ after)).Timed limit where
  permits := by
    have hpermits := h.permits
    rw [hleaving] at hpermits
    simp only [TaskGroup.release, List.length_append, List.length_cons] at hpermits ⊢
    omega
  entered other hother := h.entered other ((perm_turns_release hleaving).mem_iff.1 hother)
  lasting other hother := h.lasting other ((perm_turns_release hleaving).mem_iff.1 hother)
  running := h.running
  leaving other hother := h.leaving other <| by
    rw [hleaving]
    exact List.perm_middle.mem_iff.2 (List.mem_cons_of_mem _ hother)
  ended := by
    have hturn : turn ∈ group.leaving := by simp [hleaving]
    exact List.forall_mem_append.2 ⟨h.ended,
      List.forall_mem_singleton.2 (Nat.le_of_eq (h.leaving turn hturn))⟩
  lined := h.lined
  ordered := by
    have hturn : turn ∈ group.leaving := by simp [hleaving]
    refine List.pairwise_append.2 ⟨h.ordered, List.pairwise_singleton _ _, ?_⟩
    intro other hother later hlater
    rw [List.mem_singleton.1 hlater, h.leaving turn hturn]
    exact h.ended other hother

theorem Timed.step (h : group.Timed limit)
    (onward : ∀ unit ∈ waiting, ∀ start state, start ≤ (unit.work start state).2.1)
    (step : Step (waiting, group) (waiting', group')) : group'.Timed limit := by
  cases step with
  | pass time settled runs waits => exact h.pass settled runs
  | enter free arrived =>
    rw [enter]
    split
    · exact h.skip free
    · exact h.start free (onward _ List.mem_cons_self)
  | conclude hrunning due => exact h.conclude hrunning due
  | release hleaving => exact h.release hleaving

/-! ### How many units run -/

/-- How many units run at a time. -/
def busy (group : TaskGroup σ ε β) (time : Nat) : Nat :=
  group.turns.countP fun turn => decide (turn.slot ≤ time) && decide (time < turn.finish)

theorem busy_enter (h : time < group.clock) : (group.enter unit).busy time = group.busy time := by
  obtain ⟨run, hturns, -⟩ := group.enter_course unit
  rw [busy, hturns.countP_eq, List.countP_cons_of_neg (by simp [Nat.not_le.2 h])]
  rfl

/-- While all tasks wait, the units that run are those whose tasks hold a permit. -/
theorem Timed.busy_eq (h : group.Timed limit) (settled : group.leaving = [])
    (past : group.clock ≤ time) (runs : ∀ turn ∈ group.running, time < turn.finish) :
    group.busy time = group.running.length := by
  have hended : group.ended.countP
      (fun turn => decide (turn.slot ≤ time) && decide (time < turn.finish)) = 0 := by
    refine List.countP_eq_zero.2 fun turn hturn => ?_
    have hfinish := Nat.le_trans (h.ended turn hturn) past
    simp [Nat.not_lt.2 hfinish]
  have hrunning : group.running.countP
      (fun turn => decide (turn.slot ≤ time) && decide (time < turn.finish)) =
        group.running.length := by
    refine List.countP_eq_length.2 fun turn hturn => ?_
    have hslot := Nat.le_trans (h.entered turn (by simp [turns, hturn])) past
    simp [hslot, runs turn hturn]
  rw [busy, turns, settled, List.append_nil, List.countP_append, hended, hrunning, Nat.zero_add]

/-- No more units have run at a time than the limit allows, and as many whenever a task was waiting
for its permit. -/
structure Supplied (limit : Nat) (waiting : List (WorkUnit σ ε β)) (group : TaskGroup σ ε β) :
    Prop where
  bounded : ∀ time < group.clock, group.busy time ≤ max limit 1
  waits : ∀ unit ∈ waiting, ∀ time, unit.arrival ≤ time → time < group.clock →
    group.busy time = max limit 1

theorem Supplied.pass (h : group.Supplied limit waiting) (timed : group.Timed limit)
    (inOrder : waiting.Pairwise fun unit later => unit.arrival ≤ later.arrival)
    (settled : group.leaving = []) (runs : ∀ turn ∈ group.running, time ≤ turn.finish)
    (waits : ∀ unit ∈ waiting.head?, group.permits = 0 ∨ time ≤ unit.arrival) :
    (group.pass time).Supplied limit waiting := by
  have hpermits := timed.permits
  rw [settled, List.length_nil] at hpermits
  -- between the two times the units run whose tasks hold a permit
  have hbusy : ∀ {now}, group.clock ≤ now → now < time →
      (group.pass time).busy now = group.running.length := fun hpast hnow =>
    timed.busy_eq settled hpast fun turn hturn => Nat.lt_of_lt_of_le hnow (runs turn hturn)
  refine ⟨fun now hnow => ?_, fun unit hunit now harrival hnow => ?_⟩
  · obtain hbefore | hpast := Nat.lt_or_ge now group.clock
    · exact h.bounded now hbefore
    · have hclock : now < max group.clock time := hnow
      rw [hbusy hpast (by omega)]
      omega
  · obtain hbefore | hpast := Nat.lt_or_ge now group.clock
    · exact h.waits unit hunit now harrival hbefore
    · have hclock : now < max group.clock time := hnow
      rw [hbusy hpast (by omega)]
      cases waiting with
      | nil => cases hunit
      | cons first rest =>
        have hfirst : first.arrival ≤ unit.arrival := by
          obtain rfl | hrest := List.mem_cons.1 hunit
          · exact Nat.le_refl _
          · exact (List.pairwise_cons.1 inOrder).1 unit hrest
        obtain hnone | hle := waits first rfl
        · omega
        · omega

theorem Supplied.enter (h : group.Supplied limit (unit :: waiting)) :
    (group.enter unit).Supplied limit waiting := by
  refine ⟨fun now hnow => ?_, fun other hother now harrival hnow => ?_⟩
  · rw [clock_enter] at hnow
    rw [busy_enter hnow]
    exact h.bounded now hnow
  · rw [clock_enter] at hnow
    rw [busy_enter hnow]
    exact h.waits other (List.mem_cons_of_mem _ hother) now harrival hnow

theorem Supplied.of_perm (h : group.Supplied limit waiting) (turns : group'.turns.Perm group.turns)
    (clock : group'.clock = group.clock) : group'.Supplied limit waiting := by
  have hbusy : ∀ time, group'.busy time = group.busy time := fun time => turns.countP_eq _
  refine ⟨fun now hnow => ?_, fun unit hunit now harrival hnow => ?_⟩
  · rw [hbusy]
    exact h.bounded now (clock ▸ hnow)
  · rw [hbusy]
    exact h.waits unit hunit now harrival (clock ▸ hnow)

theorem Supplied.step (h : group.Supplied limit waiting) (timed : group.Timed limit)
    (inOrder : waiting.Pairwise fun unit later => unit.arrival ≤ later.arrival)
    (step : Step (waiting, group) (waiting', group')) : group'.Supplied limit waiting' := by
  cases step with
  | pass time settled runs waits => exact h.pass timed inOrder settled runs waits
  | enter free arrived => exact h.enter
  | conclude hrunning due => exact h.of_perm (perm_turns_conclude hrunning) rfl
  | release hleaving => exact h.of_perm (perm_turns_release hleaving) rfl

/-! ### The flag -/

/-- The flag is set if a task is about to end, or has ended, whose unit has failed. Units are
skipped only after such a failure, and always later than one. -/
structure Flagged (group : TaskGroup σ ε β) : Prop where
  flag : group.failed = true ↔ ∃ turn ∈ group.ended ++ group.leaving, turn.error?.isSome
  skips : ∀ turn ∈ group.turns, turn.run = .skipped →
    ∃ other ∈ group.ended ++ group.leaving, other.error?.isSome ∧ other.finish ≤ turn.slot
  halts : ∀ turn ∈ group.turns, turn.error?.isSome → ∀ other ∈ group.turns,
    turn.finish < other.slot → other.run = .skipped

theorem flagged_new (limit : Nat) (state : σ) : (new limit state : TaskGroup σ ε β).Flagged where
  flag := ⟨fun h => (by cases h), fun ⟨_, h, _⟩ => by cases h⟩
  skips _ h := by cases h
  halts _ h := by cases h

namespace Flagged

theorem skip (h : group.Flagged) (timed : group.Timed limit) (failed : group.failed = true) :
    group.skip.Flagged := by
  have hmore : ∀ {turn}, turn ∈ group.ended ++ group.leaving →
      turn ∈ group.skip.ended ++ group.skip.leaving := by
    intro turn hturn
    rw [TaskGroup.skip, ← List.append_assoc]
    exact List.mem_append_left _ hturn
  obtain ⟨first, hfirst, herror⟩ := h.flag.1 failed
  have hfinish : first.finish ≤ group.clock := (List.mem_append.1 hfirst).elim
    (timed.ended first) fun hleaving => Nat.le_of_eq (timed.leaving first hleaving)
  refine ⟨⟨fun _ => ⟨first, hmore hfirst, herror⟩, fun _ => failed⟩, ?_, ?_⟩
  · intro turn hturn hskipped
    obtain rfl | hturn := List.mem_cons.1 (group.perm_turns_skip.mem_iff.1 hturn)
    · exact ⟨first, hmore hfirst, herror, hfinish⟩
    · obtain ⟨other, hother, hfails⟩ := h.skips turn hturn hskipped
      exact ⟨other, hmore hother, hfails⟩
  · intro turn hturn hfails other hother hlt
    obtain rfl | hother := List.mem_cons.1 (group.perm_turns_skip.mem_iff.1 hother)
    · rfl
    · obtain rfl | hturn := List.mem_cons.1 (group.perm_turns_skip.mem_iff.1 hturn)
      · cases hfails
      · exact h.halts turn hturn hfails other hother hlt

theorem start (h : group.Flagged) (timed : group.Timed limit) (failed : group.failed = false)
    (onward : ∀ start state, start ≤ (unit.work start state).2.1) : (group.start unit).Flagged := by
  have hturns := group.perm_turns_start unit
  refine ⟨h.flag, fun turn hturn hskipped => ?_, fun turn hturn hfails other hother hlt => ?_⟩
  · obtain rfl | hturn := List.mem_cons.1 (hturns.mem_iff.1 hturn)
    · cases hskipped
    · exact h.skips turn hturn hskipped
  · have hclock : group.clock ≤ turn.finish := by
      obtain rfl | hturn := List.mem_cons.1 (hturns.mem_iff.1 hturn)
      · exact onward _ _
      · -- a unit that fails before that would have set the flag
        by_contra hpast
        have hended : turn ∈ group.ended ++ group.leaving := by
          obtain hended | hrunning := List.mem_append.1 hturn
          · exact hended
          · exact absurd (timed.running turn hrunning) hpast
        rw [h.flag.2 ⟨turn, hended, hfails⟩] at failed
        cases failed
    obtain rfl | hother := List.mem_cons.1 (hturns.mem_iff.1 hother)
    · exact absurd hlt (Nat.not_lt.2 hclock)
    · have hslot := timed.entered other hother
      omega

theorem conclude (h : group.Flagged) (hrunning : group.running = before ++ turn :: after) :
    (group.conclude turn (before ++ after)).Flagged := by
  have hturns := perm_turns_conclude hrunning
  have hmore : group.ended ++ (group.leaving ++ [turn]) = group.ended ++ group.leaving ++ [turn] :=
    (List.append_assoc _ _ _).symm
  refine ⟨?_, fun other hother hskipped => ?_, fun other hother hfails later hlater => ?_⟩
  · change (group.failed || turn.error?.isSome) = true ↔
      ∃ other ∈ group.ended ++ (group.leaving ++ [turn]), other.error?.isSome
    rw [hmore, Bool.or_eq_true, h.flag]
    simp only [List.mem_append, List.mem_singleton, or_and_right, exists_or, exists_eq_left]
  · obtain ⟨first, hfirst, hfails⟩ := h.skips other (hturns.mem_iff.1 hother) hskipped
    refine ⟨first, ?_, hfails⟩
    rw [TaskGroup.conclude, hmore]
    exact List.mem_append_left _ hfirst
  · exact h.halts other (hturns.mem_iff.1 hother) hfails later (hturns.mem_iff.1 hlater)

theorem release (h : group.Flagged) (hleaving : group.leaving = before ++ turn :: after) :
    (group.release turn (before ++ after)).Flagged := by
  have hturns := perm_turns_release hleaving
  have hsame :
      (group.ended ++ [turn] ++ (before ++ after)).Perm (group.ended ++ group.leaving) := by
    have hmiddle : (turn :: (before ++ after)).Perm (before ++ turn :: after) :=
      List.perm_middle.symm
    rw [hleaving, List.append_assoc]
    exact hmiddle.append_left group.ended
  refine ⟨?_, fun other hother hskipped => ?_, fun other hother hfails later hlater => ?_⟩
  · refine h.flag.trans ⟨?_, ?_⟩
    · exact fun ⟨other, hother, hfails⟩ => ⟨other, hsame.mem_iff.2 hother, hfails⟩
    · exact fun ⟨other, hother, hfails⟩ => ⟨other, hsame.mem_iff.1 hother, hfails⟩
  · obtain ⟨first, hfirst, hfails⟩ := h.skips other (hturns.mem_iff.1 hother) hskipped
    exact ⟨first, hsame.mem_iff.2 hfirst, hfails⟩
  · exact h.halts other (hturns.mem_iff.1 hother) hfails later (hturns.mem_iff.1 hlater)

theorem step (h : group.Flagged) (timed : group.Timed limit)
    (onward : ∀ unit ∈ waiting, ∀ start state, start ≤ (unit.work start state).2.1)
    (step : Step (waiting, group) (waiting', group')) : group'.Flagged := by
  cases step with
  | pass time settled runs waits => exact ⟨h.flag, h.skips, h.halts⟩
  | enter free arrived =>
    rw [enter]
    split
    · exact h.skip timed ‹_›
    · exact h.start timed (Bool.eq_false_iff.2 ‹_›) (onward _ List.mem_cons_self)
  | conclude hrunning due => exact h.conclude hrunning
  | release hleaving => exact h.release hleaving

end Flagged

/-! ### The turns of the units -/

/-- The unit got its permit after its arrival, and waited for it only while as many units ran as
the limit allows. It was skipped, or it runs from then on. -/
structure Serves (limit : Nat) (group : TaskGroup σ ε β) (unit : WorkUnit σ ε β)
    (turn : Turn ε β) : Prop where
  arrived : unit.arrival ≤ turn.slot
  entered : turn.slot ≤ group.clock
  prompt : ∀ time, unit.arrival ≤ time → time < turn.slot → group.busy time = max limit 1
  course : turn.run = .skipped ∨ ∃ result finish before after,
    unit.work turn.slot before = (result, finish, after) ∧ turn.run = .ran finish result

/-- The turns of the units that do not wait for a permit any more, in the order of spawning. -/
structure Placed (limit : Nat) (units waiting : List (WorkUnit σ ε β)) (turns : List (Turn ε β))
    (group : TaskGroup σ ε β) : Prop where
  served : ∃ begun, begun ++ waiting = units ∧ List.Forall₂ (Serves limit group) begun turns
  indices : turns.map (·.index) = List.range group.admitted
  perm : group.turns.Perm turns
  inTurn : turns.Pairwise fun turn later => turn.slot ≤ later.slot
  /-- Those that started are the first ones. -/
  front : turns.Pairwise fun turn later => turn.run = .skipped → later.run = .skipped

theorem placed_new (limit : Nat) (units : List (WorkUnit σ ε β)) (state : σ) :
    (new limit state : TaskGroup σ ε β).Placed limit units units [] where
  served := ⟨[], rfl, .nil⟩
  indices := rfl
  perm := .refl _
  inTurn := .nil
  front := .nil

theorem Serves.later (h : Serves limit group unit turn) (onward : group.clock ≤ group'.clock)
    (busy : ∀ time < group.clock, group'.busy time = group.busy time) :
    Serves limit group' unit turn where
  arrived := h.arrived
  entered := Nat.le_trans h.entered onward
  prompt time harrival htime := by
    rw [busy time (Nat.lt_of_lt_of_le htime h.entered)]
    exact h.prompt time harrival htime
  course := h.course

theorem Placed.of_perm (h : group.Placed limit units waiting turns)
    (perm : group'.turns.Perm group.turns) (onward : group.clock ≤ group'.clock)
    (admitted : group'.admitted = group.admitted) : group'.Placed limit units waiting turns where
  served := by
    obtain ⟨begun, hunits, hserved⟩ := h.served
    exact ⟨begun, hunits, hserved.imp fun _ _ h => h.later onward fun _ _ => perm.countP_eq _⟩
  indices := admitted ▸ h.indices
  perm := perm.trans h.perm
  inTurn := h.inTurn
  front := h.front

theorem Placed.enter (h : group.Placed limit units (unit :: waiting) turns)
    (timed : group.Timed limit) (flagged : group.Flagged)
    (supplied : group.Supplied limit (unit :: waiting)) (arrived : unit.arrival ≤ group.clock) :
    ∃ run, (group.enter unit).Placed limit units waiting
      (turns ++ [⟨group.admitted, group.clock, run⟩]) := by
  obtain ⟨begun, hunits, hserved⟩ := h.served
  obtain ⟨run, hturns, hrun⟩ := group.enter_course unit
  refine ⟨run, ⟨begun ++ [unit], ?_, ?_⟩, ?_, ?_, ?_, ?_⟩
  · rw [List.append_assoc, List.singleton_append, hunits]
  · refine List.rel_append (hserved.imp fun _ _ h => ?_) (.cons ⟨arrived, ?_, ?_, ?_⟩ .nil)
    · exact h.later (Nat.le_of_eq clock_enter.symm) fun _ => busy_enter
    · exact Nat.le_of_eq clock_enter.symm
    · intro time harrival htime
      rw [busy_enter htime]
      exact supplied.waits unit List.mem_cons_self time harrival htime
    · obtain ⟨-, rfl, -⟩ | ⟨-, result, finish, hwork, rfl⟩ := hrun
      · exact .inl rfl
      · exact .inr ⟨result, finish, _, _, hwork, rfl⟩
  · rw [List.map_append, h.indices, admitted_enter, List.range_succ]
    rfl
  · exact hturns.trans ((h.perm.cons _).trans (List.perm_append_singleton _ _).symm)
  · refine List.pairwise_append.2 ⟨h.inTurn, List.pairwise_singleton _ _, ?_⟩
    intro turn hturn later hlater
    rw [List.mem_singleton.1 hlater]
    exact timed.entered turn (h.perm.mem_iff.2 hturn)
  · refine List.pairwise_append.2 ⟨h.front, List.pairwise_singleton _ _, ?_⟩
    intro turn hturn later hlater hskipped
    obtain ⟨other, hother, hfails, -⟩ := flagged.skips turn (h.perm.mem_iff.2 hturn) hskipped
    rw [List.mem_singleton.1 hlater]
    obtain ⟨-, rfl, -⟩ | ⟨hfailed, -⟩ := hrun
    · rfl
    · rw [flagged.flag.2 ⟨other, hother, hfails⟩] at hfailed
      cases hfailed

end TaskGroup

end HiveForum
