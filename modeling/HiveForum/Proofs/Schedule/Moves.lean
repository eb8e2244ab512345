import HiveForum.Schedule.TaskGroup
import Mathlib.Data.List.Perm.Lattice

/-!
# The moves of a task group

Only an admission touches the state of a group, and only it makes a turn. The other moves hand the
turns on, set the clock to the end of one of them, and set the flag for one that has failed. So a
group that is given one more unit has one more turn, and its state is that after the unit unless
the unit is skipped.

## Main definitions

* `TaskGroup.Ahead`: what other moves than admissions make of a group.
* `TaskGroup.Over`: all tasks of a group have ended.
* `TaskGroup.seen`: what can be seen of a group.

## Main results

* `TaskGroup.enter_course`, `TaskGroup.add_course`: what becomes of the next unit of a group.
* `TaskGroup.run_induction`: what each unit keeps holds of a group that has run all of them.
* `TaskGroup.seen_run`: what can be seen of a group is the run of what can be seen of its units.
-/

namespace HiveForum

variable {σ τ ε β : Type}

namespace TaskGroup

variable {group later last : TaskGroup σ ε β} {unit : WorkUnit σ ε β} {turn : Turn ε β}
  {before after : List (Turn ε β)}

/-! ### Turns -/

theorem perm_enqueue (turn : Turn ε β) (turns : List (Turn ε β)) :
    (enqueue turn turns).Perm (turn :: turns) := by
  induction turns with
  | nil => exact .refl _
  | cons other rest ih =>
    rw [enqueue]
    split
    · exact .refl _
    · exact (ih.cons other).trans (.swap turn other rest)

theorem perm_turns_conclude (h : group.running = before ++ turn :: after) :
    (group.conclude turn (before ++ after)).turns.Perm group.turns := by
  have hmiddle : (turn :: (before ++ after)).Perm group.running := h ▸ List.perm_middle.symm
  change (group.ended ++ (group.leaving ++ [turn]) ++ (before ++ after)).Perm
    (group.ended ++ group.leaving ++ group.running)
  simpa using (hmiddle.append_left group.leaving).append_left group.ended

theorem perm_turns_release (h : group.leaving = before ++ turn :: after) :
    (group.release turn (before ++ after)).turns.Perm group.turns := by
  have hmiddle : (turn :: (before ++ after)).Perm group.leaving := h ▸ List.perm_middle.symm
  change (group.ended ++ [turn] ++ (before ++ after) ++ group.running).Perm
    (group.ended ++ group.leaving ++ group.running)
  simpa using (hmiddle.append_left group.ended).append_right group.running

theorem perm_turns_skip (group : TaskGroup σ ε β) :
    group.skip.turns.Perm (⟨group.admitted, group.clock, .skipped⟩ :: group.turns) := by
  let turn : Turn ε β := ⟨group.admitted, group.clock, .skipped⟩
  change (group.ended ++ (group.leaving ++ [turn]) ++ group.running).Perm
    (turn :: (group.ended ++ group.leaving ++ group.running))
  rw [← List.append_assoc, List.append_assoc _ [turn]]
  exact List.perm_middle

theorem perm_turns_start (group : TaskGroup σ ε β) (unit : WorkUnit σ ε β) :
    let (result, finish, _) := unit.work group.clock group.state
    (group.start unit).turns.Perm
      (⟨group.admitted, group.clock, .ran finish result⟩ :: group.turns) :=
  ((perm_enqueue _ _).append_left _).trans List.perm_middle

/-- After a failure the next unit is skipped, else it runs from the time on that the clock shows. -/
theorem enter_course (group : TaskGroup σ ε β) (unit : WorkUnit σ ε β) : ∃ run,
    (group.enter unit).turns.Perm (⟨group.admitted, group.clock, run⟩ :: group.turns) ∧
      (group.failed = true ∧ run = .skipped ∧ (group.enter unit).state = group.state ∨
        group.failed = false ∧ ∃ result finish,
          unit.work group.clock group.state = (result, finish, (group.enter unit).state) ∧
            run = .ran finish result) := by
  unfold enter
  split
  · rename_i hfailed
    exact ⟨.skipped, group.perm_turns_skip, .inl ⟨hfailed, rfl, rfl⟩⟩
  · rename_i hfailed
    exact ⟨_, group.perm_turns_start unit, .inr ⟨by simpa using hfailed, _, _, rfl, rfl⟩⟩

/-! ### What other moves than admissions make -/

/-- The group has gone on without an admission. -/
structure Ahead (group later : TaskGroup σ ε β) : Prop where
  state : later.state = group.state
  turns : later.turns.Perm group.turns
  failed : later.failed = true → group.failed = true ∨ group.failures ≠ []
  onward : group.clock ≤ later.clock
  clock : later.clock = group.clock ∨ ∃ turn ∈ group.turns, later.clock = turn.finish

theorem mem_failures {error : ε} :
    error ∈ group.failures ↔ ∃ turn ∈ group.turns, turn.error? = some error := List.mem_filterMap

theorem failures_ne_nil (hturn : turn ∈ group.turns) (h : turn.error?.isSome = true) :
    group.failures ≠ [] := by
  obtain ⟨error, herror⟩ := Option.isSome_iff_exists.1 h
  exact List.ne_nil_of_mem (mem_failures.2 ⟨turn, hturn, herror⟩)

namespace Ahead

theorem refl (group : TaskGroup σ ε β) : group.Ahead group :=
  ⟨rfl, .refl _, .inl, Nat.le_refl _, .inl rfl⟩

theorem failures (h : group.Ahead later) : later.failures.Perm group.failures :=
  h.turns.filterMap _

theorem trans (h : group.Ahead later) (h' : later.Ahead last) : group.Ahead last where
  state := h'.state.trans h.state
  turns := h'.turns.trans h.turns
  failed hfailed := (h'.failed hfailed).elim h.failed fun hsome =>
    .inr fun hnone => hsome (hnone ▸ h.failures).eq_nil
  onward := Nat.le_trans h.onward h'.onward
  clock := by
    obtain heq | ⟨turn, hturn, heq⟩ := h'.clock
    · rw [heq]
      exact h.clock
    · exact .inr ⟨turn, h.turns.mem_iff.1 hturn, heq⟩

theorem pass (hturn : turn ∈ group.turns) : group.Ahead (group.pass turn.finish) where
  state := rfl
  turns := .refl _
  failed := .inl
  onward := Nat.le_max_left _ _
  clock := by
    obtain hle | hle := Nat.le_total turn.finish group.clock
    · exact .inl (Nat.max_eq_left hle)
    · exact .inr ⟨turn, hturn, Nat.max_eq_right hle⟩

theorem conclude (h : group.running = before ++ turn :: after) :
    group.Ahead (group.conclude turn (before ++ after)) where
  state := rfl
  turns := perm_turns_conclude h
  failed hfailed := (Bool.or_eq_true_iff.1 hfailed).imp_right <|
    failures_ne_nil (by simp [TaskGroup.turns, h])
  onward := Nat.le_refl _
  clock := .inl rfl

theorem release (h : group.leaving = before ++ turn :: after) :
    group.Ahead (group.release turn (before ++ after)) where
  state := rfl
  turns := perm_turns_release h
  failed := .inl
  onward := Nat.le_refl _
  clock := .inl rfl

end Ahead

theorem ahead_releaseFirst (group : TaskGroup σ ε β) : group.Ahead group.releaseFirst := by
  unfold releaseFirst
  split
  · exact .refl _
  · rename_i turn others h
    have hfirst : group.leaving = [] ++ turn :: others := h
    exact .release hfirst

theorem ahead_endFirst (group : TaskGroup σ ε β) : group.Ahead group.endFirst := by
  unfold endFirst
  split
  · exact .refl _
  · rename_i turn others h
    have hfirst : (group.pass turn.finish).running = [] ++ turn :: others := h
    have hpass : group.Ahead (group.pass turn.finish) := .pass (by simp [turns, h])
    have hconclude : (group.pass turn.finish).Ahead
        ((group.pass turn.finish).conclude turn others) := .conclude hfirst
    exact hpass.trans (hconclude.trans (ahead_releaseFirst _))

theorem ahead_settle (group : TaskGroup σ ε β) (due : List (Turn ε β)) :
    group.Ahead (group.settle due) := by
  induction due generalizing group with
  | nil => exact .refl _
  | cons turn due ih => exact (ahead_endFirst group).trans (ih group.endFirst)

/-! ### One unit more -/

@[simp] theorem clock_enter : (group.enter unit).clock = group.clock := by
  unfold enter
  split <;> rfl

@[simp] theorem failed_enter : (group.enter unit).failed = group.failed := by
  unfold enter
  split <;> rfl

@[simp] theorem admitted_enter : (group.enter unit).admitted = group.admitted + 1 := by
  unfold enter
  split <;> rfl

/-- The task of a unit gets its permit after the arrival of the unit: at once, or when another unit
ends. -/
theorem await_course (group : TaskGroup σ ε β) (unit : WorkUnit σ ε β) :
    unit.arrival ≤ (group.await unit).clock ∧ ((group.await unit).clock = unit.arrival ∨
      (group.await unit).clock = group.clock ∨
        ∃ turn ∈ group.turns, (group.await unit).clock = turn.finish) := by
  have hsettle := ahead_settle group (group.due unit)
  unfold await
  generalize group.settle (group.due unit) = settled at hsettle ⊢
  refine ⟨Nat.le_max_right _ _, ?_⟩
  obtain hle | hle := Nat.le_total settled.clock unit.arrival
  · exact .inl (Nat.max_eq_right hle)
  · have hclock : (settled.pass unit.arrival).clock = settled.clock := Nat.max_eq_left hle
    rw [hclock]
    exact .inr hsettle.clock

theorem failed_await (h : (group.await unit).failed = true) :
    group.failed = true ∨ group.failures ≠ [] :=
  (ahead_settle group (group.due unit)).failed h

theorem failed_add (h : (group.add unit).failed = true) :
    group.failed = true ∨ group.failures ≠ [] := by
  have henter : ((group.await unit).enter unit).failed = (group.await unit).failed := failed_enter
  have hadd : (group.add unit).failed = ((group.await unit).enter unit).failed := by
    unfold add releaseFirst
    split <;> rfl
  exact failed_await ((hadd.trans henter).symm.trans h)

/-- A group that is given one more unit has one more turn. -/
theorem add_course (group : TaskGroup σ ε β) (unit : WorkUnit σ ε β) : ∃ run,
    (group.add unit).turns.Perm
        (⟨(group.await unit).admitted, (group.await unit).clock, run⟩ :: group.turns) ∧
      ((group.await unit).failed = true ∧ run = .skipped ∧
          (group.add unit).state = group.state ∨
        ∃ result finish, unit.work (group.await unit).clock group.state =
            (result, finish, (group.add unit).state) ∧ run = .ran finish result) := by
  have hsettle := ahead_settle group (group.due unit)
  have hrelease := ahead_releaseFirst ((group.await unit).enter unit)
  obtain ⟨run, hturns, hrun⟩ := (group.await unit).enter_course unit
  refine ⟨run, (hrelease.turns.trans hturns).trans (hsettle.turns.cons _), ?_⟩
  have hstate : (group.await unit).state = group.state := hsettle.state
  rw [hstate, ← hrelease.state] at hrun
  exact hrun.imp_right And.right

theorem clock_add (group : TaskGroup σ ε β) (unit : WorkUnit σ ε β) :
    (group.add unit).clock = (group.await unit).clock := by
  have henter : ((group.await unit).enter unit).clock = (group.await unit).clock := clock_enter
  rw [← henter]
  unfold add releaseFirst
  split <;> rfl

/-- What holds of a group at first, and what each of its units and their ends keep, holds of a
group that has run its units. -/
theorem run_induction (Holds : TaskGroup σ ε β → Prop) {limit : Nat}
    {units : List (WorkUnit σ ε β)} {state : σ} (first : Holds (new limit state))
    (next : ∀ group, ∀ unit ∈ units, Holds group → Holds (group.add unit))
    (ahead : ∀ group later : TaskGroup σ ε β, group.Ahead later → Holds group → Holds later) :
    Holds (run limit units state) :=
  ahead _ _ (ahead_settle _ _) <|
    List.foldlRecOn units add first fun group h unit hunit => next group unit hunit h

/-! ### The end of a run -/

theorem leaving_endFirst (h : group.leaving = []) : group.endFirst.leaving = [] := by
  unfold endFirst
  split
  · exact h
  · simp [releaseFirst, conclude, pass, release, h]

theorem running_endFirst (h : group.leaving = []) :
    group.endFirst.running = group.running.tail := by
  unfold endFirst
  split
  · rename_i hrunning
    rw [hrunning]
    rfl
  · rename_i hrunning
    rw [hrunning]
    simp [releaseFirst, conclude, pass, release, h]

theorem leaving_settle (h : group.leaving = []) (due : List (Turn ε β)) :
    (group.settle due).leaving = [] := by
  induction due generalizing group with
  | nil => exact h
  | cons turn due ih => exact ih (leaving_endFirst h)

theorem running_settle (h : group.leaving = []) (due : List (Turn ε β)) :
    (group.settle due).running = group.running.drop due.length := by
  induction due generalizing group with
  | nil => rfl
  | cons turn due ih =>
    have hrest := ih (leaving_endFirst h)
    rw [running_endFirst h, List.drop_tail] at hrest
    exact hrest

theorem leaving_add (h : group.leaving = []) : (group.add unit).leaving = [] := by
  have hawait : (group.await unit).leaving = [] := leaving_settle h _
  unfold add enter
  split
  · simp [releaseFirst, skip, release, hawait]
  · simp [releaseFirst, start, hawait]

/-- All tasks that have got their permits have ended. -/
def Over (group : TaskGroup σ ε β) : Prop := group.leaving = [] ∧ group.running = []

theorem Over.turns_eq (h : group.Over) : group.turns = group.ended := by
  rw [turns, h.1, h.2, List.append_nil, List.append_nil]

theorem over_settle (h : group.leaving = []) : (group.settle group.running).Over :=
  ⟨leaving_settle h _, by rw [running_settle h, List.drop_length]⟩

theorem leaving_foldl (units : List (WorkUnit σ ε β)) (h : group.leaving = []) :
    (units.foldl add group).leaving = [] := by
  induction units generalizing group with
  | nil => exact h
  | cons unit units ih => exact ih (leaving_add h)

theorem over_run (limit : Nat) (units : List (WorkUnit σ ε β)) (state : σ) :
    (run limit units state).Over := over_settle (leaving_foldl units rfl)

/-! ### The result of a run -/

/-- A join keeps the first error, and if there is none it has all outputs. -/
theorem collect_eq (turns : List (Turn ε β)) (outputs : List β) (first : Option ε) :
    collect turns outputs first =
      match first <|> (turns.filterMap (·.error?)).head? with
      | none => .ok (outputs ++ turns.filterMap (·.output?))
      | some error => .error error := by
  induction turns generalizing outputs first with
  | nil => cases first <;> simp [collect]
  | cons turn turns ih =>
    obtain ⟨index, slot, run⟩ := turn
    cases run with
    | skipped => exact ih outputs first
    | ran finish result =>
      cases result with
      | ok output =>
        simp [collect, ih, Turn.error?, Turn.output?]
      | error error =>
        cases first <;> simp [collect, ih, Turn.error?]

theorem Over.joined_cases (isOver : group.Over) :
    group.failures = [] ∧ group.joined = .ok (group.ended.filterMap (·.output?)) ∨
      ∃ error rest, group.failures = error :: rest ∧ group.joined = .error error := by
  rw [joined, collect_eq, failures, isOver.turns_eq]
  cases group.ended.filterMap (·.error?) with
  | nil => exact .inl ⟨rfl, rfl⟩
  | cons error rest => exact .inr ⟨error, rest, rfl, rfl⟩

/-! ### What can be seen of a group -/

/-- What can be seen of a group. -/
def seen (view : σ → τ) (group : TaskGroup σ ε β) : TaskGroup τ ε β :=
  { group with state := view group.state }

theorem seen_releaseFirst (view : σ → τ) (group : TaskGroup σ ε β) :
    (group.seen view).releaseFirst = group.releaseFirst.seen view := by
  obtain ⟨state, clock, permits, failed, admitted, running, leaving, ended⟩ := group
  cases leaving <;> rfl

theorem seen_endFirst (view : σ → τ) (group : TaskGroup σ ε β) :
    (group.seen view).endFirst = group.endFirst.seen view := by
  obtain ⟨state, clock, permits, failed, admitted, running, leaving, ended⟩ := group
  cases running with
  | nil => rfl
  | cons turn others =>
    let group : TaskGroup σ ε β :=
      ⟨state, clock, permits, failed, admitted, turn :: others, leaving, ended⟩
    exact seen_releaseFirst view ((group.pass turn.finish).conclude turn others)

theorem seen_settle (view : σ → τ) (group : TaskGroup σ ε β) (due : List (Turn ε β)) :
    (group.seen view).settle due = (group.settle due).seen view := by
  induction due generalizing group with
  | nil => rfl
  | cons turn due ih =>
    change ((group.seen view).endFirst).settle due = _
    rw [seen_endFirst, ih]
    rfl

end TaskGroup

end HiveForum
