import HiveForum.Proofs.Program.Trace
import Mathlib.Data.List.Forall2

/-!
# Runs with a journal for each thread

In the course of a run each thread of a pool can enter its own effects into a journal of its own,
with the replies that it got. What a thread does is then seen in its journal alone, whatever the
others do; what all of them do to the world is seen in all journals together.

The steps of a world that looks no further than a view of the state are those of another world that
shows this view. A run in the view can be carried back if each of its effects can.

## Main definitions

* `Thread.Pool.Recorded`: a run with a journal for each thread.

## Main results

* `Thread.Pool.Steps.exists_recorded`, `Thread.Pool.Recorded.steps`: every run has journals.
* `Thread.Pool.Recorded.keeps`: what each step keeps of a thread and its journal, a run keeps.
* `Thread.Pool.Recorded.collects`: what each effect adds to the state, the journals add together.
* `Thread.Pool.Steps.lift`: a run of what can be seen is one of the world.
-/

namespace HiveForum

namespace Thread

variable {σ τ : Type} {responses : Responses σ}

theorem Step.of_journaled {α : Type} {thread thread' : Thread α} {state after : σ}
    {journal journal' : List (Event σ)}
    (step : Step responses.journaled thread (state, journal) thread' (after, journal')) :
    Step responses thread state thread' after := by
  have shows : ∀ {effect : Effect} {state after : σ × List (Event σ)} {reply : effect.Reply},
      responses.journaled.Answers effect state reply after →
        responses.Answers effect (Prod.fst state) reply (Prod.fst after) := And.left
  exact step.map shows

/-- A step makes no entry, or the one of its effect. -/
theorem Step.journal_cases {α : Type} {thread thread' : Thread α} {state after : σ}
    {journal journal' : List (Event σ)}
    (step : Step responses.journaled thread (state, journal) thread' (after, journal')) :
    after = state ∧ journal' = journal ∨
      ∃ effect reply, responses.Answers effect state reply after ∧
        journal' = journal ++ [⟨effect, state, reply, after⟩] := by
  generalize hfrom : (state, journal) = whole at step
  generalize hto : (after, journal') = whole' at step
  induction step with
  | perform answer =>
    subst hfrom hto
    exact .inr ⟨_, _, answer⟩
  | spawner _ ih => exact ih hfrom hto
  | unit _ ih => exact ih hfrom hto
  | _ =>
    subst hfrom
    cases hto
    exact .inl ⟨rfl, rfl⟩

namespace Pool

/-- The threads of a pool, each with a journal. -/
abbrev Kept (σ : Type) : Type 1 := List (((α : Type) × Thread α) × List (Event σ))

/-- A run of a pool in which each thread enters its effects into a journal of its own. -/
inductive Recorded (responses : Responses σ) (pool : Pool) (state : σ) : Kept σ → σ → Prop where
  | none : Recorded responses pool state (pool.map fun thread => (thread, [])) state
  | more {α : Type} {before later : Kept σ} {thread thread' : Thread α}
      {journal journal' : List (Event σ)} {state' after : σ}
      (recorded : Recorded responses pool state (before ++ (⟨α, thread⟩, journal) :: later) state')
      (step : Thread.Step responses.journaled thread (state', journal) thread' (after, journal')) :
      Recorded responses pool state (before ++ (⟨α, thread'⟩, journal') :: later) after

variable {pool pool' : Pool} {kept : Kept σ} {state after : σ}

/-- A run with journals is a run. -/
theorem Recorded.steps (h : Recorded responses pool state kept after) :
    Steps responses pool state (kept.map Prod.fst) after := by
  induction h with
  | none =>
    rw [List.map_map]
    exact (List.map_id pool).symm ▸ .none
  | more _ step ih =>
    rw [List.map_append, List.map_cons] at ih ⊢
    exact .more ih (.thread step.of_journaled)

/-- Every run has journals. -/
theorem Steps.exists_recorded (steps : Steps responses pool state pool' after) :
    ∃ kept : Kept σ, kept.map Prod.fst = pool' ∧ Recorded responses pool state kept after := by
  induction steps with
  | none => exact ⟨_, by rw [List.map_map]; exact List.map_id pool, .none⟩
  | more _ step ih =>
    obtain ⟨kept, hkept, recorded⟩ := ih
    obtain ⟨step⟩ := step
    obtain ⟨before, rest, rfl, rfl, hrest⟩ := List.map_eq_append_iff.1 hkept
    obtain ⟨⟨thread, journal⟩, later, rfl, rfl, rfl⟩ := List.map_eq_cons_iff.1 hrest
    obtain ⟨journal', step⟩ := step.exists_journal journal
    exact ⟨_, by rw [List.map_append, List.map_cons], .more recorded step⟩

/-- What each step keeps of a thread and its journal, a run keeps. -/
theorem Recorded.keeps {ι : Type} {items : List ι}
    {Holds : ι → ((α : Type) × Thread α) × List (Event σ) → Prop}
    (h : Recorded responses pool state kept after)
    (start : List.Forall₂ (fun item thread => Holds item (thread, [])) items pool)
    (step : ∀ {item : ι} {α : Type} {thread thread' : Thread α} {state after : σ}
      {journal journal' : List (Event σ)}, Holds item (⟨α, thread⟩, journal) →
        Thread.Step responses.journaled thread (state, journal) thread' (after, journal') →
          Holds item (⟨α, thread'⟩, journal')) :
    List.Forall₂ Holds items kept := by
  induction h with
  | none => exact List.forall₂_map_right_iff.2 start
  | @more _ before _ _ _ _ _ _ _ _ hstep ih =>
    have hfront := List.forall₂_take_append _ before _ ih
    have hrest := List.forall₂_drop_append _ before _ ih
    rw [← List.take_append_drop before.length items]
    generalize items.take before.length = front at hfront ⊢
    generalize items.drop before.length = back at hrest ⊢
    obtain _ | ⟨hthread, hback⟩ := hrest
    exact List.rel_append hfront (.cons (step hthread hstep) hback)

/-- What each effect adds to the state, the journals of all threads add together. -/
theorem Recorded.collects {ι : Type} {total : σ → List ι} {entry : Event σ → List ι}
    (h : Recorded responses pool state kept after)
    (adds : ∀ {effect : Effect} {state after : σ} {reply : effect.Reply},
      responses.Answers effect state reply after →
        total after = total state ++ entry ⟨effect, state, reply, after⟩) :
    (total after).Perm (total state ++ kept.flatMap fun thread => thread.2.flatMap entry) := by
  induction h with
  | none =>
    have hnone : (pool.map fun thread => (thread, ([] : List (Event σ)))).flatMap
        (fun thread => thread.2.flatMap entry) = [] := by
      refine List.flatMap_eq_nil_iff.2 fun thread hthread => ?_
      obtain ⟨_, -, rfl⟩ := List.mem_map.1 hthread
      rfl
    rw [hnone, List.append_nil]
  | @more _ before later _ _ journal journal' middle after _ hstep ih =>
    obtain ⟨rfl, rfl⟩ | ⟨effect, reply, answer, rfl⟩ := hstep.journal_cases
    · simpa only [List.flatMap_append, List.flatMap_cons] using ih
    · rw [adds answer]
      refine (ih.append_right _).trans ?_
      simp only [List.flatMap_append, List.flatMap_cons, List.flatMap_nil, List.append_nil,
        List.append_assoc]
      refine .append_left _ (.append_left _ (.append_left _ ?_))
      exact List.perm_append_comm

end Pool

/-! ### Views -/

section Views

variable {responses' : Responses τ} {view : σ → τ}
  (lifts : ∀ {effect : Effect} {state : σ} {reply : effect.Reply} {seen : τ},
    responses'.Answers effect (view state) reply seen →
      ∃ after, responses.Answers effect state reply after ∧ view after = seen)

include lifts

/-- A step in the view is one of the world if its effect can be carried back. -/
theorem Step.lift {α : Type} {thread thread' : Thread α} {state : σ} {seen : τ}
    (step : Step responses' thread (view state) thread' seen) :
    ∃ after, Step responses thread state thread' after ∧ view after = seen := by
  generalize hstate : view state = before at step
  induction step with
  | perform answer =>
    subst hstate
    obtain ⟨after, carried, hafter⟩ := lifts answer
    exact ⟨after, .perform carried, hafter⟩
  | gather => exact ⟨state, .gather, hstate⟩
  | spawner _ ih => exact (ih hstate).imp fun _ => .imp_left .spawner
  | spawn => exact ⟨state, .spawn, hstate⟩
  | start h => exact ⟨state, .start h, hstate⟩
  | skip => exact ⟨state, .skip, hstate⟩
  | unit _ ih => exact (ih hstate).imp fun _ => .imp_left .unit
  | finish => exact ⟨state, .finish, hstate⟩
  | fail => exact ⟨state, .fail, hstate⟩
  | join h => exact ⟨state, .join h, hstate⟩

/-- So is a run of a pool. -/
theorem Pool.Steps.lift {pool pool' : Pool} {state : σ} {seen : τ}
    (steps : Steps responses' pool (view state) pool' seen) :
    ∃ after, Steps responses pool state pool' after ∧ view after = seen := by
  generalize hstate : view state = before at steps
  induction steps with
  | none => exact ⟨state, .none, hstate⟩
  | more _ step ih =>
    obtain ⟨middle, steps, rfl⟩ := ih hstate
    obtain ⟨step⟩ := step
    obtain ⟨after, carried, hafter⟩ := step.lift lifts
    exact ⟨after, .more steps (.thread carried), hafter⟩

end Views

end Thread

end HiveForum
