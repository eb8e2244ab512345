import HiveForum.Proofs.Program.Contract

/-!
# Traces of runs

What an operation does is seen in the effects that it has had and the replies that it got, each
between the states before and after it. The trace of a run lists them for all threads in the order
in which they came, and the journal of a thread lists its own. A contract about journals says which
effect may follow upon which journal, and how the world may evolve meanwhile.

## Main definitions

* `Event`: an effect with its reply, and the states around it.
* `Thread.Pool.Traced`: a run with its trace; `journal` is the part of one thread.
* `Evolution`, `Evolution.journal`: what the world does meanwhile, and a contract about journals.

## Main results

* `Thread.Step.map`, `Thread.Pool.Steps.map`: a run as another world shows it.
* `Thread.Pool.Steps.exists_journal`: every run can be entered into a journal.
* `Thread.Pool.Traced.meets`: a thread meets its contract, and its journal is as admitted.
* `Thread.Pool.Steps.traced`: every run of threads that meet such contracts has a trace.
-/

namespace HiveForum

variable {σ : Type}

/-- An effect that was answered. -/
structure Event (σ : Type) where
  effect : Effect
  before : σ
  reply : effect.Reply
  after : σ

/-- The responses of a world that enters every effect into a journal. -/
def Responses.journaled (responses : Responses σ) : Responses (σ × List (Event σ)) where
  Answers effect state reply after :=
    responses.Answers effect state.1 reply after.1 ∧
      after.2 = state.2 ++ [⟨effect, state.1, reply, after.1⟩]

/-- How the world may evolve in the course of a run. -/
structure Evolution (σ : Type) where
  /-- One state may evolve into another one. -/
  rel : σ → σ → Prop
  /-- The world may stay as it is. -/
  refl : ∀ state, rel state state
  /-- The world may evolve again. -/
  trans : ∀ {state middle after}, rel state middle → rel middle after → rel state after

namespace Evolution

/-- Every effect lets the world evolve. -/
def contract (evolution : Evolution σ) : Contract σ where
  rely := evolution.rel
  guarantee := evolution.rel
  failing _ _ := True
  endless := True
  rely_refl := evolution.refl
  rely_trans := evolution.trans

/-- Every effect lets the world evolve and is admitted after those in the journal. -/
def journal (evolution : Evolution σ) (admits : List (Event σ) → Event σ → Prop)
    (failing : OperationError → List (Event σ) → Prop) : Contract (σ × List (Event σ)) where
  rely state later := evolution.rel state.1 later.1 ∧ later.2 = state.2
  guarantee state later :=
    evolution.rel state.1 later.1 ∧
      ∃ event, admits state.2 event ∧ later.2 = state.2 ++ [event]
  failing error state := failing error state.2
  endless := False
  rely_refl _ := ⟨evolution.refl _, rfl⟩
  rely_trans h h' := ⟨evolution.trans h.1 h'.1, h'.2.trans h.2⟩

variable {evolution : Evolution σ} {responses : Responses σ}
  {admits : List (Event σ) → Event σ → Prop} {failing : OperationError → List (Event σ) → Prop}

theorem not_opens [Nonempty σ] {inner : Contract (σ × List (Event σ))} :
    ¬(evolution.journal admits failing).Opens inner := by
  intro opens
  obtain ⟨-, event, -, hjournal⟩ := opens.whole (inner.rely_refl (Classical.ofNonempty, []))
  cases hjournal

/-- A program that meets a contract about its journal lets the world evolve. -/
theorem meets_of_journal {α : Type} {p : Program α}
    {post : α → σ × List (Event σ) → Prop} {state : σ} {journal : List (Event σ)}
    (h : p.Meets responses.journaled (evolution.journal admits failing) none post
      (state, journal)) :
    p.Meets responses evolution.contract none (fun _ _ => True) state := by
  induction p generalizing state journal with
  | done value => exact fun _ _ _ => trivial
  | fail error => exact fun _ _ => trivial
  | unfinished => exact trivial
  | perform effect next ih =>
    intro later reply after hrely answer
    obtain ⟨hguarantee, hnext⟩ := h (later, journal) reply
      (after, journal ++ [⟨effect, later, reply, after⟩]) ⟨hrely, rfl⟩ ⟨answer, rfl⟩
    exact ⟨hguarantee.1, ih reply hnext⟩
  | spawn unit next =>
    obtain ⟨pledged, claim, hpledge, -⟩ := h
    cases hpledge
  | gather limit spawner next =>
    obtain ⟨inner, goal, opens, -⟩ := h
    exact absurd opens (@not_opens _ _ _ _ ⟨state⟩ _)

end Evolution

namespace Thread

variable {τ : Type} {responses : Responses σ} {responses' : Responses τ} {view : σ → τ}

/-- A step is one in another world if that world shows the effects of this one. -/
theorem Step.map (shows : ∀ {effect : Effect} {state after : σ} {reply : effect.Reply},
      responses.Answers effect state reply after →
        responses'.Answers effect (view state) reply (view after))
    {α : Type} {thread thread' : Thread α} {state after : σ}
    (step : Step responses thread state thread' after) :
    Step responses' thread (view state) thread' (view after) := by
  induction step with
  | perform answer => exact .perform (shows answer)
  | gather => exact .gather
  | spawner _ ih => exact .spawner ih
  | spawn => exact .spawn
  | start h => exact .start h
  | skip => exact .skip
  | unit _ ih => exact .unit ih
  | finish => exact .finish
  | fail => exact .fail
  | join h => exact .join h

/-- So is a run of a pool. -/
theorem Pool.Steps.map (shows : ∀ {effect : Effect} {state after : σ} {reply : effect.Reply},
      responses.Answers effect state reply after →
        responses'.Answers effect (view state) reply (view after))
    {pool pool' : Pool} {state after : σ} (steps : Steps responses pool state pool' after) :
    Steps responses' pool (view state) pool' (view after) := by
  induction steps with
  | none => exact .none
  | more _ step ih =>
    obtain ⟨step⟩ := step
    exact .more ih (.thread (step.map shows))

/-- A step can be entered into a journal. -/
theorem Step.exists_journal {α : Type} {thread thread' : Thread α} {state after : σ}
    (step : Step responses thread state thread' after) (journal : List (Event σ)) :
    ∃ journal', Step responses.journaled thread (state, journal) thread' (after, journal') := by
  induction step with
  | @perform _ effect _ state after reply answer =>
    exact ⟨journal ++ [⟨effect, state, reply, after⟩], .perform ⟨answer, rfl⟩⟩
  | gather => exact ⟨_, .gather⟩
  | spawner _ ih => exact ih.imp fun _ => .spawner
  | spawn => exact ⟨_, .spawn⟩
  | start h => exact ⟨_, .start h⟩
  | skip => exact ⟨_, .skip⟩
  | unit _ ih => exact ih.imp fun _ => .unit
  | finish => exact ⟨_, .finish⟩
  | fail => exact ⟨_, .fail⟩
  | join h => exact ⟨_, .join h⟩

/-- So can a run of a pool. -/
theorem Pool.Steps.exists_journal {pool pool' : Pool} {state after : σ}
    (steps : Steps responses pool state pool' after) (journal : List (Event σ)) :
    ∃ journal', Steps responses.journaled pool (state, journal) pool' (after, journal') := by
  induction steps with
  | none => exact ⟨journal, .none⟩
  | more _ step ih =>
    obtain ⟨middle, steps⟩ := ih
    obtain ⟨step⟩ := step
    obtain ⟨last, step⟩ := step.exists_journal middle
    exact ⟨last, .more steps (.thread step)⟩

end Thread

namespace Thread

variable {evolution : Evolution σ} {responses : Responses σ} {α : Type}
  {admits : List (Event σ) → Event σ → Prop} {failing : OperationError → List (Event σ) → Prop}
  {post : α → σ × List (Event σ) → Prop}

theorem meets_of_journal {thread : Thread α} {state : σ} {journal : List (Event σ)}
    (h : thread.Meets responses.journaled (evolution.journal admits failing) none post
      (state, journal)) :
    thread.Meets responses evolution.contract none (fun _ _ => True) state := by
  cases h with
  | running h => exact .running (Evolution.meets_of_journal h)
  | gathering _ _ opens => exact absurd opens (@Evolution.not_opens _ _ _ _ ⟨state⟩ _)

theorem Step.exists_of_journal {thread thread' : Thread α} {state after : σ}
    {journal : List (Event σ)} (step : Step responses thread state thread' after)
    (h : thread.Meets responses.journaled (evolution.journal admits failing) none post
      (state, journal)) :
    ∃ (effect : Effect) (next : effect.Reply → Program α) (reply : effect.Reply),
      thread = .running (.perform effect next) ∧ thread' = .running (next reply) ∧
        responses.Answers effect state reply after := by
  cases h with
  | gathering _ _ opens => exact absurd opens (@Evolution.not_opens _ _ _ _ ⟨state⟩ _)
  | running h =>
    cases step with
    | perform answer => exact ⟨_, _, _, rfl, rfl, answer⟩
    | gather =>
      obtain ⟨inner, goal, opens, -⟩ := h
      exact absurd opens (@Evolution.not_opens _ _ _ _ ⟨state⟩ _)

namespace Pool

/-- A run of a pool each of whose steps is the reply to an effect, with the trace that lists the
effects with the places of their threads in the pool. -/
inductive Traced (responses : Responses σ) : Pool → σ → List (Nat × Event σ) → Pool → σ → Prop where
  | none {pool : Pool} {state : σ} : Traced responses pool state [] pool state
  | more {α : Type} {pool before later : Pool} {effect : Effect}
      {next : effect.Reply → Program α} {state state' after : σ} {reply : effect.Reply}
      {trace : List (Nat × Event σ)}
      (traced : Traced responses pool state trace
        (before ++ ⟨α, .running (.perform effect next)⟩ :: later) state')
      (answer : responses.Answers effect state' reply after) :
      Traced responses pool state (trace ++ [(before.length, ⟨effect, state', reply, after⟩)])
        (before ++ ⟨α, .running (next reply)⟩ :: later) after

/-- The part of a trace that is due to the thread in one place. -/
def journal (trace : List (Nat × Event σ)) (place : Nat) : List (Event σ) :=
  trace.filterMap fun entry => if entry.1 = place then some entry.2 else none

theorem Traced.steps {pool pool' : Pool} {state after : σ} {trace : List (Nat × Event σ)}
    (traced : Traced responses pool state trace pool' after) :
    Steps responses pool state pool' after := by
  induction traced with
  | none => exact .none
  | more _ answer ih => exact .more ih (.thread (.perform answer))

private theorem getElem?_of_ne {before later : Pool} {i : Nat} (h : before.length ≠ i)
    (thread thread' : (α : Type) × Thread α) :
    (before ++ thread :: later)[i]? = (before ++ thread' :: later)[i]? := by
  simp only [List.getElem?_append, List.getElem?_cons]
  split
  · rfl
  · rw [if_neg (by omega), if_neg (by omega)]

/-- In a run all of whose threads let the world evolve, one that meets a contract about its journal
goes on meeting it, and every effect in its journal was admitted after those before it. -/
theorem Traced.meets {pool pool' : Pool} {state after : σ} {trace : List (Nat × Event σ)}
    {place : Nat} {thread : Thread α} (traced : Traced responses pool state trace pool' after)
    (others : ∀ other ∈ pool, other.2.Meets responses evolution.contract .none
      (fun _ _ => True) state)
    (hplace : pool[place]? = some ⟨α, thread⟩)
    (h : thread.Meets responses.journaled (evolution.journal admits failing) .none post
      (state, [])) :
    ∃ thread' : Thread α, pool'[place]? = some ⟨α, thread'⟩ ∧
      thread'.Meets responses.journaled (evolution.journal admits failing) .none post
        (after, journal trace place) ∧
      ∀ earlier event later, journal trace place = earlier ++ event :: later →
        admits earlier event := by
  induction traced with
  | none =>
    refine ⟨thread, hplace, h, fun earlier event later heq => ?_⟩
    exact absurd heq.symm (by simp [journal])
  | @more β pool before later effect next state state' after reply trace traced answer ih =>
    obtain ⟨thread', hplace', hmeets, hadmits⟩ := ih others hplace h
    by_cases hhere : before.length = place
    · subst hhere
      have hsame : (⟨α, thread'⟩ : (α : Type) × Thread α) = ⟨β, .running (.perform effect next)⟩ :=
        Option.some.inj (hplace'.symm.trans (by simp))
      cases hsame
      have hjournal : journal (trace ++ [(before.length, ⟨effect, state', reply, after⟩)])
          before.length = journal trace before.length ++ [⟨effect, state', reply, after⟩] := by
        simp [journal, List.filterMap_append]
      have answer' : responses.journaled.Answers effect (state', journal trace before.length) reply
          (after, journal trace before.length ++ [⟨effect, state', reply, after⟩]) := ⟨answer, rfl⟩
      obtain ⟨hchange, hafter⟩ := (Thread.Step.perform answer').meets hmeets
      refine ⟨_, by simp, hjournal ▸ hafter, fun earlier event last heq => ?_⟩
      rw [hjournal] at heq
      rcases List.eq_nil_or_concat last with rfl | ⟨front, entry, rfl⟩
      · -- the entry is the one that has just been made
        obtain ⟨hearlier, hevent⟩ := List.append_inj' heq rfl
        obtain ⟨-, entry, hadmitted, hentry⟩ := hchange.resolve_left (by simp)
        rw [← hearlier, ← List.singleton_inj.1 hevent,
          List.singleton_inj.1 (List.append_cancel_left hentry)]
        exact hadmitted
      · rw [List.concat_eq_append, ← List.cons_append, ← List.append_assoc] at heq
        exact hadmits earlier event front (List.append_inj' heq rfl).1
    · have hjournal : journal (trace ++ [(before.length, ⟨effect, state', reply, after⟩)]) place =
          journal trace place := by
        simp [journal, List.filterMap_append, hhere]
      have hpool := (traced.steps.meets (fun h => h) others).2 _
        (List.mem_append_right _ List.mem_cons_self)
      have hevolves : evolution.rel state' after :=
        ((Thread.Step.perform answer).meets hpool).1.elim
          (fun heq => heq ▸ evolution.refl _) fun h => h
      rw [hjournal]
      exact ⟨thread', (getElem?_of_ne hhere _ _).trans hplace', hmeets.later ⟨hevolves, rfl⟩,
        hadmits⟩

theorem Traced.length_eq {pool pool' : Pool} {state after : σ} {trace : List (Nat × Event σ)}
    (traced : Traced responses pool state trace pool' after) : pool'.length = pool.length := by
  induction traced with
  | none => rfl
  | more _ _ ih => simpa using ih

/-- Every run of threads that meet contracts about their journals has a trace. -/
theorem Steps.traced {pool pool' : Pool} {state after : σ}
    (steps : Steps responses pool state pool' after)
    (h : ∀ thread ∈ pool, ∃ admits failing post,
      thread.2.Meets responses.journaled (evolution.journal admits failing) .none post
        (state, [])) :
    ∃ trace, Traced responses pool state trace pool' after := by
  have others : ∀ thread ∈ pool, thread.2.Meets responses evolution.contract .none
      (fun _ _ => True) state := by
    intro thread hthread
    obtain ⟨admits, failing, post, hmeets⟩ := h thread hthread
    exact meets_of_journal hmeets
  induction steps with
  | none => exact ⟨[], .none⟩
  | more _ step ih =>
    obtain ⟨trace, traced⟩ := ih h others
    obtain @⟨α, thread, thread', before, later, _, _, step⟩ := step
    have hlength := traced.length_eq
    rw [List.length_append, List.length_cons] at hlength
    obtain ⟨admits, failing, post, hmeets⟩ :=
      h _ (List.getElem_mem (show before.length < _ by omega))
    obtain ⟨current, hcurrent, hmeets, -⟩ :=
      traced.meets others (List.getElem?_eq_getElem _) hmeets
    rw [List.getElem?_append_right (Nat.le_refl _), Nat.sub_self] at hcurrent
    cases Option.some.inj hcurrent
    obtain ⟨effect, next, reply, rfl, rfl, answer⟩ := step.exists_of_journal hmeets
    exact ⟨_, traced.more answer⟩

end Pool

end Thread

end HiveForum
