import HiveForum.Program.Run

/-!
# One program after another

The run of a program that goes on with the value of another one is the run of the one after that of
the other.

## Main results

* `Program.run_bind`: a program goes on with its value, or stops.
* `Program.run_call_bind`, `Program.run_bind_of_ok`: what follows an answer, and a value.
* `Program.run_bind_of_unfinished`: what follows a program without an end.
-/

namespace HiveForum

namespace Program

variable {σ α β : Type} {world : World σ} {state after : σ}

/-- The run of a call, and of what follows its answer. -/
theorem run_call_bind {request : Request} {answer : request.Answer}
    (h : world.perform (.store request) state = (.ok answer, after))
    (next : request.Answer → Program α) :
    ((call request).bind next).run world state = (next answer).run world after := by
  have hcall : ((call request).bind next).runWith world state [] =
      ((ofExcept .ofStore (world.perform (.store request) state).1).bind next).runWith world
        (world.perform (.store request) state).2 [] := rfl
  rw [h] at hcall
  exact congrArg (fun result => (result.1, result.2.1)) hcall

/-- The run of a program, and of what follows its value. -/
theorem runWith_bind (p : Program α) (next : α → Program β) (world : World σ) (state : σ)
    (units : List (Spawned σ)) :
    (p.bind next).runWith world state units =
      match p.runWith world state units with
      | (.ok value, last, units) => (next value).runWith world last units
      | (.error stop, last, units) => (.error stop, last, units) := by
  induction p generalizing state units with
  | done value => rfl
  | fail error => rfl
  | unfinished => rfl
  | perform effect rest ih => exact ih _ _ _ _
  | spawn unit rest _ ih => exact ih _ _ _
  | gather limit spawner rest _ ih =>
    simp only [Program.bind, runWith]
    split
    · rfl
    · exact ih _ _ _ _

/-- The units that have been spawned already make no difference to a run. -/
theorem run_eq_runWith (p : Program α) (world : World σ) (state : σ) (units : List (Spawned σ)) :
    p.run world state = ((p.runWith world state units).1, (p.runWith world state units).2.1) := by
  suffices general : ∀ units', (p.runWith world state units').1 = (p.runWith world state units).1 ∧
      (p.runWith world state units').2.1 = (p.runWith world state units).2.1 from
    Prod.ext (general []).1 (general []).2
  intro units'
  induction p generalizing state units units' with
  | done value => exact ⟨rfl, rfl⟩
  | fail error => exact ⟨rfl, rfl⟩
  | unfinished => exact ⟨rfl, rfl⟩
  | perform effect rest ih => exact ih _ _ _ _
  | spawn unit rest _ ih => exact ih _ _ _
  | gather limit spawner rest _ ih =>
    simp only [runWith]
    split
    · exact ⟨rfl, rfl⟩
    · exact ih _ _ _ _

/-- A program goes on with its value, or stops. -/
theorem run_bind (p : Program α) (next : α → Program β) :
    (p.bind next).run world state =
      match p.run world state with
      | (.ok value, last) => (next value).run world last
      | (.error stop, last) => (.error stop, last) := by
  have hbind := runWith_bind p next world state []
  rw [run_eq_runWith (p.bind next) world state [], hbind, run_eq_runWith p world state []]
  obtain ⟨outcome, last, units⟩ := p.runWith world state []
  cases outcome with
  | ok value => exact (run_eq_runWith (next value) world last units).symm
  | error stop => rfl

/-- A program that gives a value goes on with it. -/
theorem run_bind_of_ok {p : Program α} {value : α} (next : α → Program β)
    (h : p.run world state = (.ok value, after)) :
    (p.bind next).run world state = (next value).run world after := by
  rw [run_bind, h]

/-- What follows a program without an end has none. -/
theorem run_bind_of_unfinished {p : Program α} (next : α → Program β)
    (h : (p.run world state).1 = .error .unfinished) :
    ((p.bind next).run world state).1 = .error .unfinished := by
  rw [run_bind]
  rcases hrun : p.run world state with ⟨stop, last⟩
  rw [hrun] at h
  obtain rfl : stop = .error .unfinished := h
  rfl

end Program

end HiveForum
