import HiveForum.Program.Run

/-!
# Programs side by side

Several programs run beside one another when the effects of one may come between any two effects of
another. So do the units of a group. What an effect does is given by the responses that it may get,
which may be several: the truth, a failure without effect, or a failure that hides an effect.

## Main definitions

* `Responses`: the replies that an effect may get.
* `Responses.within`: the responses after which a claim about the state holds.
* `World.truthful`: the responses of a world whose calls do not fail.
* `World.FaultyAnswer`: how an effect may be answered when they may.
* `Thread`: a program under way, with the units of the groups that it has opened.
* `Thread.Step`, `Thread.Steps`: one step of a thread, and its steps when it runs alone.
* `Thread.Pool`, `Thread.Pool.Steps`: threads side by side, and their runs.

## Main results

* `Thread.Step.preserves`, `Thread.Pool.Steps.preserves`: what every effect keeps, every run keeps.
* `Thread.Steps.imp`, `Thread.Pool.Steps.imp`: a run is one under any responses that allow more.
* `Thread.Pool.Steps.within_of_after`: what every effect inherits from the state that it leaves
  behind holds all along a run at whose end it holds.
* `Thread.Pool.Steps.within_of_reached`: what holds wherever a run gets holds all along it.
-/

namespace HiveForum

variable {σ : Type}

/-- The replies that an effect may get. -/
structure Responses (σ : Type) where
  /-- Whether an effect may get a reply, and what state it may leave behind. -/
  Answers : (effect : Effect) → σ → effect.Reply → σ → Prop

/-- The responses after which a claim about the state holds. -/
def Responses.within (responses : Responses σ) (Holds : σ → Prop) : Responses σ where
  Answers effect state reply after := responses.Answers effect state reply after ∧ Holds after

namespace World

/-- Every effect is carried out and answered. -/
def truthful (world : World σ) : Responses σ where
  Answers effect state reply after := world.perform effect state = (reply, after)

/-- How an effect may be answered when calls to the store may fail. -/
inductive FaultyAnswer (world : World σ) : (effect : Effect) → σ → effect.Reply → σ → Prop where
  | truthful {effect : Effect} {state after : σ} {reply : effect.Reply}
      (h : world.perform effect state = (reply, after)) :
      FaultyAnswer world effect state reply after
  | refused (request : Request) (state : σ) (error : StoreError) :
      FaultyAnswer world (.store request) state (.error error) state
  | lost (request : Request) (state : σ) (error : StoreError) :
      FaultyAnswer world (.store request) state (.error error)
        (world.perform (.store request) state).2

end World

/-- A program under way. -/
inductive Thread : Type → Type 1 where
  | running {α : Type} (program : Program α) : Thread α
  /-- A group that is open: the program that spawns its units, the units that wait for a slot, those
  that have one, the first failure of a unit, and what follows the group. -/
  | gathering {α : Type} (limit : Nat) (spawner : Thread Unit) (waiting : List (Program Unit))
      (units : List (Thread Unit)) (failure : Option OperationError)
      (next : Gathered → Program α) : Thread α

namespace Thread

/-- The result of a thread that has ended. -/
def result? {α : Type} : Thread α → Option (Except OperationError α)
  | .running (.done value) => some (.ok value)
  | .running (.fail error) => some (.error error)
  | _ => none

/-- The result of units that have all ended. -/
def unitsResult : Option OperationError → Except OperationError Unit
  | none => .ok ()
  | some error => .error error

/-- One step of a thread whose effects get one of their responses. -/
inductive Step (responses : Responses σ) : {α : Type} → Thread α → σ → Thread α → σ → Prop where
  | perform {α : Type} {effect : Effect} {next : effect.Reply → Program α} {state after : σ}
      {reply : effect.Reply} (h : responses.Answers effect state reply after) :
      Step responses (.running (.perform effect next)) state (.running (next reply)) after
  | gather {α : Type} {limit : Nat} {spawner : Program Unit} {next : Gathered → Program α}
      {state : σ} :
      Step responses (.running (.gather limit spawner next)) state
        (.gathering limit (.running spawner) [] [] none next) state
  | spawner {α : Type} {limit : Nat} {spawner spawner' : Thread Unit}
      {waiting : List (Program Unit)} {units : List (Thread Unit)}
      {failure : Option OperationError} {next : Gathered → Program α} {state after : σ}
      (h : Step responses spawner state spawner' after) :
      Step responses (.gathering limit spawner waiting units failure next) state
        (.gathering limit spawner' waiting units failure next) after
  | spawn {α : Type} {limit : Nat} {unit rest : Program Unit} {waiting : List (Program Unit)}
      {units : List (Thread Unit)} {failure : Option OperationError}
      {next : Gathered → Program α} {state : σ} :
      Step responses
        (.gathering limit (.running (.spawn unit rest)) waiting units failure next) state
        (.gathering limit (.running rest) (waiting ++ [unit]) units failure next) state
  | start {α : Type} {limit : Nat} {spawner : Thread Unit} {unit : Program Unit}
      {before later : List (Program Unit)} {units : List (Thread Unit)}
      {next : Gathered → Program α} {state : σ} (h : units.length < max limit 1) :
      Step responses (.gathering limit spawner (before ++ unit :: later) units none next) state
        (.gathering limit spawner (before ++ later) (units ++ [.running unit]) none next) state
  /-- After a failure a unit that waits is skipped. -/
  | skip {α : Type} {limit : Nat} {spawner : Thread Unit} {unit : Program Unit}
      {before later : List (Program Unit)} {units : List (Thread Unit)} {error : OperationError}
      {next : Gathered → Program α} {state : σ} :
      Step responses
        (.gathering limit spawner (before ++ unit :: later) units (some error) next) state
        (.gathering limit spawner (before ++ later) units (some error) next) state
  | unit {α : Type} {limit : Nat} {spawner unit unit' : Thread Unit}
      {waiting : List (Program Unit)} {before later : List (Thread Unit)}
      {failure : Option OperationError} {next : Gathered → Program α} {state after : σ}
      (h : Step responses unit state unit' after) :
      Step responses (.gathering limit spawner waiting (before ++ unit :: later) failure next) state
        (.gathering limit spawner waiting (before ++ unit' :: later) failure next) after
  | finish {α : Type} {limit : Nat} {spawner : Thread Unit} {waiting : List (Program Unit)}
      {before later : List (Thread Unit)} {failure : Option OperationError}
      {next : Gathered → Program α} {state : σ} :
      Step responses
        (.gathering limit spawner waiting (before ++ .running (.done ()) :: later) failure next)
        state (.gathering limit spawner waiting (before ++ later) failure next) state
  /-- A unit fails and frees its slot; the first failure is kept. -/
  | fail {α : Type} {limit : Nat} {spawner : Thread Unit} {waiting : List (Program Unit)}
      {before later : List (Thread Unit)} {failure : Option OperationError}
      {error : OperationError} {next : Gathered → Program α} {state : σ} :
      Step responses
        (.gathering limit spawner waiting (before ++ .running (.fail error) :: later) failure next)
        state (.gathering limit spawner waiting (before ++ later) (failure <|> some error) next)
        state
  | join {α : Type} {limit : Nat} {spawner : Thread Unit} {failure : Option OperationError}
      {next : Gathered → Program α} {result : Except OperationError Unit} {state : σ}
      (h : spawner.result? = some result) :
      Step responses (.gathering limit spawner [] [] failure next) state
        (.running (next ⟨result, unitsResult failure⟩)) state

/-- What every effect keeps, every step keeps. -/
theorem Step.preserves {responses : Responses σ} {Holds : σ → Prop}
    (keeps : ∀ {effect : Effect} {state after : σ} {reply : effect.Reply},
      responses.Answers effect state reply after → Holds state → Holds after)
    {α : Type} {thread thread' : Thread α} {state after : σ}
    (step : Step responses thread state thread' after) (h : Holds state) : Holds after := by
  induction step with
  | perform answer => exact keeps answer h
  | spawner _ ih => exact ih h
  | unit _ ih => exact ih h
  | gather => exact h
  | spawn => exact h
  | start _ => exact h
  | skip => exact h
  | finish => exact h
  | fail => exact h
  | join _ => exact h

/-- A step is one with other responses if its effect may get the same reply there. -/
theorem Step.imp {responses responses' : Responses σ} {α : Type} {thread thread' : Thread α}
    {state after : σ} (step : Step responses thread state thread' after)
    (imp : ∀ (effect : Effect) (reply : effect.Reply),
      responses.Answers effect state reply after → responses'.Answers effect state reply after) :
    Step responses' thread state thread' after := by
  induction step with
  | perform answer => exact .perform (imp _ _ answer)
  | gather => exact .gather
  | spawner _ ih => exact .spawner (ih imp)
  | spawn => exact .spawn
  | start h => exact .start h
  | skip => exact .skip
  | unit _ ih => exact .unit (ih imp)
  | finish => exact .finish
  | fail => exact .fail
  | join h => exact .join h

/-- Any number of steps of a thread that runs alone. -/
inductive Steps (responses : Responses σ) {α : Type} : Thread α → σ → Thread α → σ → Prop where
  | none {thread : Thread α} {state : σ} : Steps responses thread state thread state
  | more {thread thread' thread'' : Thread α} {state state' state'' : σ}
      (steps : Steps responses thread state thread' state')
      (step : Step responses thread' state' thread'' state'') :
      Steps responses thread state thread'' state''

theorem Steps.head {responses : Responses σ} {α : Type} {thread thread' thread'' : Thread α}
    {state state' state'' : σ} (step : Step responses thread state thread' state')
    (steps : Steps responses thread' state' thread'' state'') :
    Steps responses thread state thread'' state'' := by
  induction steps with
  | none => exact .more .none step
  | more _ step' ih => exact .more (ih step) step'

theorem Steps.perform {responses : Responses σ} {α : Type} {thread : Thread α}
    {state state' after : σ} {effect : Effect} {next : effect.Reply → Program α}
    {reply : effect.Reply} (answer : responses.Answers effect state reply state')
    (steps : Steps responses (.running (next reply)) state' thread after) :
    Steps responses (.running (.perform effect next)) state thread after :=
  .head (.perform answer) steps

/-- A run is one with other responses if each of its effects may get the same reply there. -/
theorem Steps.imp {responses responses' : Responses σ}
    (imp : ∀ {effect : Effect} {state after : σ} {reply : effect.Reply},
      responses.Answers effect state reply after → responses'.Answers effect state reply after)
    {α : Type} {thread thread' : Thread α} {state after : σ}
    (steps : Steps responses thread state thread' after) :
    Steps responses' thread state thread' after := by
  induction steps with
  | none => exact .none
  | more _ step ih => exact .more ih (step.imp fun _ _ => imp)

/-- Threads side by side, each with the type of its result. -/
abbrev Pool : Type 1 := List ((α : Type) × Thread α)

namespace Pool

/-- One thread of a pool makes a step. -/
inductive Step (responses : Responses σ) : Pool → σ → Pool → σ → Prop where
  | thread {α : Type} {thread thread' : Thread α} {before later : Pool} {state after : σ}
      (h : Thread.Step responses thread state thread' after) :
      Step responses (before ++ ⟨α, thread⟩ :: later) state (before ++ ⟨α, thread'⟩ :: later) after

/-- Any number of steps of a pool. -/
inductive Steps (responses : Responses σ) : Pool → σ → Pool → σ → Prop where
  | none {pool : Pool} {state : σ} : Steps responses pool state pool state
  | more {pool pool' pool'' : Pool} {state state' state'' : σ}
      (steps : Steps responses pool state pool' state')
      (step : Step responses pool' state' pool'' state'') :
      Steps responses pool state pool'' state''

theorem Steps.trans {responses : Responses σ} {pool pool' pool'' : Pool} {state state' state'' : σ}
    (steps : Steps responses pool state pool' state')
    (steps' : Steps responses pool' state' pool'' state'') :
    Steps responses pool state pool'' state'' := by
  induction steps' with
  | none => exact steps
  | more _ step ih => exact .more (ih steps) step

theorem Steps.append {responses : Responses σ} {pool pool' : Pool} {state after : σ}
    (steps : Steps responses pool state pool' after) (others : Pool) :
    Steps responses (pool ++ others) state (pool' ++ others) after := by
  induction steps with
  | none => exact .none
  | more _ step ih =>
    obtain ⟨step⟩ := step
    refine .more ih ?_
    simp only [List.append_assoc, List.cons_append]
    exact .thread step

theorem Steps.prepend {responses : Responses σ} {pool pool' : Pool} {state after : σ}
    (steps : Steps responses pool state pool' after) (others : Pool) :
    Steps responses (others ++ pool) state (others ++ pool') after := by
  induction steps with
  | none => exact .none
  | more _ step ih =>
    obtain ⟨step⟩ := step
    refine .more ih ?_
    simp only [← List.append_assoc]
    exact .thread step

theorem Steps.of_thread {responses : Responses σ} {α : Type} {thread thread' : Thread α}
    {state after : σ} (steps : Thread.Steps responses thread state thread' after)
    (before later : Pool) :
    Steps responses (before ++ ⟨α, thread⟩ :: later) state (before ++ ⟨α, thread'⟩ :: later)
      after := by
  induction steps with
  | none => exact .none
  | more _ step ih => exact .more ih (.thread step)

/-- What every effect keeps, every run of a pool keeps. -/
theorem Steps.preserves {responses : Responses σ} {Holds : σ → Prop}
    (keeps : ∀ {effect : Effect} {state after : σ} {reply : effect.Reply},
      responses.Answers effect state reply after → Holds state → Holds after)
    {pool pool' : Pool} {state after : σ} (steps : Steps responses pool state pool' after)
    (h : Holds state) : Holds after := by
  induction steps with
  | none => exact h
  | more _ step ih =>
    obtain ⟨step⟩ := step
    exact step.preserves keeps (ih h)

/-- A run is one with other responses if each of its effects may get the same reply there. -/
theorem Steps.imp {responses responses' : Responses σ}
    (imp : ∀ {effect : Effect} {state after : σ} {reply : effect.Reply},
      responses.Answers effect state reply after → responses'.Answers effect state reply after)
    {pool pool' : Pool} {state after : σ} (steps : Steps responses pool state pool' after) :
    Steps responses' pool state pool' after := by
  induction steps with
  | none => exact .none
  | more _ step ih =>
    obtain ⟨step⟩ := step
    exact .more ih (.thread (step.imp fun _ _ => imp))

/-- What every effect inherits from the state that it leaves behind holds all along a run at whose
end it holds. -/
theorem Steps.within_of_after {responses : Responses σ} {Holds : σ → Prop}
    (inherits : ∀ {effect : Effect} {state after : σ} {reply : effect.Reply},
      responses.Answers effect state reply after → Holds after → Holds state)
    {pool pool' : Pool} {state after : σ} (steps : Steps responses pool state pool' after)
    (h : Holds after) : Steps (responses.within Holds) pool state pool' after := by
  induction steps with
  | none => exact .none
  | more _ step ih =>
    obtain ⟨step⟩ := step
    have keeps : ∀ {effect : Effect} {state after : σ} {reply : effect.Reply},
        responses.Answers effect state reply after → ¬Holds state → ¬Holds after :=
      fun answer hnot hafter => hnot (inherits answer hafter)
    have hbefore := Classical.byContradiction fun hnot => step.preserves keeps hnot h
    exact .more (ih hbefore) (.thread (step.imp fun _ _ answer => ⟨answer, h⟩))

/-- What holds wherever a run gets holds all along the run. -/
theorem Steps.within_of_reached {responses : Responses σ} {Holds : σ → Prop} {pool pool' : Pool}
    {state after : σ} (steps : Steps responses pool state pool' after)
    (reached : ∀ {pool' after}, Steps responses pool state pool' after → Holds after) :
    Steps (responses.within Holds) pool state pool' after := by
  induction steps with
  | none => exact .none
  | more steps step ih =>
    have hafter := reached (.more steps step)
    obtain ⟨step⟩ := step
    exact .more (ih reached) (.thread (step.imp fun _ _ answer => ⟨answer, hafter⟩))

end Pool

end Thread

end HiveForum
