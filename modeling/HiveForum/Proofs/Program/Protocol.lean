import HiveForum.Proofs.Program.Contract
import Mathlib.Data.List.Forall2

/-!
# Programs that follow a protocol

Programs that run side by side may owe one another something: who has made one half of a change has
still to make the other half. A protocol says at which stages a program may be, and which effects
lead from one stage to the next. Effects that are of no account leave it where it is; the units of a
group have no other ones.

What all the programs of a pool owe together is read off the list of their stages. A claim about
this list and the state that every effect keeps holds all along a run.

## Main definitions

* `Protocol`: the stages of a program, with the effects that lead from one to another.
* `Program.Follows`, `Thread.Follows`: a program follows a protocol from a stage on.
* `Thread.Pool.At`: the threads of a pool are at some stages.

## Main results

* `Program.Follows.bind`, `Program.Follows.attempt`: composing programs that follow a protocol.
* `Thread.Step.follows`: a step leads from one stage to the next.
* `Thread.Steps.follows`: what every effect keeps of the stage and the state, a thread that runs
  alone keeps.
* `Thread.Steps.keeps`: what every effect keeps that the protocol and a contract allow is kept by a
  thread that runs alone.
* `Thread.Pool.Steps.follows`: what every effect keeps of the stages and the state, a run keeps.
-/

namespace HiveForum

variable {σ δ : Type}

/-- The stages of a program, with the effects that lead from one to another. -/
structure Protocol (δ : Type) where
  /-- An effect may get a reply. -/
  Told : (effect : Effect) → effect.Reply → Prop
  /-- An effect is of no account. -/
  Apart : Effect → Prop
  /-- An effect with its reply leads from a stage to another one. -/
  Moves : δ → (effect : Effect) → effect.Reply → δ → Prop
  home : δ

namespace Protocol

/-- The protocol for programs whose effects are of no account. -/
def still (protocol : Protocol δ) : Protocol Unit where
  Told := protocol.Told
  Apart := protocol.Apart
  Moves _ _ _ _ := False
  home := ()

/-- After an effect a program is at a stage: where it was if the effect is of no account. -/
def Passes (protocol : Protocol δ) (stage : δ) (effect : Effect) (reply : effect.Reply)
    (stage' : δ) : Prop :=
  protocol.Apart effect ∧ stage' = stage ∨ protocol.Moves stage effect reply stage'

theorem apart_of_still {protocol : Protocol δ} {effect : Effect} {reply : effect.Reply}
    (h : protocol.still.Passes () effect reply ()) : protocol.Apart effect :=
  h.elim And.left False.elim

end Protocol

namespace Program

/-- The program follows a protocol from a stage on, and ends with a value and at a stage for which
a claim holds. -/
def Follows : {δ : Type} → (protocol : Protocol δ) → {α : Type} → Program α → δ →
    (α → δ → Prop) → Prop
  | _, _, _, .done value, stage, post => post value stage
  | _, protocol, _, .fail _, stage, _ => stage = protocol.home
  | _, _, _, .unfinished, _, _ => True
  | _, protocol, _, .perform effect next, stage, post =>
    ∀ reply, protocol.Told effect reply → ∃ stage', protocol.Passes stage effect reply stage' ∧
      (next reply).Follows protocol stage' post
  | _, protocol, _, .spawn unit next, stage, post =>
    unit.Follows protocol.still () (fun _ _ => True) ∧ next.Follows protocol stage post
  | _, protocol, _, .gather _ spawner next, stage, post =>
    spawner.Follows protocol.still () (fun _ _ => True) ∧
      ∀ gathered, (next gathered).Follows protocol stage post

variable {protocol : Protocol δ} {α β : Type} {stage : δ}

/-- One program after another. -/
theorem Follows.bind {p : Program α} {f : α → Program β} {claim : α → δ → Prop}
    {post : β → δ → Prop} (h : p.Follows protocol stage claim)
    (hf : ∀ value stage', claim value stage' → (f value).Follows protocol stage' post) :
    (p.bind f).Follows protocol stage post := by
  induction p generalizing stage with
  | done value => exact hf value stage h
  | fail error => exact h
  | unfinished => trivial
  | perform effect next ih =>
    intro reply told
    obtain ⟨stage', passes, hnext⟩ := h reply told
    exact ⟨stage', passes, ih reply hnext hf⟩
  | spawn unit next _ ih => exact ⟨h.1, ih h.2 hf⟩
  | gather limit spawner next _ ih => exact ⟨h.1, fun gathered => ih gathered (h.2 gathered) hf⟩

theorem Follows.weaken {p : Program α} {claim post : α → δ → Prop}
    (h : p.Follows protocol stage claim)
    (imp : ∀ value stage', claim value stage' → post value stage') :
    p.Follows protocol stage post := by
  rw [← bind_done p]
  exact h.bind imp

/-- An attempt ends with the value of the program, or at the beginning with its failure. -/
theorem Follows.attempt {p : Program α} {claim : α → δ → Prop}
    (h : p.Follows protocol stage claim) :
    p.attempt.Follows protocol stage fun result stage' =>
      (∀ value, result = .ok value → claim value stage') ∧
        ∀ error, result = .error error → stage' = protocol.home := by
  induction p generalizing stage with
  | done value => exact ⟨fun other heq => Except.ok.inj heq ▸ h, fun _ heq => (by cases heq)⟩
  | fail error => exact ⟨fun _ heq => (by cases heq), fun _ _ => h⟩
  | unfinished => trivial
  | perform effect next ih =>
    intro reply told
    obtain ⟨stage', passes, hnext⟩ := h reply told
    exact ⟨stage', passes, ih reply hnext⟩
  | spawn unit next _ ih => exact ⟨h.1, ih h.2⟩
  | gather limit spawner next _ ih => exact ⟨h.1, fun gathered => ih gathered (h.2 gathered)⟩

theorem follows_perform {effect : Effect} {next : effect.Reply → Program α} {post : α → δ → Prop}
    (apart : protocol.Apart effect)
    (follows : ∀ reply, protocol.Told effect reply → (next reply).Follows protocol stage post) :
    (Program.perform effect next).Follows protocol stage post :=
  fun reply told => ⟨stage, .inl ⟨apart, rfl⟩, follows reply told⟩

theorem follows_move {effect : Effect} {next : effect.Reply → Program α} {post : α → δ → Prop}
    (stage' : δ) (moves : ∀ reply, protocol.Told effect reply →
      protocol.Moves stage effect reply stage')
    (follows : ∀ reply, protocol.Told effect reply → (next reply).Follows protocol stage' post) :
    (Program.perform effect next).Follows protocol stage post :=
  fun reply told => ⟨stage', .inr (moves reply told), follows reply told⟩

theorem follows_ofExcept {ε : Type} {describe : ε → OperationError} {result : Except ε α} :
    (ofExcept describe result).Follows protocol protocol.home fun value stage' =>
      result = .ok value ∧ stage' = protocol.home := by
  cases result with
  | ok value => exact ⟨rfl, rfl⟩
  | error error => rfl

theorem follows_call {request : Request} (apart : protocol.Apart (.store request)) :
    (call request).Follows protocol protocol.home fun answer stage' =>
      protocol.Told (.store request) (.ok answer) ∧ stage' = protocol.home :=
  follows_perform apart fun reply told => by
    cases reply with
    | ok answer => exact ⟨told, rfl⟩
    | error error => rfl

theorem follows_tryCall {request : Request} (apart : protocol.Apart (.store request)) :
    (tryCall request).Follows protocol stage fun result stage' =>
      protocol.Told (.store request) result ∧ stage' = stage :=
  follows_perform apart fun _ told => ⟨told, rfl⟩

theorem follows_forkAll {units : List (Program Unit)}
    (h : ∀ unit ∈ units, unit.Follows protocol.still () fun _ _ => True) :
    (forkAll units).Follows protocol stage fun _ stage' => stage' = stage := by
  induction units with
  | nil => exact rfl
  | cons unit units ih =>
    obtain ⟨hunit, hunits⟩ := List.forall_mem_cons.1 h
    exact ⟨hunit, ih hunits⟩

end Program

namespace Thread

/-- A program under way follows a protocol. The members of an open group have no effects but those
of no account. -/
inductive Follows : {δ : Type} → Protocol δ → {α : Type} → Thread α → δ → (α → δ → Prop) →
    Prop where
  | running {δ α : Type} {protocol : Protocol δ} {program : Program α} {stage : δ}
      {post : α → δ → Prop} (h : program.Follows protocol stage post) :
      Follows protocol (.running program) stage post
  | gathering {δ α : Type} {protocol : Protocol δ} {limit : Nat} {spawner : Thread Unit}
      {waiting : List (Program Unit)} {units : List (Thread Unit)}
      {failure : Option OperationError} {next : Gathered → Program α} {stage : δ}
      {post : α → δ → Prop} (spawning : Follows protocol.still spawner () fun _ _ => True)
      (waits : ∀ unit ∈ waiting, unit.Follows protocol.still () fun _ _ => True)
      (runs : ∀ unit ∈ units, Follows protocol.still unit () fun _ _ => True)
      (follows : ∀ gathered, (next gathered).Follows protocol stage post) :
      Follows protocol (.gathering limit spawner waiting units failure next) stage post

variable {responses : Responses σ} {protocol : Protocol δ} {α : Type} {stage : δ}
  {post : α → δ → Prop}

theorem Follows.of_result? {thread : Thread α} (h : thread.Follows protocol stage post)
    {result : Except OperationError α} (ended : thread.result? = some result) :
    (∃ value, result = .ok value ∧ post value stage) ∨ stage = protocol.home := by
  cases h with
  | gathering => cases ended
  | @running _ _ _ program _ _ h =>
    cases program with
    | done value =>
      cases ended
      exact .inl ⟨value, rfl, h⟩
    | fail error => exact .inr h
    | _ => cases ended

/-- A step of a thread that follows a protocol is none to the world, or an effect that leads to the
next stage. -/
theorem Step.follows {thread thread' : Thread α} {state after : σ}
    (step : Step responses thread state thread' after) (h : thread.Follows protocol stage post)
    (told : ∀ effect reply, responses.Answers effect state reply after →
      protocol.Told effect reply) :
    (after = state ∧ thread'.Follows protocol stage post) ∨
      ∃ effect reply stage', responses.Answers effect state reply after ∧
        protocol.Passes stage effect reply stage' ∧ thread'.Follows protocol stage' post := by
  induction step generalizing δ with
  | perform answer =>
    obtain ⟨h⟩ := h
    obtain ⟨stage', passes, hnext⟩ := h _ (told _ _ answer)
    exact .inr ⟨_, _, stage', answer, passes, .running hnext⟩
  | gather =>
    obtain ⟨h⟩ := h
    exact .inl ⟨rfl, .gathering (.running h.1) (by simp) (by simp) h.2⟩
  | spawner _ ih =>
    obtain _ | ⟨spawning, waits, runs, follows⟩ := h
    obtain ⟨rfl, hspawner⟩ | ⟨effect, reply, _, answer, passes, hspawner⟩ := ih spawning told
    · exact .inl ⟨rfl, .gathering hspawner waits runs follows⟩
    · exact .inr ⟨effect, reply, stage, answer, .inl ⟨Protocol.apart_of_still passes, rfl⟩,
        .gathering hspawner waits runs follows⟩
  | spawn =>
    obtain _ | ⟨⟨hunit, hrest⟩, waits, runs, follows⟩ := h
    refine .inl ⟨rfl, .gathering (.running hrest) ?_ runs follows⟩
    exact List.forall_mem_append.2 ⟨waits, List.forall_mem_singleton.2 hunit⟩
  | start =>
    obtain _ | ⟨spawning, waits, runs, follows⟩ := h
    simp only [List.forall_mem_append, List.forall_mem_cons] at waits
    obtain ⟨hbefore, hunit, hlater⟩ := waits
    refine .inl ⟨rfl, .gathering spawning (List.forall_mem_append.2 ⟨hbefore, hlater⟩) ?_ follows⟩
    exact List.forall_mem_append.2 ⟨runs, List.forall_mem_singleton.2 (.running hunit)⟩
  | skip =>
    obtain _ | ⟨spawning, waits, runs, follows⟩ := h
    simp only [List.forall_mem_append, List.forall_mem_cons] at waits
    exact .inl ⟨rfl, .gathering spawning (List.forall_mem_append.2 ⟨waits.1, waits.2.2⟩) runs
      follows⟩
  | unit _ ih =>
    obtain _ | ⟨spawning, waits, runs, follows⟩ := h
    simp only [List.forall_mem_append, List.forall_mem_cons] at runs
    obtain ⟨hbefore, hunit, hlater⟩ := runs
    have hunits : ∀ {unit : Thread Unit}, unit.Follows protocol.still () (fun _ _ => True) →
        ∀ other ∈ _ ++ unit :: _, other.Follows protocol.still () fun _ _ => True :=
      fun hunit => List.forall_mem_append.2 ⟨hbefore, List.forall_mem_cons.2 ⟨hunit, hlater⟩⟩
    obtain ⟨rfl, hunit'⟩ | ⟨effect, reply, _, answer, passes, hunit'⟩ := ih hunit told
    · exact .inl ⟨rfl, .gathering spawning waits (hunits hunit') follows⟩
    · exact .inr ⟨effect, reply, stage, answer, .inl ⟨Protocol.apart_of_still passes, rfl⟩,
        .gathering spawning waits (hunits hunit') follows⟩
  | finish | fail =>
    obtain _ | ⟨spawning, waits, runs, follows⟩ := h
    simp only [List.forall_mem_append, List.forall_mem_cons] at runs
    exact .inl ⟨rfl, .gathering spawning waits (List.forall_mem_append.2 ⟨runs.1, runs.2.2⟩)
      follows⟩
  | join =>
    obtain _ | ⟨-, -, -, follows⟩ := h
    exact .inl ⟨rfl, .running (follows _)⟩

/-- A thread that runs alone follows a protocol and meets a contract: what every effect keeps that
both of them allow is kept all along its run. -/
theorem Steps.keeps {narrow : Responses σ} {Holds : σ → Prop} {contract : Contract σ}
    {pledge : Pledge σ} {claim : α → σ → Prop} {thread thread' : Thread α} {state after : σ}
    (steps : Steps narrow thread state thread' after)
    (wide : ∀ {effect : Effect} {state after : σ} {reply : effect.Reply},
      narrow.Answers effect state reply after → responses.Answers effect state reply after)
    (meets : thread.Meets responses contract pledge claim state)
    (follows : thread.Follows protocol stage post)
    (told : ∀ {effect : Effect} {state after : σ} {reply : effect.Reply},
      Holds state → narrow.Answers effect state reply after → protocol.Told effect reply)
    (keeps : ∀ {effect : Effect} {state after : σ} {reply : effect.Reply} {stage stage' : δ},
      Holds state → narrow.Answers effect state reply after →
        protocol.Passes stage effect reply stage' →
          after = state ∨ contract.guarantee state after → Holds after)
    (holds : Holds state) : Holds after := by
  suffices h : Holds after ∧ thread'.Meets responses contract pledge claim after ∧
      ∃ stage', thread'.Follows protocol stage' post from h.1
  induction steps with
  | none => exact ⟨holds, meets, stage, follows⟩
  | more _ step ih =>
    obtain ⟨hholds, hmeets, stage', hfollows⟩ := ih meets holds
    obtain ⟨hchange, hmeets'⟩ := (step.imp fun _ _ => wide).meets hmeets
    obtain ⟨rfl, hfollows'⟩ | ⟨effect, reply, last, answer, passes, hfollows'⟩ :=
      step.follows hfollows fun _ _ answer => told hholds answer
    · exact ⟨hholds, hmeets', stage', hfollows'⟩
    · exact ⟨keeps hholds answer passes hchange, hmeets', last, hfollows'⟩

/-- A claim about the stage of a thread that runs alone and the state holds all along its run if
every effect keeps it. -/
theorem Steps.follows {Holds : δ → σ → Prop} {thread thread' : Thread α} {state after : σ}
    (steps : Steps responses thread state thread' after)
    (told : ∀ {stage : δ} {state after : σ} {effect : Effect} {reply : effect.Reply},
      Holds stage state → responses.Answers effect state reply after →
        protocol.Told effect reply)
    (keeps : ∀ {stage stage' : δ} {state after : σ} {effect : Effect} {reply : effect.Reply},
      Holds stage state → responses.Answers effect state reply after →
        protocol.Passes stage effect reply stage' → Holds stage' after)
    (h : thread.Follows protocol stage post) (holds : Holds stage state) :
    ∃ stage', thread'.Follows protocol stage' post ∧ Holds stage' after := by
  induction steps with
  | none => exact ⟨stage, h, holds⟩
  | more _ step ih =>
    obtain ⟨stage', hfollows, hholds⟩ := ih holds
    obtain ⟨rfl, hfollows'⟩ | ⟨effect, reply, last, answer, passes, hfollows'⟩ :=
      step.follows hfollows fun _ _ answer => told hholds answer
    · exact ⟨stage', hfollows', hholds⟩
    · exact ⟨last, hfollows', keeps hholds answer passes⟩

namespace Pool

/-- The threads of a pool are at some stages of a protocol, and end where they began. -/
def At (protocol : Protocol δ) (stages : List δ) (pool : Pool) : Prop :=
  List.Forall₂ (fun stage thread =>
    thread.2.Follows protocol stage fun _ last => last = protocol.home) stages pool

theorem At.eq_home {stages : List δ} {pool : Pool} (h : At protocol stages pool)
    (ended : ∀ thread ∈ pool, thread.2.result?.isSome = true) :
    ∀ stage ∈ stages, stage = protocol.home := by
  induction h with
  | nil => exact fun _ h => by cases h
  | cons hfirst _ ih =>
    obtain ⟨hended, hrest⟩ := List.forall_mem_cons.1 ended
    obtain ⟨result, hresult⟩ := Option.isSome_iff_exists.1 hended
    refine List.forall_mem_cons.2 ⟨?_, ih hrest⟩
    obtain ⟨-, -, hhome⟩ | hhome := hfirst.of_result? hresult
    · exact hhome
    · exact hhome

/-- A claim about the stages of the threads and the state that every effect keeps holds all along a
run, as long as it admits no replies but those that the protocol foresees. -/
theorem Steps.follows {Holds : List δ → σ → Prop} {pool pool' : Pool} {state after : σ}
    {stages : List δ} (steps : Steps responses pool state pool' after)
    (told : ∀ {stages : List δ} {state after : σ} {effect : Effect} {reply : effect.Reply},
      Holds stages state → responses.Answers effect state reply after →
        protocol.Told effect reply)
    (keeps : ∀ {before later : List δ} {stage stage' : δ} {state after : σ} {effect : Effect}
      {reply : effect.Reply}, Holds (before ++ stage :: later) state →
        responses.Answers effect state reply after →
          protocol.Passes stage effect reply stage' → Holds (before ++ stage' :: later) after)
    (h : At protocol stages pool) (holds : Holds stages state) :
    ∃ stages', At protocol stages' pool' ∧ Holds stages' after := by
  induction steps with
  | none => exact ⟨stages, h, holds⟩
  | more _ step ih =>
    obtain ⟨stages', hat, hholds⟩ := ih holds
    obtain @⟨α, thread, thread', before, later, _, _, step⟩ := step
    have hfront := List.forall₂_take_append _ before _ hat
    have hrest := List.forall₂_drop_append _ before _ hat
    rw [← List.take_append_drop before.length stages'] at hholds
    generalize stages'.take before.length = front at hfront hholds
    generalize stages'.drop before.length = back at hrest hholds
    obtain _ | ⟨hthread, hback⟩ := hrest
    obtain ⟨rfl, hthread'⟩ | ⟨effect, reply, stage', answer, passes, hthread'⟩ :=
      step.follows hthread fun effect reply answer => told hholds answer
    · exact ⟨_, List.rel_append hfront (.cons hthread' hback), hholds⟩
    · exact ⟨_, List.rel_append hfront (.cons hthread' hback), keeps hholds answer passes⟩

end Pool

end Thread

end HiveForum
