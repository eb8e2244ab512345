import HiveForum.Proofs.Program.Contract
import Mathlib.Logic.Hydra
import Mathlib.Tactic.Abel

/-!
# Runs come to an end

A program is a finite tree, but the units that it spawns multiply what is left to do. A thread under
way is a collection of pieces: programs that run, programs that wait for a slot, and what follows
its groups. Each step takes away one piece and puts finitely many in its place that lie below it, so
that no run goes on for ever. Where every effect gets a reply, a thread that meets a contract is
never stuck either, and ends with what the contract claims.

## Main definitions

* `Thread.Piece`, `Thread.pieces`: what is left to do in a thread.
* `Thread.Ends`: however its steps fall, a thread ends with a result that satisfies a claim.

## Main results

* `Thread.wellFounded_step`: there is no infinite run.
* `Thread.Meets.progress`: a thread that meets a contract has ended or can make a step.
* `Thread.Meets.ends`: a thread that meets a contract ends as the contract claims.
-/

namespace HiveForum

open Relation

variable {σ : Type}

namespace Thread

/-- A piece of what is left to do in a thread. -/
inductive Piece : Type 1 where
  | rest {α : Type} (program : Program α)
  | waiting (unit : Program Unit)
  | follows {α : Type} (next : Gathered → Program α)

namespace Piece

/-- A piece that another one leaves behind. -/
inductive Below : Piece → Piece → Prop where
  | reply {α : Type} (effect : Effect) (next : effect.Reply → Program α) (reply : effect.Reply) :
      Below (.rest (next reply)) (.rest (.perform effect next))
  | spawner {α : Type} (limit : Nat) (spawner : Program Unit) (next : Gathered → Program α) :
      Below (.rest spawner) (.rest (.gather limit spawner next))
  | opened {α : Type} (limit : Nat) (spawner : Program Unit) (next : Gathered → Program α) :
      Below (.follows next) (.rest (.gather limit spawner next))
  | spawned {α : Type} (unit : Program Unit) (next : Program α) :
      Below (.waiting unit) (.rest (.spawn unit next))
  | spawning {α : Type} (unit : Program Unit) (next : Program α) :
      Below (.rest next) (.rest (.spawn unit next))
  | started (unit : Program Unit) : Below (.rest unit) (.waiting unit)
  | joined {α : Type} (next : Gathered → Program α) (gathered : Gathered) :
      Below (.rest (next gathered)) (.follows next)

theorem acc_rest {α : Type} (program : Program α) : Acc Below (.rest program) := by
  induction program with
  | done value => exact ⟨_, fun _ h => by cases h⟩
  | fail error => exact ⟨_, fun _ h => by cases h⟩
  | unfinished => exact ⟨_, fun _ h => by cases h⟩
  | perform effect next ih =>
    refine ⟨_, fun _ h => ?_⟩
    cases h
    exact ih _
  | spawn unit next ihunit ihnext =>
    refine ⟨_, fun _ h => ?_⟩
    cases h with
    | spawned => exact ⟨_, fun _ h => by cases h; exact ihunit⟩
    | spawning => exact ihnext
  | gather limit spawner next ihspawner ihnext =>
    refine ⟨_, fun _ h => ?_⟩
    cases h with
    | spawner => exact ihspawner
    | opened => exact ⟨_, fun _ h => by cases h; exact ihnext _⟩

theorem wellFounded_below : WellFounded Below := by
  refine ⟨fun piece => ?_⟩
  cases piece with
  | rest program => exact acc_rest program
  | waiting unit => exact ⟨_, fun _ h => by cases h; exact acc_rest unit⟩
  | follows next => exact ⟨_, fun _ h => by cases h; exact acc_rest _⟩

end Piece

mutual

/-- The pieces of what is left to do in a thread. -/
def pieces : {α : Type} → Thread α → Multiset Piece
  | _, .running program => {.rest program}
  | _, .gathering _ spawner waiting units _ next =>
    {.follows next} + (spawner.pieces + ((waiting.map Piece.waiting : List Piece) + piecesOf units))

/-- The pieces of what is left to do in several threads. -/
def piecesOf : List (Thread Unit) → Multiset Piece
  | [] => 0
  | unit :: units => unit.pieces + piecesOf units

end

theorem piecesOf_append (units units' : List (Thread Unit)) :
    piecesOf (units ++ units') = piecesOf units + piecesOf units' := by
  induction units with
  | nil => simp [piecesOf]
  | cons unit units ih => simp [piecesOf, ih, add_assoc]

/-- Fewer or lesser pieces are left. -/
abbrev Fewer : Multiset Piece → Multiset Piece → Prop := TransGen (CutExpand Piece.Below)

theorem wellFounded_fewer : WellFounded Fewer :=
  haveI : Std.Irrefl Piece.Below := ⟨fun piece => Piece.wellFounded_below.irrefl.irrefl piece⟩
  Piece.wellFounded_below.cutExpand.transGen

theorem fewer_of_below {pieces : Multiset Piece} {piece : Piece}
    (h : ∀ piece' ∈ pieces, piece'.Below piece) : Fewer pieces {piece} :=
  .single (cutExpand_singleton h)

theorem fewer_add_left {some less : Multiset Piece} (more : Multiset Piece)
    (h : Fewer less some) : Fewer (more + less) (more + some) :=
  h.lift (more + ·) fun _ _ hcut => (cutExpand_add_left more).2 hcut

theorem fewer_add_right {some less : Multiset Piece} (more : Multiset Piece)
    (h : Fewer less some) : Fewer (less + more) (some + more) :=
  h.lift (· + more) fun _ _ hcut => (cutExpand_add_right more).2 hcut

theorem fewer_zero (piece : Piece) : Fewer 0 {piece} := fewer_of_below (by simp)

theorem pieces_waiting (before later : List (Program Unit)) (unit : Program Unit) :
    ((before ++ unit :: later).map Piece.waiting : List Piece) =
      ((before ++ later).map Piece.waiting : List Piece) + ({.waiting unit} : Multiset Piece) := by
  simp only [List.map_append, List.map_cons, ← Multiset.coe_add, ← Multiset.cons_coe,
    ← Multiset.singleton_add]
  abel

theorem piecesOf_middle (before later : List (Thread Unit)) (unit : Thread Unit) :
    piecesOf (before ++ unit :: later) = piecesOf (before ++ later) + unit.pieces := by
  simp only [piecesOf_append, piecesOf]
  abel

/-- Every step leaves fewer or lesser pieces. -/
theorem Step.fewer {responses : Responses σ} {α : Type} {thread thread' : Thread α}
    {state after : σ} (step : Step responses thread state thread' after) :
    Fewer thread'.pieces thread.pieces := by
  induction step with
  | @perform _ effect next _ _ reply =>
    refine fewer_of_below ?_
    simp only [pieces, Multiset.mem_singleton]
    rintro _ rfl
    exact .reply effect next reply
  | gather =>
    refine fewer_of_below ?_
    simp only [pieces, piecesOf, List.map_nil, Multiset.coe_nil, add_zero, Multiset.mem_add,
      Multiset.mem_singleton]
    rintro _ (rfl | rfl)
    · exact .opened ..
    · exact .spawner ..
  | spawner _ ih => exact fewer_add_left _ (fewer_add_right _ ih)
  | @spawn _ _ unit rest waiting =>
    have hspawn : Fewer ({.rest rest} + {.waiting unit}) {.rest (.spawn unit rest)} := by
      refine fewer_of_below ?_
      simp only [Multiset.mem_add, Multiset.mem_singleton]
      rintro _ (rfl | rfl)
      · exact .spawning ..
      · exact .spawned ..
    have hwaiting := pieces_waiting waiting [] unit
    rw [List.append_nil] at hwaiting
    simp only [pieces, hwaiting]
    convert fewer_add_left _ (fewer_add_right _ hspawn) using 2
    abel
  | @start _ _ spawner unit before later units =>
    have hstart : Fewer {.rest unit} {.waiting unit} := by
      refine fewer_of_below ?_
      simp only [Multiset.mem_singleton]
      rintro _ rfl
      exact .started unit
    let others : Multiset Piece := ((before ++ later).map Piece.waiting : List Piece)
    simp only [pieces, pieces_waiting, piecesOf_append, piecesOf, add_zero]
    convert fewer_add_left _ (fewer_add_left spawner.pieces
      (fewer_add_left (others + piecesOf units) hstart)) using 3
    · exact (add_assoc _ _ _).symm
    · exact add_right_comm _ _ _
  | @skip _ _ spawner unit before later units =>
    let others : Multiset Piece := ((before ++ later).map Piece.waiting : List Piece)
    simp only [pieces, pieces_waiting]
    convert fewer_add_left _ (fewer_add_left spawner.pieces
      (fewer_add_left (others + piecesOf units) (fewer_zero (.waiting unit)))) using 3
    · rw [add_zero]
    · exact add_right_comm _ _ _
  | unit _ ih =>
    simp only [pieces, piecesOf_middle]
    exact fewer_add_left _ (fewer_add_left _ (fewer_add_left _ (fewer_add_left _ ih)))
  | finish =>
    simp only [pieces, piecesOf_middle]
    refine fewer_add_left _ (fewer_add_left _ (fewer_add_left _ ?_))
    simpa using fewer_add_left _ (fewer_zero (.rest (.done ())))
  | @fail _ _ _ _ _ _ _ error =>
    simp only [pieces, piecesOf_middle]
    refine fewer_add_left _ (fewer_add_left _ (fewer_add_left _ ?_))
    simpa using fewer_add_left _ (fewer_zero (.rest (.fail error)))
  | @join _ _ spawner failure next result _ hresult =>
    have hnext : Fewer {.rest (next ⟨result, unitsResult failure⟩)} {.follows next} := by
      refine fewer_of_below ?_
      simp only [Multiset.mem_singleton]
      rintro _ rfl
      exact .joined ..
    refine hnext.trans ?_
    cases spawner with
    | gathering => cases hresult
    | running program =>
      simp only [pieces, piecesOf, List.map_nil, Multiset.coe_nil, add_zero]
      simpa using fewer_add_left {.follows next} (fewer_zero (.rest program))

/-- A step backwards: the thread and the state before it. -/
abbrev Precedes (responses : Responses σ) {α : Type} (later earlier : Thread α × σ) : Prop :=
  Step responses earlier.1 earlier.2 later.1 later.2

/-- There is no infinite run. -/
theorem wellFounded_step (responses : Responses σ) (α : Type) :
    WellFounded (Precedes (α := α) responses) :=
  Subrelation.wf (fun step => step.fewer)
    (InvImage.wf (fun run : Thread α × σ => run.1.pieces) wellFounded_fewer)

/-- However its steps fall, the thread ends, with a result and in a state for which `post` holds. -/
inductive Ends (responses : Responses σ) {α : Type} (post : Except OperationError α → σ → Prop) :
    Thread α → σ → Prop where
  | ended {thread : Thread α} {state : σ} {result : Except OperationError α}
      (hresult : thread.result? = some result) (h : post result state) :
      Ends responses post thread state
  | step {thread : Thread α} {state : σ}
      (can : ∃ thread' after, Step responses thread state thread' after)
      (ends : ∀ thread' after, Step responses thread state thread' after →
        Ends responses post thread' after) :
      Ends responses post thread state

theorem Ends.imp {responses : Responses σ} {α : Type}
    {post post' : Except OperationError α → σ → Prop}
    (imp : ∀ result state, post result state → post' result state) {thread : Thread α} {state : σ}
    (h : Ends responses post thread state) : Ends responses post' thread state := by
  induction h with
  | ended hresult h => exact .ended hresult (imp _ _ h)
  | step can _ ih => exact .step can ih

variable {responses : Responses σ} {contract : Contract σ} {pledge : Pledge σ} {α : Type}

/-- A thread that meets a contract without going beyond its bound has ended, or can make a step, or
hands a unit to the group around it. -/
theorem Meets.progress {post : α → σ → Prop} {thread : Thread α} {state : σ}
    (answered : ∀ effect state, ∃ reply after, responses.Answers effect state reply after)
    (h : thread.Meets responses contract pledge post state) (bounded : ¬contract.endless) :
    (∃ result, thread.result? = some result) ∨
      (∃ thread' after, Step responses thread state thread' after) ∨
        pledge ≠ none ∧ ∃ unit rest, thread = .running (.spawn unit rest) := by
  induction h with
  | @running _ program _ _ _ state h =>
    cases program with
    | done value => exact .inl ⟨_, rfl⟩
    | fail error => exact .inl ⟨_, rfl⟩
    | unfinished => exact absurd h bounded
    | perform effect next =>
      obtain ⟨reply, after, answer⟩ := answered effect state
      exact .inr (.inl ⟨_, _, .perform answer⟩)
    | spawn unit next =>
      obtain ⟨pledged, claim, rfl, -⟩ := h
      exact .inr (.inr ⟨by simp, unit, next, rfl⟩)
    | gather limit spawner next => exact .inr (.inl ⟨_, _, .gather⟩)
  | @gathering _ limit spawner waiting units failure next _ _ _ state _ _ _ waitingClaims
      unitClaims opens hwaiting hunits _ _ _ _ _ _ ihspawner ihunits =>
    have hinner := fun hendless => bounded (opens.endless hendless)
    refine .inr (.inl ?_)
    -- the first of: a unit that runs, the program that spawns, a unit that waits, the join
    cases unitClaims with
    | cons first others =>
      obtain rfl := hunits
      obtain ⟨result, hresult⟩ | ⟨unit', after, hstep⟩ | ⟨hpledge, -⟩ :=
        ihunits first List.mem_cons_self hinner
      · obtain ⟨unit, claim⟩ := first
        cases unit with
        | gathering => cases hresult
        | running program =>
          cases program with
          | done value => exact ⟨_, _, @Step.finish _ _ _ _ _ _ [] _ _ _ _⟩
          | fail error => exact ⟨_, _, @Step.fail _ _ _ _ _ _ [] _ _ _ _ _⟩
          | _ => cases hresult
      · exact ⟨_, _, @Step.unit _ _ _ _ _ _ _ _ [] _ _ _ _ _ hstep⟩
      · exact absurd rfl hpledge
    | nil =>
      obtain rfl := hunits
      obtain ⟨result, hresult⟩ | ⟨spawner', after, hstep⟩ | ⟨-, unit, rest, rfl⟩ :=
        ihspawner hinner
      · cases waiting with
        | nil => exact ⟨_, _, .join hresult⟩
        | cons unit waiting =>
          cases failure with
          | none => exact ⟨_, _, @Step.start _ _ _ _ _ _ [] _ _ _ _ (by simp)⟩
          | some error => exact ⟨_, _, @Step.skip _ _ _ _ _ _ [] _ _ _ _ _⟩
      · exact ⟨_, _, .spawner hstep⟩
      · exact ⟨_, _, .spawn⟩

/-- A thread that meets a contract without going beyond its bound ends as the contract claims,
however its steps fall, if every effect gets a reply. -/
theorem Meets.ends {post : α → σ → Prop} {thread : Thread α} {state : σ}
    (answered : ∀ effect state, ∃ reply after, responses.Answers effect state reply after)
    (h : thread.Meets responses contract none post state) (bounded : ¬contract.endless) :
    thread.Ends responses
      (fun result later =>
        (∀ value, result = .ok value → post value later) ∧
          ∀ error, result = .error error → contract.failing error later) state := by
  suffices hrun : ∀ run : Thread α × σ, run.1.Meets responses contract none post run.2 →
      run.1.Ends responses (fun result later =>
        (∀ value, result = .ok value → post value later) ∧
          ∀ error, result = .error error → contract.failing error later) run.2 from
    hrun (thread, state) h
  intro run
  induction run using (wellFounded_step responses α).induction with
  | _ run ih =>
    intro hmeets
    obtain ⟨result, hresult⟩ | hstep | ⟨hpledge, -⟩ := hmeets.progress answered bounded
    · refine .ended hresult ⟨?_, ?_⟩
      · rintro value rfl
        exact hmeets.of_result?.1 value hresult trivial
      · rintro error rfl
        exact hmeets.of_result?.2 error hresult
    · exact .step hstep fun thread' after step => ih (thread', after) step (step.meets hmeets).2
    · exact absurd rfl hpledge

end Thread

end HiveForum
