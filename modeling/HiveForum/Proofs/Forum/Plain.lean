import HiveForum.Operation
import HiveForum.Program.Run

/-!
# Operations that walk nothing

All operations but listings and deletions make a number of calls that does not depend on what is
stored: they need no bound, and come to an end in any world.

## Main definitions

* `Program.Plain`: a program that carries out one effect after another, and always ends.
* `Operation.walks`: whether an operation walks over what is stored.

## Main results

* `Program.Plain.run_ne_unfinished`: a plain program comes to an end.
* `Operation.plain`: an operation that walks over nothing is plain.
-/

namespace HiveForum

namespace Program

/-- The program carries out one effect after another, and ends with a value or a failure. -/
inductive Plain : {α : Type} → Program α → Prop where
  | done {α : Type} (value : α) : Plain (.done value)
  | fail {α : Type} (error : OperationError) : Plain (.fail (α := α) error)
  | perform {α : Type} {effect : Effect} {next : effect.Reply → Program α}
      (follows : ∀ reply, Plain (next reply)) : Plain (.perform effect next)

variable {σ α β : Type}

/-- A plain program comes to an end. -/
theorem Plain.run_ne_unfinished {p : Program α} (h : p.Plain) (world : World σ) (state : σ) :
    (p.run world state).1 ≠ .error .unfinished := by
  have hrun : ∀ units, (p.runWith world state units).1 ≠ .error .unfinished := by
    induction h generalizing state with
    | done => exact fun _ heq => by cases heq
    | fail => exact fun _ heq => by cases heq
    | perform _ ih => exact fun units => ih _ _ units
  exact hrun []

theorem Plain.bind {p : Program α} {f : α → Program β} (h : p.Plain)
    (hf : ∀ value, (f value).Plain) : (p.bind f).Plain := by
  induction h with
  | done value => exact hf value
  | fail error => exact .fail error
  | perform _ ih => exact .perform fun reply => ih reply

theorem Plain.attempt {p : Program α} (h : p.Plain) : p.attempt.Plain := by
  induction h with
  | done value => exact .done (Except.ok value)
  | fail error => exact .done (Except.error error)
  | perform _ ih => exact .perform ih

theorem plain_ofExcept {ε : Type} (describe : ε → OperationError) (result : Except ε α) :
    (ofExcept describe result).Plain := by
  cases result with
  | ok value => exact .done value
  | error error => exact .fail _

theorem plain_call (request : Request) : (call request).Plain :=
  .perform fun reply => plain_ofExcept _ reply

theorem plain_tryCall (request : Request) : (tryCall request).Plain := .perform .done

theorem plain_authorize (caller : Caller) (hive : ScopeId) : (authorize caller hive).Plain :=
  .perform fun _ => plain_ofExcept _ _

theorem plain_authorizeAs (caller : Caller) (hive : ScopeId) (required : Role) :
    (authorizeAs caller hive required).Plain :=
  .perform fun _ => plain_ofExcept _ _

theorem plain_loadTarget (target : Target) : (loadTarget target).Plain := by
  refine (plain_call _).bind fun item => ?_
  split
  · exact .done item
  · exact .fail _

theorem plain_currentRecord (caller : Caller) (target : Target) :
    (currentRecord caller target).Plain := by
  refine .perform fun reply => ?_
  cases reply with
  | ok record => exact .done record
  | error error =>
    change (if error.isNotFound then _ else _ : Program EngagementRecord).Plain
    split
    · exact .done _
    · exact .fail _

theorem plain_changeOf (transition : Transition α) : (changeOf transition).Plain := by
  cases transition with
  | apply change => exact .done change
  | noOp => exact .fail _

theorem plain_retryConflicts {attempt : Program (Except StoreError α)} (h : attempt.Plain)
    (retries : Nat) : (retryConflicts attempt retries).Plain := by
  induction retries with
  | zero => exact h.bind fun _ => plain_ofExcept _ _
  | succ retries ih =>
    refine h.bind fun result => ?_
    split
    · exact ih
    · exact plain_ofExcept _ _

theorem plain_attemptVote (caller : Caller) (target : Target) (request : VoteRequest)
    (time : Int64) : (attemptVote caller target request time).Plain :=
  (plain_currentRecord caller target).bind fun _ =>
    (plain_changeOf _).bind fun _ => plain_tryCall _

theorem plain_attemptSave (caller : Caller) (target : Target) (saved : Bool) :
    (attemptSave caller target saved).Plain :=
  (plain_currentRecord caller target).bind fun _ =>
    (plain_changeOf _).bind fun _ => plain_tryCall _

theorem plain_attemptReport (caller : Caller) (target : Target) (action : ReportAction) :
    (attemptReport caller target action).Plain :=
  (plain_loadTarget target).bind fun _ => (plain_currentRecord caller target).bind fun _ =>
    (plain_ofExcept _ _).bind fun _ => (plain_changeOf _).bind fun _ => plain_tryCall _

theorem plain_createPost (caller : Caller) (hive : ScopeId) (body : String) (tags : List TagId) :
    (createPost caller hive body tags).Plain :=
  (plain_authorize caller hive).bind fun _ => (plain_ofExcept _ _).bind fun _ =>
    (plain_ofExcept _ _).bind fun _ => .perform fun _ => .perform fun _ =>
      (plain_call _).bind fun _ => .done _

theorem plain_createComment (caller : Caller) (hive : ScopeId) (post : ContentId)
    (body : String) : (createComment caller hive post body).Plain := by
  refine (plain_authorize caller hive).bind fun _ => (plain_ofExcept _ _).bind fun _ =>
    (plain_loadTarget _).bind fun item => ?_
  dsimp only
  split
  · exact .fail _
  · exact .perform fun _ => .perform fun _ => (plain_call _).bind fun _ =>
      .perform fun _ => .perform fun _ => .perform fun _ => .done _

theorem plain_setPinned (caller : Caller) (target : Target) (pinned : Bool) :
    (setPinned caller target pinned).Plain := by
  refine (plain_authorizeAs caller _ _).bind fun _ => (plain_loadTarget target).bind fun item => ?_
  dsimp only
  split
  · exact .fail _
  · exact plain_call _

theorem plain_vote (settings : Settings) (caller : Caller) (target : Target)
    (request : VoteRequest) : (vote settings caller target request).Plain := by
  refine (plain_authorize caller _).bind fun _ => (plain_loadTarget target).bind fun item =>
    .perform fun time => (plain_retryConflicts (plain_attemptVote _ _ _ _) _).bind fun stored => ?_
  dsimp only
  split
  · exact .perform fun _ => .done _
  · exact .done _

theorem plain_applyReport (settings : Settings) (caller : Caller) (target : Target)
    (action : ReportAction) : (applyReport settings caller target action).Plain :=
  (plain_authorize caller _).bind fun _ =>
    (plain_retryConflicts (plain_attemptReport _ _ _) _).bind fun _ => .done _

theorem plain_getEngagement (caller : Caller) (target : Target) :
    (getEngagement caller target).Plain := by
  refine (plain_authorize caller _).bind fun _ => (plain_call _).bind fun record => ?_
  split
  · exact .done record
  · exact .fail _

end Program

namespace Operation

open Program

/-- Whether an operation walks over what is stored. -/
def walks : Operation → Bool
  | .deleteContent .. | .listContent .. => true
  | _ => false

/-- An operation that walks over nothing is plain. -/
theorem plain {op : Operation} (h : op.walks = false) (settings : Settings) (horizon : Nat) :
    (op.program settings horizon).Plain := by
  cases op with
  | deleteContent => cases h
  | listContent => cases h
  | createPost => exact plain_createPost _ _ _ _
  | createComment => exact plain_createComment _ _ _ _
  | getContent => exact (plain_authorize _ _).bind fun _ => plain_loadTarget _
  | markReviewed =>
    exact (plain_authorizeAs _ _ _).bind fun _ => (plain_loadTarget _).bind fun _ => plain_call _
  | setPinned => exact plain_setPinned _ _ _
  | vote => exact plain_vote _ _ _ _
  | setSaved =>
    exact (plain_authorize _ _).bind fun _ => (plain_loadTarget _).bind fun _ =>
      plain_retryConflicts (plain_attemptSave _ _ _) _
  | report => exact (plain_ofExcept _ _).bind fun _ => plain_applyReport _ _ _ _
  | withdrawReport => exact plain_applyReport _ _ _ _
  | getEngagement => exact plain_getEngagement _ _
  | lookupEngagement =>
    exact (plain_authorize _ _).bind fun _ => (plain_ofExcept _ _).bind fun _ =>
      (plain_call _).bind fun _ => .done _
  | ping => exact plain_call _

end Operation

end HiveForum
