import HiveForum.Proofs.Forum.Dating
import HiveForum.Proofs.Forum.Plain
import HiveForum.Proofs.Program.Journals

/-!
# Operations tell what they return

The author of a post is told of every comment on it, and the author of an item of every vote that
someone else adds for it. This is the last thing that an operation does, after all that could still
fail: whoever has sent a notification has only to return. So the notifications of an operation are
those of the comment or the vote that it has returned, whatever others do meanwhile, whichever calls
fail or lose their replies, and however often a vote is tried again.

A program announces what it will return (`Program.Announces`): either it has no notifications at
all, or it goes on silently, or it sends one and returns. A program that announces keeps to this
step by step, with its own journal to show what it was told.

## Main definitions

* `notices`, `Entered`: the notifications in a journal, and the replies in it.
* `Operation.Tells`: what an operation that has returned has told.
* `Program.Announces`, `Thread.Reports`: a program tells what it returns.
* `Invocation.Mirrors`: an operation has told what it has returned, or nothing.

## Main results

* `Thread.Reports.step`: a step keeps what is to be reported.
* `Operation.reports`: every operation reports what it returns.
* `Invocation.mirrors_of_recorded`: operations side by side tell what they return.
-/

namespace HiveForum

open Program

variable {σ : Type}

/-! ### Notifications -/

/-- The notification that an effect hands over. -/
def Effect.notice? : Effect → Option Notification
  | .notify notification => some notification
  | _ => none

/-- The notification that an event is, if it is one. -/
def Event.notices (event : Event σ) : List Notification := event.effect.notice?.toList

/-- The notifications in a journal. -/
def notices (journal : List (Event σ)) : List Notification := journal.flatMap Event.notices

theorem notices_append (journal later : List (Event σ)) :
    notices (journal ++ later) = notices journal ++ notices later := List.flatMap_append

/-- An effect has got a reply, as a journal says. -/
def Entered (journal : List (Event σ)) (effect : Effect) (reply : effect.Reply) : Prop :=
  ∃ before after, ⟨effect, before, reply, after⟩ ∈ journal

/-- What an operation that has returned has told, where replies are told it. -/
def Operation.Tells (Told : (effect : Effect) → effect.Reply → Prop) :
    (op : Operation) → op.Result → List Notification → Prop
  | .createComment caller hive post _, comment, sent =>
    (comment.hive = hive ∧ comment.scope = post.asScope ∧ comment.author = caller.user) ∧
      ∃ item : ContentItem, Told (.store (.getContent ⟨hive, post⟩)) (.ok item) ∧
        sent = [.commentCreated hive post comment.id caller.user item.author]
  | .vote caller target .addUp, _, sent =>
    ∃ item : ContentItem, Told (.store (.getContent target.content)) (.ok item) ∧
      sent = if item.author = caller.user then [] else
        [.upVoted target.hive target.content caller.user item.author]
  | _, _, sent => sent = []

/-- Whether someone may be told of what the operation does. -/
def Operation.isTold : Operation → Bool
  | .createComment .. => true
  | .vote .. => true
  | _ => false

/-! ### Programs -/

/-- The protocol of programs without notifications. -/
def mute (Told : (effect : Effect) → effect.Reply → Prop) : Protocol Unit where
  Told := Told
  Apart effect := effect.notice? = none
  Moves _ _ _ _ := False
  home := ()

namespace Program

/-- The program tells what a claim says of its value: it has no notifications, it goes on silently,
or it sends one and returns. -/
inductive Announces (Told : (effect : Effect) → effect.Reply → Prop) {α : Type}
    (claim : α → List Notification → Prop) : Program α → Prop where
  | silent {p : Program α} (h : p.Follows (mute Told) () fun value _ => claim value []) :
      Announces Told claim p
  | perform {effect : Effect} {next : effect.Reply → Program α}
      (quiet : ∀ reply, Told effect reply → effect.notice? = none)
      (h : ∀ reply, Told effect reply → Announces Told claim (next reply)) :
      Announces Told claim (.perform effect next)
  | last {notification : Notification} {next : Unit → Program α} {value : α}
      (returns : next () = .done value) (h : claim value [notification]) :
      Announces Told claim (.perform (.notify notification) next)

variable {Told : (effect : Effect) → effect.Reply → Prop} {α β : Type}
  {claim : α → List Notification → Prop}

theorem Announces.bind {p : Program β} {f : β → Program α} {post : β → Unit → Prop}
    (plain : p.Plain) (h : p.Follows (mute Told) () post)
    (hf : ∀ value, post value () → (f value).Announces Told claim) :
    (p.bind f).Announces Told claim := by
  induction plain with
  | done value => exact hf value h
  | fail error => exact .silent rfl
  | @perform effect next _ ih =>
    refine .perform (fun reply told => ?_) fun reply told => ?_
    · obtain ⟨_, passes, -⟩ := h reply told
      exact passes.elim And.left False.elim
    · obtain ⟨_, -, hnext⟩ := h reply told
      exact ih reply hnext

theorem announces_ask {effect : Effect} {f : effect.Reply → Program α}
    (quiet : effect.notice? = none)
    (hf : ∀ reply, Told effect reply → (f reply).Announces Told claim) :
    ((Program.perform effect .done).bind f).Announces Told claim :=
  .perform (fun _ _ => quiet) hf

end Program

/-! ### Operations -/

section Operations

variable {Told : (effect : Effect) → effect.Reply → Prop}

theorem notice?_of_isSilent {effect : Effect} (h : effect.isSilent = true) :
    effect.notice? = none := by
  cases effect with
  | notify => cases h
  | _ => rfl

theorem Operation.permits_mute (site : Site) {op : Operation} (told : op.isTold = false) :
    (mute Told).Permits site (fun _ => True) op := by
  intro effect asks
  cases asks with
  | silent hsilent => exact notice?_of_isSilent hsilent
  | commented => cases told
  | voted => cases told
  | _ => rfl

theorem announces_createComment {caller : Caller} {hive : ScopeId} {post : ContentId}
    {body : String} : (createComment caller hive post body).Announces Told
      ((Operation.createComment caller hive post body).Tells Told) := by
  have lenient : ∀ effect : Effect, effect.isSilent = true → (mute Told).Apart effect :=
    fun _ => notice?_of_isSilent
  refine .bind (plain_authorize _ _) (follows_authorize lenient) fun _ _ => ?_
  refine .bind (plain_ofExcept _ _) follows_ofExcept fun _ _ => ?_
  refine .bind (plain_loadTarget _) (follows_loadTarget lenient) fun item hitem => ?_
  obtain ⟨shown, -, -⟩ := hitem
  dsimp only
  split
  · exact .silent rfl
  · refine announces_ask rfl fun time _ => announces_ask rfl fun id _ => ?_
    refine .bind (plain_call _) (follows_call rfl) fun _ _ => ?_
    refine announces_ask rfl fun _ _ => announces_ask rfl fun _ _ => ?_
    exact .last rfl ⟨⟨rfl, rfl, rfl⟩, item, shown, rfl⟩

theorem announces_vote {settings : Settings} {caller : Caller} {target : Target}
    {request : VoteRequest} : (vote settings caller target request).Announces Told
      ((Operation.vote caller target request).Tells Told) := by
  have lenient : ∀ effect : Effect, effect.isSilent = true → (mute Told).Apart effect :=
    fun _ => notice?_of_isSilent
  have hattempt : ∀ time, Returns (mute Told) (attemptVote caller target request time) := by
    intro time
    refine (follows_currentRecord lenient).bind fun record _ _ => ?_
    refine follows_changeOf.bind fun change _ _ => ?_
    exact (follows_tryCall rfl).weaken fun _ _ => And.right
  refine .bind (plain_authorize _ _) (follows_authorize lenient) fun _ _ => ?_
  refine .bind (plain_loadTarget _) (follows_loadTarget lenient) fun item hitem => ?_
  obtain ⟨shown, -, -⟩ := hitem
  refine announces_ask rfl fun time _ => ?_
  refine .bind (plain_retryConflicts (plain_attemptVote _ _ _ _) _)
    (follows_retryConflicts (hattempt time) _) fun stored _ => ?_
  dsimp only
  split
  · rename_i hadds
    obtain ⟨rfl, hother⟩ := hadds
    exact .last rfl ⟨item, shown, (if_neg hother).symm⟩
  · rename_i hadds
    refine .silent (p := .done stored.1) ?_
    by_cases hup : request = .addUp
    · subst hup
      have hself : item.author = caller.user := by_contra fun hother => hadds ⟨rfl, hother⟩
      exact ⟨item, shown, (if_pos hself).symm⟩
    · obtain ⟨side, add⟩ := request
      cases side <;> cases add <;> first | exact rfl | exact absurd rfl hup

theorem follows_mute_createPost {caller : Caller} {hive : ScopeId} {body : String}
    {tags : List TagId} : Returns (mute Told) (createPost caller hive body tags) := by
  have lenient : ∀ effect : Effect, effect.isSilent = true → (mute Told).Apart effect :=
    fun _ => notice?_of_isSilent
  refine (follows_authorize lenient).bind fun _ _ _ => ?_
  refine follows_ofExcept.bind fun _ _ _ => follows_ofExcept.bind fun _ _ _ => ?_
  refine follows_perform rfl fun time _ => follows_perform rfl fun id _ => ?_
  exact (returns_call rfl).bind fun _ _ _ => rfl

theorem Operation.follows_mute {op : Operation} (writes : op.isWriting = false)
    (told : op.isTold = false) (settings : Settings) (horizon : Nat) :
    Returns (mute Told) (op.program settings horizon) := by
  -- what an operation may ask does not depend on where it is run
  let anywhere : Site := ⟨⟨1, 0, Nat.one_pos⟩, .empty⟩
  exact op.follows_lenient writes (permits_mute anywhere told) (fun _ => rfl) (fun _ => rfl)
    (fun _ _ => rfl) settings horizon

end Operations

/-! ### Threads -/

namespace Thread

variable {α : Type} {Told : (effect : Effect) → effect.Reply → Prop}
  {responses : Responses σ} {state after : σ} {journal journal' : List (Event σ)}

/-- A program under way tells what a claim says of its value. -/
inductive Announces (Told : (effect : Effect) → effect.Reply → Prop)
    (claim : α → List Notification → Prop) : Thread α → Prop where
  | silent {thread : Thread α}
      (h : thread.Follows (mute Told) () fun value _ => claim value []) :
      Announces Told claim thread
  | plain {program : Program α} (plain : program.Plain) (h : program.Announces Told claim) :
      Announces Told claim (.running program)

/-- A program tells what a claim says of its value, whatever it has been told: it has told nothing
so far, or it has told this and returned. -/
def Reports (claim : ((effect : Effect) → effect.Reply → Prop) → α → List Notification → Prop)
    (thread : Thread α) (journal : List (Event σ)) : Prop :=
  ∀ Told : (effect : Effect) → effect.Reply → Prop,
    (∀ effect reply, Entered journal effect reply → Told effect reply) →
      notices journal = [] ∧ thread.Announces Told (claim Told) ∨
        ∃ value, thread = .running (.done value) ∧ claim Told value (notices journal)

private theorem entered_last {effect : Effect} {reply : effect.Reply}
    (h : journal' = journal ++ [⟨effect, state, reply, after⟩]) :
    Entered journal' effect reply :=
  ⟨state, after, h ▸ List.mem_append_right _ (List.mem_singleton_self _)⟩

theorem notices_entered {effect : Effect} {reply : effect.Reply} (quiet : effect.notice? = none)
    (h : journal' = journal ++ [⟨effect, state, reply, after⟩]) :
    notices journal' = notices journal := by
  have hentry : notices [(⟨effect, state, reply, after⟩ : Event σ)] = [] := by
    simp [notices, Event.notices, quiet]
  rw [h, notices_append, hentry, List.append_nil]

theorem Follows.step_mute {post : α → Unit → Prop} {thread thread' : Thread α}
    (h : thread.Follows (mute Told) () post)
    (step : Step responses.journaled thread (state, journal) thread' (after, journal'))
    (told : ∀ effect reply, Entered journal' effect reply → Told effect reply) :
    notices journal' = notices journal ∧ thread'.Follows (mute Told) () post := by
  obtain ⟨hsame, hfollows⟩ | ⟨effect, reply, _, answer, passes, hfollows⟩ :=
    step.follows h fun effect reply answer => told effect reply (entered_last answer.2)
  · obtain ⟨-, rfl⟩ := Prod.mk.inj hsame
    exact ⟨rfl, hfollows⟩
  · exact ⟨notices_entered (passes.elim And.left False.elim) answer.2, hfollows⟩

/-- A program that announces goes on to do so, or it tells what it has to and returns. -/
theorem Announces.step {claim : α → List Notification → Prop} {thread thread' : Thread α}
    (h : thread.Announces Told claim)
    (step : Step responses.journaled thread (state, journal) thread' (after, journal'))
    (told : ∀ effect reply, Entered journal' effect reply → Told effect reply) :
    notices journal' = notices journal ∧ thread'.Announces Told claim ∨
      ∃ value notification, thread' = .running (.done value) ∧
        notices journal' = notices journal ++ [notification] ∧ claim value [notification] := by
  cases h with
  | silent h => exact .inl ((h.step_mute step told).imp_right .silent)
  | plain plain h =>
    cases h with
    | silent h => exact .inl (((Follows.running h).step_mute step told).imp_right .silent)
    | perform quiet hnext =>
      obtain @⟨_, _, next, _, _, reply, answer⟩ := step
      have hreply := told _ reply (entered_last answer.2)
      obtain _ | _ | hplain := plain
      exact .inl ⟨notices_entered (quiet reply hreply) answer.2,
        .plain (hplain reply) (hnext reply hreply)⟩
    | @last notification _ value returns hclaim =>
      obtain @⟨_, _, next, _, _, reply, answer⟩ := step
      refine .inr ⟨value, notification, congrArg running returns, ?_, hclaim⟩
      rw [show journal' = _ from answer.2, notices_append]
      rfl

/-- A step keeps what is to be reported. -/
theorem Reports.step
    {claim : ((effect : Effect) → effect.Reply → Prop) → α → List Notification → Prop}
    {thread thread' : Thread α} (h : thread.Reports claim journal)
    (step : Step responses.journaled thread (state, journal) thread' (after, journal')) :
    thread'.Reports claim journal' := by
  intro Told told
  have before : ∀ effect reply, Entered journal effect reply → Told effect reply := by
    rintro effect reply ⟨earlier, later, hmem⟩
    refine told effect reply ⟨earlier, later, ?_⟩
    obtain ⟨-, rfl⟩ | ⟨_, _, -, rfl⟩ := step.journal_cases
    · exact hmem
    · exact List.mem_append_left _ hmem
  obtain ⟨hnone, hannounces⟩ | ⟨value, rfl, -⟩ := h Told before
  · obtain ⟨hsame, hnext⟩ | ⟨value, notification, rfl, hnotices, hclaim⟩ :=
      hannounces.step step told
    · exact .inl ⟨hsame.trans hnone, hnext⟩
    · rw [hnone, List.nil_append] at hnotices
      exact .inr ⟨value, rfl, hnotices ▸ hclaim⟩
  · -- a program that has returned makes no step
    cases step

theorem eq_done_of_result? {thread : Thread α} {value : α}
    (ended : thread.result? = some (.ok value)) : thread = .running (.done value) := by
  cases thread with
  | gathering => cases ended
  | running program =>
    cases program with
    | done => cases ended; rfl
    | _ => cases ended

/-- What a program that has returned has told. -/
theorem Reports.of_ok
    {claim : ((effect : Effect) → effect.Reply → Prop) → α → List Notification → Prop}
    {thread : Thread α} (h : thread.Reports claim journal) {value : α}
    (ended : thread.result? = some (.ok value)) :
    claim (Entered journal) value (notices journal) := by
  obtain rfl := eq_done_of_result? ended
  obtain ⟨hnone, hannounces⟩ | ⟨other, heq, hclaim⟩ := h (Entered journal) fun _ _ h => h
  · rw [hnone]
    cases hannounces with
    | silent h =>
      cases h with
      | running h => exact h
    | plain _ h =>
      cases h with
      | silent h => exact h
  · cases heq
    exact hclaim

theorem Reports.of_not_ok
    {claim : ((effect : Effect) → effect.Reply → Prop) → α → List Notification → Prop}
    {thread : Thread α} (h : thread.Reports claim journal)
    (unreturned : ∀ value, thread.result? ≠ some (.ok value)) : notices journal = [] := by
  obtain ⟨hnone, -⟩ | ⟨value, rfl, -⟩ := h (Entered journal) fun _ _ h => h
  · exact hnone
  · exact absurd rfl (unreturned value)

end Thread

/-- Every operation reports what it returns. -/
theorem Operation.reports (op : Operation) (settings : Settings) (horizon : Nat) :
    (Thread.running (op.program settings horizon)).Reports op.Tells ([] : List (Event σ)) := by
  refine fun Told _ => .inl ⟨rfl, ?_⟩
  cases op with
  | createComment => exact .plain (plain_createComment _ _ _ _) announces_createComment
  | vote => exact .plain (plain_vote _ _ _ _) announces_vote
  | createPost => exact .silent (.running (follows_mute_createPost.weaken fun _ _ _ => rfl))
  | _ => exact .silent (.running ((follows_mute rfl rfl settings horizon).weaken fun _ _ _ => rfl))

/-- An operation has told what it has returned, or nothing. -/
def Invocation.Mirrors (invocation : Invocation)
    (entry : ((α : Type) × Thread α) × List (Event σ)) : Prop :=
  ∃ thread : Thread invocation.operation.Result, entry.1 = ⟨_, thread⟩ ∧
    (∀ value, thread.result? = some (.ok value) →
      invocation.operation.Tells (Entered entry.2) value (notices entry.2)) ∧
    ((∀ value, thread.result? ≠ some (.ok value)) → notices entry.2 = [])

/-- Whatever the world answers, operations side by side tell what they return. -/
theorem Invocation.mirrors_of_recorded {responses : Responses σ} {invocations : List Invocation}
    {kept : Thread.Pool.Kept σ} {state after : σ}
    (recorded : Thread.Pool.Recorded responses (pool invocations) state kept after) :
    List.Forall₂ Mirrors invocations kept := by
  have reports : List.Forall₂ (fun (invocation : Invocation)
      (entry : ((α : Type) × Thread α) × List (Event σ)) =>
        ∃ thread : Thread invocation.operation.Result, entry.1 = ⟨_, thread⟩ ∧
          thread.Reports invocation.operation.Tells entry.2) invocations kept := by
    refine recorded.keeps ?_ ?_
    · refine List.forall₂_map_right_iff.2 (List.forall₂_same.2 fun invocation _ => ?_)
      exact ⟨_, rfl, invocation.operation.reports _ _⟩
    · rintro invocation α thread thread' state after journal journal' ⟨_, ⟨⟩, h⟩ step
      exact ⟨_, rfl, h.step step⟩
  refine reports.imp fun invocation entry => ?_
  rintro ⟨thread, heq, h⟩
  exact ⟨thread, heq, fun _ => h.of_ok, h.of_not_ok⟩

end HiveForum
