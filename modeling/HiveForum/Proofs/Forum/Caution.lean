import HiveForum.Operation
import HiveForum.Program.Interleaving
import HiveForum.Proofs.Store.Change

/-!
# Programs that fail before they act

A program is cautious if it fails only as long as it has done nothing: what it asks of the world
before is silent, and a call to the store that is answered with an error leaves it where it was.
From the first call on that the store carries out the program cannot fail. All operations but
deletions are cautious; the calls that a comment makes after it has been stored may be refused, but
the operation does not fail for it.

## Main definitions

* `Effect.isSilent`: an effect reads or draws, and tells nobody anything.
* `Program.Gives`: a program that does not fail.
* `Program.Cautious`: a program that fails only before it acts.
* `Program.Reads`, `Program.Acts`: one that never acts, and one that acts unless it fails.
* `Operation.isReading`, `Operation.isDeletion`: whether an operation only reads, or deletes.

## Main results

* `Program.Cautious.bind`: a cautious program after another one.
* `Program.Cautious.unchanged_of_steps`, `Program.Cautious.unchanged_of_run`: a cautious program
  that fails has changed nothing.
* `Operation.reads`, `Operation.acts`, `Operation.cautious`: what operations are.
-/

namespace HiveForum

/-- Whether an effect reads or draws only, and tells nobody anything. -/
def Effect.isSilent : Effect → Bool
  | .store request => request.isRead
  | .notify _ => false
  | _ => true

namespace Program

variable {σ τ α β : Type}

/-- The program gives a value for which the claim holds, whatever it is told. -/
inductive Gives (claim : α → Prop) : Program α → Prop where
  | done {value : α} (h : claim value) : Gives claim (.done value)
  | perform {effect : Effect} {next : effect.Reply → Program α}
      (follows : ∀ reply, Gives claim (next reply)) : Gives claim (.perform effect next)

/-- The program fails only before it acts. A value that it gives without having acted satisfies
`idle`, and one that it gives after it has acted satisfies `acted`. -/
inductive Cautious (idle acted : α → Prop) : Program α → Prop where
  | done {value : α} (h : idle value) : Cautious idle acted (.done value)
  | fail (error : OperationError) : Cautious idle acted (.fail error)
  | unfinished : Cautious idle acted .unfinished
  | silent {effect : Effect} {next : effect.Reply → Program α} (h : effect.isSilent = true)
      (follows : ∀ reply, Cautious idle acted (next reply)) :
      Cautious idle acted (.perform effect next)
  | call {request : Request} {next : Except StoreError request.Answer → Program α}
      (refused : ∀ error, Cautious idle acted (next (.error error)))
      (answered : ∀ answer, Gives acted (next (.ok answer))) :
      Cautious idle acted (.perform (.store request) next)

/-- The program does not act. -/
abbrev Reads (p : Program α) : Prop := p.Cautious (fun _ => True) (fun _ => False)

/-- The program acts unless it fails. -/
abbrev Acts (p : Program α) : Prop := p.Cautious (fun _ => False) (fun _ => True)

/-- The program gives an error as its value unless it acts. -/
abbrev Attempts (p : Program (Except StoreError α)) : Prop :=
  p.Cautious (fun result => ∃ error, result = .error error)
    fun result => ∃ answer, result = .ok answer

variable {idle acted : α → Prop} {idle' acted' : β → Prop}

theorem Gives.bind {p : Program α} {f : α → Program β} (h : p.Gives acted)
    (hf : ∀ value, acted value → (f value).Gives acted') : (p.bind f).Gives acted' := by
  induction h with
  | done h => exact hf _ h
  | perform _ ih => exact .perform ih

/-- One program after another: what follows may fail only if the first one has not acted. -/
theorem Cautious.bind {p : Program α} {f : α → Program β} (h : p.Cautious idle acted)
    (hidle : ∀ value, idle value → (f value).Cautious idle' acted')
    (hacted : ∀ value, acted value → (f value).Gives acted') :
    (p.bind f).Cautious idle' acted' := by
  induction h with
  | done h => exact hidle _ h
  | fail error => exact .fail error
  | unfinished => exact .unfinished
  | silent h _ ih => exact .silent h ih
  | call _ answered ih => exact .call ih fun answer => (answered answer).bind hacted

/-- Whatever is cautious may follow a program that does not act. -/
theorem Reads.bind {p : Program α} {f : α → Program β} (h : p.Reads)
    (hf : ∀ value, (f value).Cautious idle' acted') : (p.bind f).Cautious idle' acted' :=
  Cautious.bind h (fun value _ => hf value) fun _ hnever => hnever.elim

/-- Whatever does not fail may follow a program that acts. -/
theorem Acts.bind {p : Program α} {f : α → Program β} (h : p.Acts)
    (hf : ∀ value, (f value).Gives acted') : (p.bind f).Cautious idle' acted' :=
  Cautious.bind h (fun _ hnever => hnever.elim) fun value _ => hf value

/-! ### Runs -/

/-- A thread that runs a cautious program alone has changed nothing, or it cannot fail any more. -/
theorem Cautious.steps {responses : Responses σ} {seen : σ → τ}
    (silent : ∀ {effect : Effect} {state after : σ} {reply : effect.Reply},
      effect.isSilent = true → responses.Answers effect state reply after → seen after = seen state)
    (refused : ∀ {request : Request} {state after : σ} {error : StoreError},
      responses.Answers (.store request) state (.error error) after → seen after = seen state)
    {p : Program α} {thread : Thread α} {state after : σ} (h : p.Cautious idle acted)
    (steps : Thread.Steps responses (.running p) state thread after) :
    ∃ rest, thread = .running rest ∧
      (rest.Cautious idle acted ∧ seen after = seen state ∨ rest.Gives acted) := by
  induction steps with
  | none => exact ⟨p, rfl, .inl ⟨h, rfl⟩⟩
  | more _ step ih =>
    obtain ⟨rest, rfl, ⟨hrest, hseen⟩ | hrest⟩ := ih
    · cases hrest with
      | done => cases step
      | fail => cases step
      | unfinished => cases step
      | silent hsilent follows =>
        cases step with
        | perform answer => exact ⟨_, rfl, .inl ⟨follows _, (silent hsilent answer).trans hseen⟩⟩
      | call herror hanswered =>
        cases step with
        | perform answer =>
          rename_i reply
          cases reply with
          | ok value => exact ⟨_, rfl, .inr (hanswered value)⟩
          | error error => exact ⟨_, rfl, .inl ⟨herror error, (refused answer).trans hseen⟩⟩
    · cases hrest with
      | done => cases step
      | perform follows =>
        cases step with
        | perform => exact ⟨_, rfl, .inr (follows _)⟩

/-- A program that does not act has changed nothing, wherever it is. -/
theorem Reads.unchanged_of_steps {responses : Responses σ} {seen : σ → τ}
    (silent : ∀ {effect : Effect} {state after : σ} {reply : effect.Reply},
      effect.isSilent = true → responses.Answers effect state reply after → seen after = seen state)
    (refused : ∀ {request : Request} {state after : σ} {error : StoreError},
      responses.Answers (.store request) state (.error error) after → seen after = seen state)
    {p : Program α} {value : α} {state after : σ} (h : p.Reads)
    (steps : Thread.Steps responses (.running p) state (.running (.done value)) after) :
    seen after = seen state := by
  obtain ⟨rest, heq, ⟨-, hseen⟩ | hgives⟩ := Cautious.steps silent refused h steps
  · exact hseen
  · cases heq
    obtain ⟨⟨⟩⟩ := hgives

/-- A cautious program that fails when it runs alone has changed nothing. -/
theorem Cautious.unchanged_of_steps {responses : Responses σ} {seen : σ → τ}
    (silent : ∀ {effect : Effect} {state after : σ} {reply : effect.Reply},
      effect.isSilent = true → responses.Answers effect state reply after → seen after = seen state)
    (refused : ∀ {request : Request} {state after : σ} {error : StoreError},
      responses.Answers (.store request) state (.error error) after → seen after = seen state)
    {p : Program α} {state after : σ} {error : OperationError} (h : p.Cautious idle acted)
    (steps : Thread.Steps responses (.running p) state (.running (.fail error)) after) :
    seen after = seen state := by
  obtain ⟨rest, heq, ⟨-, hseen⟩ | hgives⟩ := h.steps silent refused steps
  · exact hseen
  · cases heq
    cases hgives

theorem Gives.runWith {p : Program α} (h : p.Gives acted) (world : World σ) (state : σ)
    (units : List (Spawned σ)) : ∃ value, (p.runWith world state units).1 = .ok value := by
  induction h generalizing state with
  | done => exact ⟨_, rfl⟩
  | perform _ ih => exact ih _ _

/-- A cautious program that gives no value has changed nothing. -/
theorem Cautious.unchanged_of_run {world : World σ} {seen : σ → τ}
    (silent : ∀ {effect : Effect} {state : σ}, effect.isSilent = true →
      seen (world.perform effect state).2 = seen state)
    (refused : ∀ {request : Request} {state : σ} {error : StoreError},
      (world.perform (.store request) state).1 = .error error →
        seen (world.perform (.store request) state).2 = seen state)
    {p : Program α} (h : p.Cautious idle acted) {state : σ} {stop : Stop}
    (hstop : (p.run world state).1 = .error stop) :
    seen (p.run world state).2 = seen state := by
  have hrun : ∀ units, (p.runWith world state units).1 = .error stop →
      seen (p.runWith world state units).2.1 = seen state := by
    clear hstop
    induction h generalizing state with
    | done => exact fun _ heq => by cases heq
    | fail => exact fun _ _ => rfl
    | unfinished => exact fun _ _ => rfl
    | silent hsilent _ ih => exact fun units heq => (ih _ units heq).trans (silent hsilent)
    | @call request next _ answered ih =>
      intro units heq
      obtain ⟨reply, middle, hperform⟩ :
          ∃ reply middle, world.perform (.store request) state = (reply, middle) := ⟨_, _, rfl⟩
      simp only [runWith, hperform] at heq ⊢
      cases reply with
      | error error =>
        have hrefused := @refused request state error
        rw [hperform] at hrefused
        exact (ih error units heq).trans (hrefused rfl)
      | ok answer =>
        obtain ⟨value, hvalue⟩ := (answered answer).runWith world middle units
        cases hvalue.symm.trans heq
  exact hrun [] hstop

/-! ### Programs that do not act -/

theorem reads_ofExcept {ε : Type} (describe : ε → OperationError) (result : Except ε α) :
    (ofExcept describe result).Reads := by
  cases result with
  | ok value => exact .done trivial
  | error error => exact .fail _

theorem reads_authorize (caller : Caller) (hive : ScopeId) : (authorize caller hive).Reads :=
  .silent rfl fun _ => reads_ofExcept _ _

theorem reads_authorizeAs (caller : Caller) (hive : ScopeId) (required : Role) :
    (authorizeAs caller hive required).Reads :=
  .silent rfl fun _ => reads_ofExcept _ _

theorem reads_call {request : Request} (h : request.isRead = true) : (call request).Reads :=
  .silent h fun _ => reads_ofExcept _ _

theorem reads_loadTarget (target : Target) : (loadTarget target).Reads := by
  refine (reads_call rfl).bind fun item => ?_
  split
  · exact .done trivial
  · exact .fail _

theorem reads_currentRecord (caller : Caller) (target : Target) :
    (currentRecord caller target).Reads := by
  refine .silent rfl fun reply => ?_
  cases reply with
  | ok record => exact .done trivial
  | error error =>
    change (if error.isNotFound then _ else _ : Program EngagementRecord).Reads
    split
    · exact .done trivial
    · exact .fail _

theorem reads_changeOf (transition : Transition α) : (changeOf transition).Reads := by
  cases transition with
  | apply change => exact .done trivial
  | noOp => exact .fail _

theorem reads_getEngagement (caller : Caller) (target : Target) :
    (getEngagement caller target).Reads := by
  refine (reads_authorize caller _).bind fun _ => (reads_call rfl).bind fun record => ?_
  split
  · exact .done trivial
  · exact .fail _

/-- The rounds of a listing only read. -/
theorem reads_collectFrom (settings : Settings) (scan : Scan) (rounds : Nat)
    (startAfter : Option IndexKey) (held : List ContentItem) :
    (collectFrom settings scan rounds startAfter held).Reads := by
  induction rounds generalizing startAfter held with
  | zero => exact .unfinished
  | succ rounds ih =>
    refine (reads_call rfl).bind fun page => ?_
    dsimp only
    split
    · exact .done trivial
    · split
      · exact ih _ _
      · exact .done trivial

theorem reads_listContent (settings : Settings) (rounds : Nat) (caller : Caller) (hive : ScopeId)
    (request : ListRequest) : (listContent settings rounds caller hive request).Reads := by
  have hlist : (listItems settings rounds request).Reads :=
    (reads_ofExcept _ _).bind fun _ => (reads_ofExcept _ _).bind fun _ =>
      (reads_collectFrom _ _ _ _ _).bind fun _ => .done trivial
  refine (reads_authorize caller hive).bind fun _ => ?_
  split
  · refine (reads_call rfl).bind fun post => ?_
    dsimp only
    split
    · exact .fail _
    · exact hlist
  · exact hlist

/-! ### Programs that act once -/

theorem acts_call (request : Request) : (call request).Acts :=
  .call (fun _ => .fail _) fun _ => .done trivial

theorem attempts_tryCall (request : Request) : (tryCall request).Attempts :=
  .call (fun error => .done ⟨error, rfl⟩) fun answer => .done ⟨answer, rfl⟩

/-- An attempt that has lost a race has not acted; it is made again. -/
theorem acts_retryConflicts {attempt : Program (Except StoreError α)} (h : attempt.Attempts)
    (retries : Nat) : (retryConflicts attempt retries).Acts := by
  induction retries with
  | zero =>
    refine h.bind ?_ ?_
    · rintro _ ⟨error, rfl⟩
      exact .fail _
    · rintro _ ⟨answer, rfl⟩
      exact .done trivial
  | succ retries ih =>
    refine h.bind ?_ ?_
    · rintro _ ⟨error, rfl⟩
      cases error with
      | versionConflict => exact ih
      | _ => exact .fail _
    · rintro _ ⟨answer, rfl⟩
      exact .done trivial

theorem attempts_attemptVote (caller : Caller) (target : Target) (request : VoteRequest)
    (time : Int64) : (attemptVote caller target request time).Attempts :=
  (reads_currentRecord caller target).bind fun _ => (reads_changeOf _).bind fun _ =>
    attempts_tryCall (.commitVote _ _ _)

theorem attempts_attemptSave (caller : Caller) (target : Target) (saved : Bool) :
    (attemptSave caller target saved).Attempts :=
  (reads_currentRecord caller target).bind fun _ => (reads_changeOf _).bind fun _ =>
    attempts_tryCall (.putEngagement _)

theorem attempts_attemptReport (caller : Caller) (target : Target) (action : ReportAction) :
    (attemptReport caller target action).Attempts :=
  (reads_loadTarget target).bind fun _ => (reads_currentRecord caller target).bind
    fun _ => (reads_ofExcept _ _).bind fun _ => (reads_changeOf _).bind fun _ =>
      attempts_tryCall (.commitReport _ _ _)

theorem acts_vote (settings : Settings) (caller : Caller) (target : Target)
    (request : VoteRequest) : (vote settings caller target request).Acts := by
  refine (reads_authorize caller _).bind fun _ => (reads_loadTarget target).bind
    fun item => .silent rfl fun time => ?_
  refine (acts_retryConflicts (attempts_attemptVote _ _ _ _) _).bind fun stored => ?_
  dsimp only
  split
  · exact .perform fun _ => .done trivial
  · exact .done trivial

theorem acts_setSaved (settings : Settings) (caller : Caller) (target : Target) (saved : Bool) :
    (setSaved settings caller target saved).Acts :=
  (reads_authorize caller _).bind fun _ => (reads_loadTarget target).bind fun _ =>
    acts_retryConflicts (attempts_attemptSave _ _ _) _

theorem acts_applyReport (settings : Settings) (caller : Caller) (target : Target)
    (action : ReportAction) : (applyReport settings caller target action).Acts :=
  (reads_authorize caller _).bind fun _ =>
    (acts_retryConflicts (attempts_attemptReport _ _ _) _).bind fun _ => .done trivial

theorem acts_createPost (caller : Caller) (hive : ScopeId) (body : String) (tags : List TagId) :
    (createPost caller hive body tags).Acts :=
  (reads_authorize caller hive).bind fun _ => (reads_ofExcept _ _).bind fun _ =>
    (reads_ofExcept _ _).bind fun _ => .silent rfl fun _ => .silent rfl fun _ =>
      (acts_call _).bind fun _ => .done trivial

/-- The comment is stored by the first call that acts; what is refused after it does not let the
operation fail. -/
theorem acts_createComment (caller : Caller) (hive : ScopeId) (post : ContentId)
    (body : String) : (createComment caller hive post body).Acts := by
  refine (reads_authorize caller hive).bind fun _ => (reads_ofExcept _ _).bind fun _ =>
    (reads_loadTarget _).bind fun item => ?_
  dsimp only
  split
  · exact .fail _
  · exact .silent rfl fun _ => .silent rfl fun _ => (acts_call _).bind fun _ =>
      .perform fun _ => .perform fun _ => .perform fun _ => .done trivial

theorem acts_setPinned (caller : Caller) (target : Target) (pinned : Bool) :
    (setPinned caller target pinned).Acts := by
  refine (reads_authorizeAs caller _ _).bind fun _ => (reads_loadTarget target).bind
    fun item => ?_
  dsimp only
  split
  · exact .fail _
  · exact acts_call (.setPinned _ _)

end Program

namespace Operation

open Program

/-- Whether an operation deletes. -/
def isDeletion : Operation → Bool
  | .deleteContent .. => true
  | _ => false

/-- Whether an operation only reads. -/
def isReading : Operation → Bool
  | .getContent .. | .getEngagement .. | .lookupEngagement .. | .listContent .. | .ping => true
  | _ => false

/-- An operation that only reads does not act. -/
theorem reads {op : Operation} (h : op.isReading = true) (settings : Settings) (horizon : Nat) :
    (op.program settings horizon).Reads := by
  cases op with
  | getContent => exact (reads_authorize _ _).bind fun _ => reads_loadTarget _
  | getEngagement => exact reads_getEngagement _ _
  | lookupEngagement =>
    exact (reads_authorize _ _).bind fun _ => (reads_ofExcept _ _).bind fun _ =>
      (@reads_call (.lookupEngagement _ _) rfl).bind fun _ => .done trivial
  | listContent => exact reads_listContent _ _ _ _ _
  | ping => exact @reads_call .ping rfl
  | _ => cases h

/-- An operation that neither reads only nor deletes acts unless it fails. -/
theorem acts {op : Operation} (hreading : op.isReading = false) (hdeletion : op.isDeletion = false)
    (settings : Settings) (horizon : Nat) : (op.program settings horizon).Acts := by
  cases op with
  | createPost => exact acts_createPost _ _ _ _
  | createComment => exact acts_createComment _ _ _ _
  | markReviewed =>
    exact (reads_authorizeAs _ _ _).bind fun _ => (reads_loadTarget _).bind fun _ =>
      acts_call (.markReviewed _)
  | setPinned => exact acts_setPinned _ _ _
  | vote => exact acts_vote _ _ _ _
  | setSaved => exact acts_setSaved _ _ _ _
  | report => exact (reads_ofExcept _ _).bind fun _ => acts_applyReport _ _ _ _
  | withdrawReport => exact acts_applyReport _ _ _ _
  | deleteContent => cases hdeletion
  | _ => cases hreading

/-- An operation that does not delete is cautious. -/
theorem cautious {op : Operation} (h : op.isDeletion = false) (settings : Settings)
    (horizon : Nat) : ∃ idle acted, (op.program settings horizon).Cautious idle acted := by
  cases hreading : op.isReading with
  | true => exact ⟨_, _, op.reads hreading settings horizon⟩
  | false => exact ⟨_, _, op.acts hreading h settings horizon⟩

end Operation

end HiveForum
