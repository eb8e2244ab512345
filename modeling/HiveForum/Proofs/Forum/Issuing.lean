import HiveForum.Proofs.Engagement.Version
import HiveForum.Proofs.Forum.Alone

/-!
# What operations issue to the store

An operation that does not delete reads first and acts then. Whatever it asks the store to change
is therefore known from the forum in which it runs alone: which post or comment it stores, which
record it writes and from which one it was made, which item it edits, and what the caller had to be
for that. Calls may be refused on the way, and an attempt that has lost a race is made again; none
of this changes what is issued.

## Main definitions

* `Operation.Issues`: what an operation that runs alone asks the store to change.
* `Forum.issuing`: the contract of such an operation.

## Main results

* `Operation.meets_issuing`: every operation that does not delete keeps to what it issues.
* `Operation.keeps_of_steps`: what is kept by whatever an operation issues is kept by its run.
-/

namespace HiveForum

open Program

/-- What an operation that runs alone asks the store to change, in the forum as it is by then. -/
inductive Operation.Issues (site : Site) (forum : Forum) : Operation → Request → Prop where
  | post {caller : Caller} {hive : ScopeId} {body : String} {tags : List TagId} {id : ContentId}
      {time : Int64} (bodyFits : checkBody body = .ok ())
      (tagsFit : checkTagCount tags.length Limit.itemTags = .ok ()) :
      Issues site forum (.createPost caller hive body tags)
        (.putContent (.newPost hive id caller.user body tags time))
  | comment {caller : Caller} {hive : ScopeId} {post id : ContentId} {body : String} {time : Int64}
      {stored : ContentItem} (bodyFits : checkBody body = .ok ())
      (found : forum.store.item? ⟨hive, post⟩ = some stored) (owned : stored.hive = hive)
      (kind : stored.kind = .post) :
      Issues site forum (.createComment caller hive post body)
        (.putContent (.newComment hive post id caller.user body time))
  | count {caller : Caller} {hive : ScopeId} {post : ContentId} {body : String} :
      Issues site forum (.createComment caller hive post body)
        (.adjustCounts ⟨hive, post⟩ (.ofComments 1))
  | touch {caller : Caller} {hive : ScopeId} {post : ContentId} {body : String} {time : Int64} :
      Issues site forum (.createComment caller hive post body)
        (.touchActivity ⟨hive, post⟩ time)
  | review {caller : Caller} {target : Target} {role : Role}
      (member : site.directory.checkMember caller target.hive = .ok role)
      (moderates : role.permits .moderator = true) :
      Issues site forum (.markReviewed caller target) (.markReviewed target.content)
  | pin {caller : Caller} {target : Target} {pinned : Bool} {role : Role}
      (member : site.directory.checkMember caller target.hive = .ok role)
      (moderates : role.permits .moderator = true) :
      Issues site forum (.setPinned caller target pinned) (.setPinned target.content pinned)
  | vote {caller : Caller} {target : Target} {request : VoteRequest} {time : Int64}
      {item : ContentItem} {record : EngagementRecord} {change : VoteChange}
      (found : forum.store.item? target.content = some item) (owned : item.hive = target.hive)
      (takes : (forum.recordOf caller.user target.content target.hive).vote request time =
        .apply (record, change)) :
      Issues site forum (.vote caller target request)
        (.commitVote record target.content change.counts)
  | save {caller : Caller} {target : Target} {saved : Bool} {item : ContentItem}
      {record : EngagementRecord} (found : forum.store.item? target.content = some item)
      (owned : item.hive = target.hive)
      (takes : (forum.recordOf caller.user target.content target.hive).setSaved saved =
        .apply record) :
      Issues site forum (.setSaved caller target saved) (.putEngagement record)
  | report {caller : Caller} {target : Target} {reason : Option String} {item : ContentItem}
      {record : EngagementRecord} {outcome : ReportOutcome}
      (reasonFits : checkReason reason = .ok ())
      (found : forum.store.item? target.content = some item) (owned : item.hive = target.hive)
      (takes : (forum.recordOf caller.user target.content target.hive).report (.report reason)
        item.reviewed = .ok (.apply (record, outcome))) :
      Issues site forum (.report caller target reason)
        (.commitReport record target.content outcome)
  | withdraw {caller : Caller} {target : Target} {item : ContentItem} {record : EngagementRecord}
      {outcome : ReportOutcome} (found : forum.store.item? target.content = some item)
      (owned : item.hive = target.hive)
      (takes : (forum.recordOf caller.user target.content target.hive).report .withdraw
        item.reviewed = .ok (.apply (record, outcome))) :
      Issues site forum (.withdrawReport caller target)
        (.commitReport record target.content outcome)

namespace Forum

/-- Nobody else changes anything, and the operation makes only the changes of what it issues. -/
def issuing (site : Site) (op : Operation) : Contract Forum where
  rely forum later := later = forum
  guarantee forum later := later = forum ∨ ∃ request store, op.Issues site forum request ∧
    forum.store.Change request store ∧ later = forum.after store request
  failing _ _ := True
  endless := True
  rely_refl _ := rfl
  rely_trans h h' := h'.trans h

/-- A program makes no changes but those of what an operation issues, and ends with a claim. -/
abbrev MeetsIssuing (site : Site) (conditions : Conditions) (op : Operation) {α : Type}
    (p : Program α) (claim : α → Forum → Prop) (forum : Forum) : Prop :=
  p.Meets (site.responses conditions) (issuing site op) none claim forum

variable {site : Site} {conditions : Conditions} {op : Operation} {start forum : Forum}
  {α β : Type} {claim : α → Forum → Prop} {claim' : β → Forum → Prop}

/-! ### Rules -/

theorem issuing_done {value : α} (h : claim value forum) :
    MeetsIssuing site conditions op (.done value) claim forum := by
  rintro later rfl -
  exact h

theorem issuing_fail {error : OperationError} :
    MeetsIssuing site conditions op (.fail error) claim forum := fun _ _ => trivial

theorem issuing_bind {p : Program α} {f : α → Program β}
    (h : MeetsIssuing site conditions op p claim forum)
    (hf : ∀ value later, claim value later →
      MeetsIssuing site conditions op (f value) claim' later) :
    MeetsIssuing site conditions op (p.bind f) claim' forum :=
  Program.Meets.andThen h fun value later _ hclaim => hf value later (hclaim later rfl)

theorem issuing_quiet {effect : Effect} {next : effect.Reply → Program α}
    (quiet : effect.isQuiet = true)
    (hnext : ∀ reply, site.Answer conditions effect forum reply forum →
      MeetsIssuing site conditions op (next reply) claim forum) :
    MeetsIssuing site conditions op (.perform effect next) claim forum := by
  rintro _ reply after rfl answer
  obtain rfl := Site.Answer.eq_of_isQuiet answer quiet
  exact ⟨.inl rfl, hnext reply answer⟩

theorem issuing_ofExcept {ε : Type} {describe : ε → OperationError} {result : Except ε β}
    {f : β → Program α} (hf : ∀ value, result = .ok value →
      MeetsIssuing site conditions op (f value) claim forum) :
    MeetsIssuing site conditions op ((ofExcept describe result).bind f) claim forum := by
  cases result with
  | ok value => exact hf value rfl
  | error error => exact issuing_fail

theorem issuing_changeOf {transition : Transition β} {f : β → Program α}
    (hf : ∀ change, transition = .apply change →
      MeetsIssuing site conditions op (f change) claim forum) :
    MeetsIssuing site conditions op ((changeOf transition).bind f) claim forum := by
  cases transition with
  | apply change => exact hf change rfl
  | noOp => exact issuing_fail

theorem issuing_authorize {caller : Caller} {hive : ScopeId} {f : Role → Program α}
    (hf : ∀ role, MeetsIssuing site conditions op (f role) claim forum) :
    MeetsIssuing site conditions op ((authorize caller hive).bind f) claim forum :=
  issuing_quiet rfl fun reply _ => by
    cases reply with
    | ok role => exact hf role
    | error error => exact issuing_fail

/-- The item that is loaded is the stored one. -/
theorem issuing_loadTarget {target : Target} {f : ContentItem → Program α}
    (hf : ∀ item, forum.store.item? target.content = some item → item.hive = target.hive →
      MeetsIssuing site conditions op (f item) claim forum) :
    MeetsIssuing site conditions op ((loadTarget target).bind f) claim forum := by
  refine issuing_quiet rfl fun reply answer => ?_
  cases reply with
  | error error => exact issuing_fail
  | ok item =>
    change MeetsIssuing site conditions op
      ((if item.hive = target.hive then .done item else .fail .notFound : Program _).bind f) _ _
    split
    · rename_i hhive
      exact hf item answer.getContent.1 hhive
    · exact issuing_fail

theorem issuing_guarantee {request : Request} {reply : Except StoreError request.Answer}
    {after : Forum} (issues : op.Issues site forum request)
    (answer : site.Answer conditions (.store request) forum reply after) :
    (issuing site op).guarantee forum after := by
  obtain rfl | ⟨_, store, heq, change, rfl⟩ := answer.change
  · exact .inl rfl
  · cases heq
    exact .inr ⟨request, store, issues, change, rfl⟩

theorem issuing_call {request : Request} {next : Except StoreError request.Answer → Program α}
    (honest : conditions.Honest) (issues : op.Issues site forum request)
    (answered : ∀ answer after,
      MeetsIssuing site conditions op (next (.ok answer)) claim after)
    (failed : ∀ error, MeetsIssuing site conditions op (next (.error error)) claim forum) :
    MeetsIssuing site conditions op (.perform (.store request) next) claim forum := by
  rintro later reply after heq answer
  obtain rfl : forum = later := Eq.symm heq
  refine ⟨issuing_guarantee issues answer, ?_⟩
  cases reply with
  | ok value => exact answered value after
  | error error =>
    obtain ⟨rfl, -⟩ := Site.Answer.of_error honest answer
    exact failed error

theorem issuing_last {request : Request} {next : Except StoreError request.Answer → Program α}
    (issues : op.Issues site forum request)
    (follows : ∀ reply after, MeetsIssuing site conditions op (next reply) claim after) :
    MeetsIssuing site conditions op (.perform (.store request) next) claim forum := by
  rintro later reply after heq answer
  obtain rfl : forum = later := Eq.symm heq
  exact ⟨issuing_guarantee issues answer, follows reply after⟩

section

variable (honest : conditions.Honest) {caller : Caller} {target : Target}

include honest

/-- Whoever acts in a role has it. -/
theorem issuing_authorizeAs {hive : ScopeId} {required : Role} {f : Role → Program α}
    (hf : ∀ role, site.directory.checkMember caller hive = .ok role →
      role.permits required = true → MeetsIssuing site conditions op (f role) claim forum) :
    MeetsIssuing site conditions op ((authorizeAs caller hive required).bind f) claim forum := by
  refine issuing_quiet rfl fun reply answer => ?_
  obtain ⟨hreply, -⟩ := Site.Answer.of_membership honest answer
  cases reply with
  | error error => exact issuing_fail
  | ok role =>
    change MeetsIssuing site conditions op
      ((ofExcept .ofAccess (required.require role)).bind f) _ _
    rw [Role.require]
    split
    · rename_i hpermits
      exact hf role hreply.symm hpermits
    · exact issuing_fail

/-- The record that is read is the one that the user has. -/
theorem issuing_currentRecord {f : EngagementRecord → Program α}
    (hf : MeetsIssuing site conditions op
      (f (forum.recordOf caller.user target.content target.hive)) claim forum) :
    MeetsIssuing site conditions op ((currentRecord caller target).bind f) claim forum := by
  refine issuing_quiet rfl fun reply answer => ?_
  cases reply with
  | ok record =>
    have hrecord := answer.getEngagement.1
    rw [recordOf, hrecord] at hf
    exact hf
  | error error =>
    change MeetsIssuing site conditions op
      ((if error.isNotFound then .done _ else .fail _ : Program EngagementRecord).bind f) _ _
    split
    · rename_i hnone
      obtain ⟨-, hfailed | ⟨hfound, -⟩⟩ := Site.Answer.of_error honest answer
      · cases hrecord : forum.store.record? ⟨caller.user, target.content.id⟩ with
        | none =>
          rw [recordOf, hrecord] at hf
          exact hf
        | some record => simp [StoreState.perform, hrecord] at hfailed
      · rw [hfound] at hnone
        cases hnone
    · exact issuing_fail

omit honest in
/-- Attempts are made again as long as they have changed nothing. -/
theorem issuing_retryConflicts {attempt : Program (Except StoreError β)}
    (h : MeetsIssuing site conditions op attempt
      (fun result later => ∀ error, result = .error error → later = start) start)
    (retries : Nat) :
    MeetsIssuing site conditions op (retryConflicts attempt retries) (fun _ _ => True) start := by
  induction retries with
  | zero =>
    refine issuing_bind h fun result later _ => ?_
    cases result with
    | ok value => exact issuing_done trivial
    | error error => exact issuing_fail
  | succ retries ih =>
    refine issuing_bind h fun result later hresult => ?_
    cases result with
    | ok value => exact issuing_done trivial
    | error error =>
      obtain rfl := hresult error rfl
      cases error with
      | versionConflict => exact ih
      | _ => exact issuing_fail

theorem issuing_attempt {request : Request} (issues : op.Issues site start request) :
    MeetsIssuing site conditions op (tryCall request)
      (fun result later => ∀ error, result = .error error → later = start) start :=
  issuing_call honest issues (fun _ _ => issuing_done fun _ h => by cases h)
    fun _ => issuing_done fun _ _ => rfl

/-! ### The operations -/

omit honest in
theorem issuing_createPost {hive : ScopeId} {body : String} {tags : List TagId} :
    MeetsIssuing site conditions (.createPost caller hive body tags)
      (createPost caller hive body tags) (fun _ _ => True) start := by
  refine issuing_authorize fun _ => issuing_ofExcept fun _ hbody => issuing_ofExcept fun _ htags =>
    issuing_quiet rfl fun time _ => issuing_quiet rfl fun id _ => ?_
  refine issuing_last (.post hbody htags) fun reply after => ?_
  cases reply with
  | ok _ => exact issuing_done trivial
  | error error => exact issuing_fail

omit honest in
theorem issuing_createComment (keyed : start.store.Keyed) {hive : ScopeId} {post : ContentId}
    {body : String} :
    MeetsIssuing site conditions (.createComment caller hive post body)
      (createComment caller hive post body) (fun _ _ => True) start := by
  refine issuing_authorize fun _ => issuing_ofExcept fun _ hbody => issuing_loadTarget
    fun stored hstored howned => ?_
  dsimp only
  split
  · exact issuing_fail
  rename_i hkind
  have hkey : stored.key = ⟨hive, post⟩ := keyed.items _ stored hstored
  refine issuing_quiet rfl fun time _ => issuing_quiet rfl fun id _ => ?_
  rw [hkey]
  refine issuing_last (.comment hbody hstored howned (of_not_not hkind)) fun reply stored => ?_
  cases reply with
  | error error => exact issuing_fail
  | ok _ =>
    exact issuing_last .count fun _ _ => issuing_last .touch fun _ _ =>
      issuing_quiet rfl fun _ _ => issuing_done trivial

theorem issuing_markReviewed :
    MeetsIssuing site conditions (.markReviewed caller target) (markReviewed caller target)
      (fun _ _ => True) start := by
  refine issuing_authorizeAs honest fun role member moderates => issuing_loadTarget fun _ _ _ => ?_
  refine issuing_last (.review member moderates) fun reply after => ?_
  cases reply with
  | ok _ => exact issuing_done trivial
  | error error => exact issuing_fail

theorem issuing_setPinned {pinned : Bool} :
    MeetsIssuing site conditions (.setPinned caller target pinned)
      (setPinned caller target pinned) (fun _ _ => True) start := by
  refine issuing_authorizeAs honest fun role member moderates => issuing_loadTarget fun _ _ _ => ?_
  dsimp only
  split
  · exact issuing_fail
  · refine issuing_last (.pin member moderates) fun reply after => ?_
    cases reply with
    | ok _ => exact issuing_done trivial
    | error error => exact issuing_fail

theorem issuing_vote {settings : Settings} {request : VoteRequest} :
    MeetsIssuing site conditions (.vote caller target request)
      (vote settings caller target request) (fun _ _ => True) start := by
  refine issuing_authorize fun _ => issuing_loadTarget fun item found owned =>
    issuing_quiet rfl fun time _ => ?_
  change MeetsIssuing site conditions _
    ((retryConflicts (attemptVote caller target request time) _).bind _) _ start
  refine issuing_bind (issuing_retryConflicts ?_ _) fun stored later _ => ?_
  · exact issuing_currentRecord honest (issuing_changeOf fun change takes =>
      issuing_attempt honest (.vote found owned takes))
  · dsimp only
    split
    · exact issuing_quiet rfl fun _ _ => issuing_done trivial
    · exact issuing_done trivial

theorem issuing_setSaved {settings : Settings} {saved : Bool} :
    MeetsIssuing site conditions (.setSaved caller target saved)
      (setSaved settings caller target saved) (fun _ _ => True) start := by
  refine issuing_authorize fun _ => issuing_loadTarget fun item found owned =>
    issuing_retryConflicts ?_ _
  exact issuing_currentRecord honest (issuing_changeOf fun changed takes =>
    issuing_attempt honest (.save found owned takes))

theorem issuing_applyReport {settings : Settings} {action : ReportAction}
    (issues : ∀ {item : ContentItem} {record : EngagementRecord} {outcome : ReportOutcome},
      start.store.item? target.content = some item → item.hive = target.hive →
        (start.recordOf caller.user target.content target.hive).report action item.reviewed =
          .ok (.apply (record, outcome)) →
          op.Issues site start (.commitReport record target.content outcome)) :
    MeetsIssuing site conditions op (applyReport settings caller target action)
      (fun _ _ => True) start := by
  refine issuing_authorize fun _ => issuing_bind (issuing_retryConflicts ?_ _)
    fun _ _ _ => issuing_done trivial
  refine issuing_loadTarget fun item found owned => issuing_currentRecord honest ?_
  refine issuing_ofExcept fun transition hreport => issuing_changeOf fun change htransition => ?_
  rw [htransition] at hreport
  exact issuing_attempt honest (issues found owned hreport)

omit honest in
/-- The rounds of a listing only read. -/
theorem issuing_collectFrom {settings : Settings} {scan : Scan} (rounds : Nat)
    {startAfter : Option IndexKey} {held : List ContentItem} :
    MeetsIssuing site conditions op (collectFrom settings scan rounds startAfter held)
      (fun _ later => later = start) start := by
  induction rounds generalizing startAfter held with
  | zero => trivial
  | succ rounds ih =>
    refine issuing_quiet rfl fun reply _ => issuing_ofExcept fun page _ => ?_
    dsimp only
    split
    · exact issuing_done rfl
    · split
      · exact ih
      · exact issuing_done rfl

omit honest in
theorem issuing_listContent {settings : Settings} {rounds : Nat} {hive : ScopeId}
    {request : ListRequest} :
    MeetsIssuing site conditions op (listContent settings rounds caller hive request)
      (fun _ _ => True) start := by
  have hlist : MeetsIssuing site conditions op (listItems settings rounds request)
      (fun _ _ => True) start :=
    issuing_ofExcept fun _ _ => issuing_ofExcept fun _ _ =>
      issuing_bind (issuing_collectFrom rounds) fun _ _ _ => issuing_done trivial
  refine issuing_authorize fun _ => ?_
  split
  · refine issuing_quiet rfl fun reply _ => ?_
    cases reply with
    | error error => exact issuing_fail
    | ok post =>
      dsimp only [Program.ofExcept, done_bind]
      split
      · exact issuing_fail
      · exact hlist
  · exact hlist

end

end Forum

namespace Operation

open Forum

variable {site : Site} {conditions : Conditions} {start after : Forum}

/-- Every operation that does not delete keeps to what it issues. -/
theorem meets_issuing (honest : conditions.Honest) (keyed : start.store.Keyed) {op : Operation}
    (h : op.isDeletion = false) (settings : Settings) (horizon : Nat) :
    MeetsIssuing site conditions op (op.program settings horizon) (fun _ _ => True) start := by
  have single : ∀ {β : Type} {request : Request} {next : Except StoreError request.Answer →
      Program β}, request.isRead = true → (∀ reply, MeetsIssuing site conditions op (next reply)
        (fun _ _ => True) start) →
      MeetsIssuing site conditions op (.perform (.store request) next) (fun _ _ => True) start :=
    fun hread hnext => issuing_quiet hread fun reply _ => hnext reply
  cases op with
  | createPost => exact issuing_createPost
  | createComment => exact issuing_createComment keyed
  | getContent =>
    refine issuing_authorize fun _ => ?_
    rw [← bind_done (loadTarget _)]
    exact issuing_loadTarget fun _ _ _ => issuing_done trivial
  | markReviewed => exact issuing_markReviewed honest
  | setPinned => exact issuing_setPinned honest
  | deleteContent => cases h
  | vote => exact issuing_vote honest
  | setSaved => exact issuing_setSaved honest
  | report =>
    exact issuing_ofExcept fun _ hreason => issuing_applyReport honest (.report hreason)
  | withdrawReport => exact issuing_applyReport honest .withdraw
  | getEngagement =>
    refine issuing_authorize fun _ => single rfl fun reply => ?_
    cases reply with
    | error error => exact issuing_fail
    | ok record =>
      dsimp only [Program.ofExcept, done_bind]
      split
      · exact issuing_done trivial
      · exact issuing_fail
  | lookupEngagement =>
    refine issuing_authorize fun _ => issuing_ofExcept fun _ _ => single rfl fun reply => ?_
    cases reply with
    | error error => exact issuing_fail
    | ok records => exact issuing_done trivial
  | listContent => exact issuing_listContent
  | ping =>
    refine single rfl fun reply => ?_
    cases reply with
    | error error => exact issuing_fail
    | ok _ => exact issuing_done trivial

/-- What is kept by whatever an operation issues is kept by its run, however far it gets. -/
theorem keeps_of_steps (honest : conditions.Honest) {invocation : Invocation}
    {thread : Thread invocation.operation.Result} (keyed : start.store.Keyed)
    (h : invocation.operation.isDeletion = false)
    (steps : Thread.Steps (site.responses conditions) invocation.thread.2 start thread after)
    (Holds : Forum → Prop)
    (keeps : ∀ {forum : Forum} {request : Request} {store : StoreState}, Holds forum →
      invocation.operation.Issues site forum request → forum.store.Change request store →
        Holds (forum.after store request))
    (holds : Holds start) : Holds after := by
  have meets := @meets_issuing site conditions start honest keyed invocation.operation h
    invocation.settings invocation.horizon
  refine (steps.meets (.running meets)).2 Holds (fun guarantee hbefore => ?_) holds
  obtain rfl | ⟨request, store, issues, change, rfl⟩ := guarantee
  · exact hbefore
  · exact keeps hbefore issues change

end Operation

end HiveForum
