import HiveForum.Proofs.Engagement.Journal
import HiveForum.Proofs.Forum.Run
import Mathlib.Data.List.Induction

/-!
# Votes, marks and reports are atomic

Any number of users vote for items, save and report them side by side. Whatever comes between the
reading of a record and the writing, an operation that succeeds has taken its action on the record
that was stored right before its only write, and one that fails has changed nothing.

## Main definitions

* `Engagement.Takes`, `Engagement.Keeps`: what an action does to a record, and what it leaves.
* `Engagement.Atomic`: the journal and the result of an operation that acts at one moment, or not.

## Main results

* `Engagement.meets_program`: every such operation meets its contract.
* `Engagement.atomic_of_run`: in every run each operation is atomic.
-/

namespace HiveForum

open Program

namespace Engagement

/-- The action takes a record to a changed one; the time of a vote was taken by the operation. -/
def Takes (e : Engagement) (journal : Journal) (base changed : EngagementRecord) : Prop :=
  match e.action with
  | .vote request =>
    ∃ time ∈ journal.filterMap Event.stamp?, ∃ change,
      base.vote request time = .apply (changed, change)
  | .save saved => base.setSaved saved = .apply changed
  | .report reason => ∃ outcome,
      base.report (.report reason) false = .ok (.apply (changed, outcome))
  | .withdraw => ∃ outcome, base.report .withdraw false = .ok (.apply (changed, outcome))

/-- What other actions have set is kept. -/
def Keeps (e : Engagement) (base changed : EngagementRecord) : Prop :=
  match e.action with
  | .vote _ =>
    changed.saved = base.saved ∧ changed.reported = base.reported ∧ changed.reason = base.reason
  | .save _ =>
    changed.upVoted = base.upVoted ∧ changed.downVoted = base.downVoted ∧
      changed.votedAt = base.votedAt ∧ changed.reported = base.reported ∧
      changed.reason = base.reason
  | _ =>
    changed.upVoted = base.upVoted ∧ changed.downVoted = base.downVoted ∧
      changed.votedAt = base.votedAt ∧ changed.saved = base.saved

/-- The journal has a single write, which stores what the action makes of the stored record and the
operation returns. -/
def Succeeds (e : Engagement) (record : EngagementRecord) (journal : Journal) : Prop :=
  journal.filterMap Event.stored? = [record] ∧
    ∃ front later read write base changed, journal = front ++ read :: write :: later ∧
      e.Wrote (e.Takes journal) front later read write base changed ∧ e.Keeps base changed ∧
      record = { changed with version := base.version + 1 }

/-- The operation acts at one moment, or not at all. -/
structure Atomic (e : Engagement) (journal : Journal)
    (result? : Option (Except OperationError EngagementRecord)) : Prop where
  attempts : journal.attempts ≤ e.settings.conflictRetries + 1
  admits : ∀ earlier event later, journal = earlier ++ event :: later → e.Admits earlier event
  succeeds : ∀ record, result? = some (.ok record) → e.Succeeds record journal
  fails : ∀ error, result? = some (.error error) → e.Failing error journal

variable {e : Engagement} {site : Site} {conditions : Conditions} {start journal : Journal}
  {forum : Forum} {n : Nat}

/-! ### The actions -/

theorem keeps_of_takes {base changed : EngagementRecord} (h : e.Takes journal base changed) :
    e.Keeps base changed := by
  rw [Takes] at h
  rw [Keeps]
  cases haction : e.action with
  | vote request =>
    rw [haction] at h
    obtain ⟨time, -, change, h⟩ := h
    rw [EngagementRecord.vote] at h
    split at h
    · cases h
      obtain ⟨side, add⟩ := request
      cases side <;> cases add <;> exact ⟨rfl, rfl, rfl⟩
    · cases h
  | save saved =>
    rw [haction] at h
    dsimp only at h
    rw [EngagementRecord.setSaved] at h
    split at h
    · cases h
    · cases h
      exact ⟨rfl, rfl, rfl, rfl, rfl⟩
  | _ =>
    rw [haction] at h
    obtain ⟨outcome, h⟩ := h
    rw [EngagementRecord.report] at h
    split at h
    · cases h
    · cases h
    · cases h
      cases outcome <;> exact ⟨rfl, rfl, rfl, rfl⟩

theorem meets_changeOf {α β : Type} {transition : Transition α} {f : α → Program β}
    {claim : β → Forum × Journal → Prop} (le : n ≤ e.settings.conflictRetries)
    (h : At start n (forum, journal))
    (hf : ∀ change, transition = .apply change →
      e.Meets site conditions (f change) claim (forum, journal)) :
    e.Meets site conditions ((changeOf transition).bind f) claim (forum, journal) := by
  cases transition with
  | apply change => exact hf change rfl
  | noOp => exact meets_fail_of_at le h

theorem meets_attemptVote {request : VoteRequest} {time : Int64} (truthful : ¬conditions.loses)
    (le : n ≤ e.settings.conflictRetries) (h : At start n (forum, journal)) :
    e.Meets site conditions (attemptVote e.caller e.target request time)
      (e.Attempted (fun base changed => ∃ change, base.vote request time = .apply (changed, change))
        start n Prod.fst) (forum, journal) := by
  rw [attemptVote]
  refine meets_bind (meets_currentRecord le h) fun base forum' journal' hread => ?_
  refine meets_changeOf le hread.toAt fun change htransition => ?_
  obtain ⟨changed, change⟩ := change
  have hrest : changed.key = base.key ∧ changed.version = base.version := by
    rw [EngagementRecord.vote] at htransition
    split at htransition
    · cases htransition
      exact ⟨(base.withVote_rest request time).1, (base.withVote_rest request time).2.1⟩
    · cases htransition
  exact meets_write le truthful hread rfl (fun _ => rfl) ⟨change, htransition⟩ hrest.1 hrest.2

theorem meets_attemptSave {saved : Bool} (truthful : ¬conditions.loses)
    (le : n ≤ e.settings.conflictRetries) (h : At start n (forum, journal)) :
    e.Meets site conditions (attemptSave e.caller e.target saved)
      (e.Attempted (fun base changed => base.setSaved saved = .apply changed) start n id)
      (forum, journal) := by
  rw [attemptSave]
  refine meets_bind (meets_currentRecord le h) fun base forum' journal' hread => ?_
  refine meets_changeOf le hread.toAt fun changed htransition => ?_
  have hrest : changed.key = base.key ∧ changed.version = base.version := by
    rw [EngagementRecord.setSaved] at htransition
    split at htransition
    · cases htransition
    · cases htransition
      exact ⟨rfl, rfl⟩
  exact meets_write le truthful hread rfl (fun _ => rfl) htransition hrest.1 hrest.2

theorem report_unreviewed {base : EngagementRecord} {action : ReportAction} {reviewed : Bool}
    {change : EngagementRecord × ReportOutcome}
    (h : base.report action reviewed = .ok (.apply change)) :
    base.report action false = .ok (.apply change) := by
  cases reviewed with
  | false => exact h
  | true =>
    cases action with
    | report reason => cases h
    | withdraw => exact h

theorem meets_attemptReport {action : ReportAction} (truthful : ¬conditions.loses)
    (le : n ≤ e.settings.conflictRetries) (h : At start n (forum, journal)) :
    e.Meets site conditions (attemptReport e.caller e.target action)
      (e.Attempted (fun base changed => ∃ outcome,
        base.report action false = .ok (.apply (changed, outcome))) start n Prod.fst)
      (forum, journal) := by
  rw [attemptReport]
  refine meets_bind (meets_loadTarget le h) fun item forum' journal' hitem => ?_
  refine meets_bind (meets_currentRecord le hitem) fun base forum' journal' hread => ?_
  cases hreport : base.report action item.reviewed with
  | error rejected => exact meets_fail_of_at le hread.toAt
  | ok transition =>
    refine meets_changeOf le hread.toAt fun change htransition => ?_
    obtain ⟨changed, outcome⟩ := change
    rw [htransition] at hreport
    have hrest : changed.key = base.key ∧ changed.version = base.version := by
      rw [EngagementRecord.report] at hreport
      split at hreport <;> cases hreport
      cases outcome <;> exact ⟨rfl, rfl⟩
    exact meets_write le truthful hread rfl (fun _ => rfl) ⟨outcome, report_unreviewed hreport⟩
      hrest.1 hrest.2

/-! ### The operations -/

/-- A journal that has been won is one of success, if the action is taken to be what it is. -/
theorem succeeds_of_won {takes : EngagementRecord → EngagementRecord → Prop}
    {record : EngagementRecord} (h : e.Won takes start record journal)
    (imp : ∀ base changed, takes base changed → e.Takes journal base changed) :
    e.Succeeds record journal := by
  obtain ⟨-, front, later, read, write, base, changed, rfl, hwrote, rfl⟩ := h
  have hnone : ∀ {journal : Journal}, journal.Unchanged → journal.filterMap Event.stored? = [] :=
    fun h => List.filterMap_eq_nil_iff.2 fun event hevent => (h event hevent).2
  have htakes := imp base changed hwrote.takes
  refine ⟨?_, front, later, read, write, base, changed, rfl, { hwrote with takes := htakes },
    keeps_of_takes htakes, ?_⟩
  · have hearlier := hnone hwrote.earlier
    rw [List.filterMap_append] at hearlier
    obtain ⟨hfront, hread⟩ := List.append_eq_nil_iff.1 hearlier
    have hreadNone : read.stored? = none := (hwrote.earlier read (by simp)).2
    simp [hfront, hreadNone, hwrote.stored, hnone hwrote.rest.1]
  · rw [← hwrote.version]
    rfl

theorem at_nil (versioned : forum.store.Versioned) : At [] 0 (forum, []) :=
  ⟨versioned, List.nil_prefix, rfl, fun _ h => (by cases h)⟩

theorem At.restart (h : At start n (forum, journal)) : At journal n (forum, journal) :=
  ⟨h.versioned, List.prefix_refl _, h.attempts, h.unchanged⟩

theorem meets_timestamp (le : n ≤ e.settings.conflictRetries) (h : At start n (forum, journal)) :
    e.Meets site conditions timestamp
      (fun time state => At start n state ∧ time ∈ state.2.filterMap Event.stamp?)
      (forum, journal) :=
  meets_ask le rfl h fun later time _ h' => meets_done fun last evolves =>
    ⟨h'.mono evolves, by simp [Event.stamp?]⟩

theorem meets_vote {request : VoteRequest} (haction : e.action = .vote request)
    (truthful : ¬conditions.loses) (versioned : forum.store.Versioned) :
    e.Meets site conditions (vote e.settings e.caller e.target request)
      (fun record state => e.Succeeds record state.2) (forum, []) := by
  have le := Nat.zero_le e.settings.conflictRetries
  unfold vote
  refine meets_bind (meets_authorize le (at_nil versioned)) fun _ _ _ h => ?_
  refine meets_bind (meets_loadTarget le h) fun item _ _ h => ?_
  refine meets_bind (meets_timestamp le h) fun time forum start ⟨h, htime⟩ => ?_
  refine meets_bind (meets_retryConflicts
    (fun _ _ _ le h => meets_attemptVote truthful le h) _ (Nat.zero_add _) h.restart)
    fun pair forum journal hwon => ?_
  have hsucceeds : ∀ {journal : Journal}, e.Won
      (fun base changed => ∃ change, base.vote request time = .apply (changed, change)) start pair.1
      journal → e.Succeeds pair.1 journal := by
    intro journal hwon
    refine succeeds_of_won hwon fun base changed htakes => ?_
    obtain ⟨rest, rfl⟩ := hwon.1
    rw [Takes, haction, List.filterMap_append]
    exact ⟨time, List.mem_append_left _ htime, htakes⟩
  obtain ⟨stored, item'⟩ := pair
  dsimp only
  split
  · refine meets_quiet rfl ?_ fun later reply _ _ => ?_
    · obtain ⟨-, front, later, read, write, base, changed, rfl, hwrote, -⟩ := hwon
      exact not_exhausted_of_wrote hwrote
    · exact meets_done fun _ _ => hsucceeds (hwon.append_quiet rfl reply)
  · exact meets_done fun _ _ => hsucceeds hwon

theorem meets_setSaved {saved : Bool} (haction : e.action = .save saved)
    (truthful : ¬conditions.loses) (versioned : forum.store.Versioned) :
    e.Meets site conditions (setSaved e.settings e.caller e.target saved)
      (fun record state => e.Succeeds record state.2) (forum, []) := by
  have le := Nat.zero_le e.settings.conflictRetries
  rw [setSaved]
  refine meets_bind (meets_authorize le (at_nil versioned)) fun _ _ _ h => ?_
  refine meets_bind (meets_loadTarget le h) fun item _ _ h => ?_
  refine Program.Meets.weaken (meets_retryConflicts
    (fun _ _ _ le h => meets_attemptSave truthful le h) _ (Nat.zero_add _) h)
    fun record state hwon => succeeds_of_won hwon fun base changed htakes => ?_
  rw [Takes, haction]
  exact htakes

theorem meets_applyReport {action : ReportAction}
    (htakes : ∀ journal base changed, (∃ outcome,
      base.report action false = .ok (.apply (changed, outcome))) → e.Takes journal base changed)
    (truthful : ¬conditions.loses) (versioned : forum.store.Versioned) :
    e.Meets site conditions (applyReport e.settings e.caller e.target action)
      (fun record state => e.Succeeds record state.2) (forum, []) := by
  have le := Nat.zero_le e.settings.conflictRetries
  rw [applyReport]
  refine meets_bind (meets_authorize le (at_nil versioned)) fun _ _ _ h => ?_
  refine meets_bind (meets_retryConflicts
    (fun _ _ _ le h => meets_attemptReport truthful le h) _ (Nat.zero_add _) h)
    fun pair forum journal hwon => ?_
  exact meets_done fun _ _ => succeeds_of_won hwon (htakes journal)

/-- Every vote, mark and report meets its contract. -/
theorem meets_program (truthful : ¬conditions.loses) (versioned : forum.store.Versioned) :
    e.Meets site conditions e.program (fun record state => e.Succeeds record state.2)
      (forum, []) := by
  have le := Nat.zero_le e.settings.conflictRetries
  rw [program]
  cases haction : e.action with
  | vote request => exact meets_vote haction truthful versioned
  | save saved => exact meets_setSaved haction truthful versioned
  | report reason =>
    refine meets_bind (meets_ofExcept le (at_nil versioned)) fun _ _ _ ⟨_, h, hsame⟩ => ?_
    obtain rfl : _ = [] := hsame
    refine meets_applyReport (fun _ _ _ htakes => ?_) truthful h.versioned
    rw [Takes, haction]
    exact htakes
  | withdraw =>
    refine meets_applyReport (fun _ _ _ htakes => ?_) truthful versioned
    rw [Takes, haction]
    exact htakes

/-! ### Runs -/

/-- If none of the attempts comes after too many others, there are not too many. -/
theorem attempts_le {r : Nat} (journal : Journal)
    (h : ∀ earlier event later, journal = earlier ++ event :: later →
      event.record?.isSome = true → Journal.attempts earlier ≤ r) : journal.attempts ≤ r + 1 := by
  induction journal using List.reverseRecOn with
  | nil => exact Nat.zero_le _
  | append_singleton journal event ih =>
    have hbefore := ih fun earlier other later heq =>
      h earlier other (later ++ [event]) (by simp [heq])
    rw [attempts_append, attempts_singleton]
    split
    · rename_i hattempt
      exact Nat.add_le_add_right (h journal event [] rfl hattempt) 1
    · exact hbefore

/-- Votes, marks and reports are run side by side, and no reply is lost. Each of them is atomic in
every trace of the run, and there is one: an operation that succeeds takes its action on the record
stored right before its only write, and returns what it has stored; one that fails has changed
nothing; each reads the record again before every attempt to write it, makes no more attempts than
the settings allow, and fails for want of the store when the last of them loses a race. -/
theorem atomic_of_run {engagements : List Engagement} {after : Forum} {pool : Thread.Pool}
    (truthful : ¬conditions.loses) (versioned : forum.store.Versioned)
    (run : Thread.Pool.Steps ((site.responses conditions).within Counting)
      (Invocation.pool (engagements.map invocation)) forum pool after) :
    (∃ trace, Thread.Pool.Traced ((site.responses conditions).within Counting)
      (Invocation.pool (engagements.map invocation)) forum trace pool after) ∧
    ∀ trace, Thread.Pool.Traced ((site.responses conditions).within Counting)
        (Invocation.pool (engagements.map invocation)) forum trace pool after →
      ∀ (place : Nat) (e : Engagement), engagements[place]? = some e →
        ∃ thread : Thread EngagementRecord, pool[place]? = some ⟨EngagementRecord, thread⟩ ∧
          e.Atomic (Thread.Pool.journal trace place) thread.result? := by
  have hpool : ∀ thread ∈ Invocation.pool (engagements.map invocation),
      ∃ admits failing post, thread.2.Meets
        ((site.responses conditions).within Counting).journaled
        (Forum.versioning.journal admits failing) none post (forum, []) := by
    intro thread hthread
    simp only [Invocation.pool, List.map_map, List.mem_map, Function.comp_apply] at hthread
    obtain ⟨e, -, rfl⟩ := hthread
    rw [thread_invocation]
    exact ⟨_, _, _, .running (meets_program truthful versioned)⟩
  refine ⟨run.traced hpool, fun trace traced place e hplace => ?_⟩
  have others : ∀ thread ∈ Invocation.pool (engagements.map invocation), thread.2.Meets
      ((site.responses conditions).within Counting) Forum.versioning.contract none
      (fun _ _ => True) forum := by
    intro thread hthread
    obtain ⟨admits, failing, post, hmeets⟩ := hpool thread hthread
    exact Thread.meets_of_journal hmeets
  have hthread : (Invocation.pool (engagements.map invocation))[place]? =
      some ⟨EngagementRecord, .running e.program⟩ := by
    simp [Invocation.pool, hplace, thread_invocation]
  obtain ⟨thread, hlast, hmeets, hadmits⟩ :=
    traced.meets others hthread (.running (meets_program truthful versioned))
  obtain ⟨hsucceeds, hfails⟩ := hmeets.of_result?
  refine ⟨thread, hlast, ?_, hadmits, fun record h => hsucceeds record h trivial, hfails⟩
  refine attempts_le _ fun earlier event later heq hattempt => ?_
  obtain ⟨record, hrecord⟩ := Option.isSome_iff_exists.1 hattempt
  exact ((hadmits earlier event later heq).2 record hrecord).2.1

end Engagement

namespace Sample

/-- The member votes for the post and saves it at once. -/
def race : List Engagement :=
  [⟨{}, caller, ⟨post.hive, post.key⟩, .vote .addUp⟩,
    ⟨{}, caller, ⟨post.hive, post.key⟩, .save true⟩]

/-- The record that is saved first. -/
def saved : EngagementRecord :=
  { EngagementRecord.neutral caller.user post.key post.hive with saved := true }

/-- The record with the vote. -/
def savedVoted : EngagementRecord := { saved.written with upVoted := true, votedAt := some 0 }

/-- The forum in which the post is saved. -/
def savedForum : Forum := ⟨forum.store.withRecord saved, [post]⟩

/-- The forum in which it has got the vote as well. -/
def racedForum : Forum :=
  ⟨(savedForum.store.withRecord savedVoted).putItem post.key votedPost, [post]⟩

/-- A race that the vote loses first. -/
theorem atomic_of_race :
    ¬Conditions.calm.loses ∧ forum.store.Versioned ∧
    ∃ pool, Thread.Pool.Steps ((site.responses .calm).within Engagement.Counting)
        (Invocation.pool (race.map Engagement.invocation)) forum pool racedForum ∧
      (∃ trace, Thread.Pool.Traced ((site.responses .calm).within Engagement.Counting)
        (Invocation.pool (race.map Engagement.invocation)) forum trace pool racedForum) ∧
      ∀ trace, Thread.Pool.Traced ((site.responses .calm).within Engagement.Counting)
          (Invocation.pool (race.map Engagement.invocation)) forum trace pool racedForum →
        ∀ (place : Nat) (e : Engagement), race[place]? = some e →
          ∃ thread : Thread EngagementRecord,
            pool[place]? = some ⟨EngagementRecord, thread⟩ ∧
              e.Atomic (Thread.Pool.journal trace place) thread.result? := by
  have posted : Engagement.Counting forum := by decide
  have half : Engagement.Counting savedForum := by decide
  have last : Engagement.Counting racedForum := by decide
  have versioned : forum.store.Versioned := ⟨fun _ _ h => (by cases h), posted⟩
  have asked : (site.responses .calm).Answers (.membership caller post.hive) forum (.ok .owner)
      forum := .role caller post.hive forum
  have loaded : forum.store.perform site.limits (.getContent post.key) = .ok (post, forum.store) :=
    rfl
  have missing : forum.store.perform site.limits (.getEngagement caller.user post.id) =
      .error .recordNotFound := rfl
  have put : forum.store.perform site.limits (.putEngagement saved) =
      .ok (saved.written, savedForum.store) := rfl
  have lost : savedForum.store.perform site.limits (.commitVote voted post.key { upVotes := 1 }) =
      .error .versionConflict := rfl
  have found : savedForum.store.perform site.limits (.getEngagement caller.user post.id) =
      .ok (saved.written, savedForum.store) := rfl
  have won : savedForum.store.perform site.limits
      (.commitVote savedVoted post.key { upVotes := 1 }) =
      .ok ((savedVoted.written, votedPost), racedForum.store) := rfl
  let target : Target := ⟨post.hive, post.key⟩
  have read : Thread.Steps ((site.responses .calm).within Engagement.Counting)
      (.running (vote {} caller target .addUp)) forum _ forum :=
    .perform ⟨asked, posted⟩ <| .perform ⟨.carriedOut loaded, posted⟩ <|
      .perform ⟨.stamp forum 0, posted⟩ <| .perform ⟨.failed missing, posted⟩ .none
  have save : Thread.Steps ((site.responses .calm).within Engagement.Counting)
      (.running (setSaved {} caller target true)) forum (.running (.done saved.written))
      savedForum :=
    .perform ⟨asked, posted⟩ <| .perform ⟨.carriedOut loaded, posted⟩ <|
      .perform ⟨.failed missing, posted⟩ <| .perform ⟨.carriedOut put, half⟩ .none
  have run : Thread.Pool.Steps ((site.responses .calm).within Engagement.Counting)
      (Invocation.pool (race.map Engagement.invocation)) forum
      [⟨_, .running (.done savedVoted.written)⟩, ⟨_, .running (.done saved.written)⟩]
      racedForum := by
    refine ((Thread.Pool.Steps.of_thread read [] _).trans (.of_thread save [⟨_, _⟩] [])).trans ?_
    refine Thread.Pool.Steps.of_thread ?_ [] _
    exact .perform ⟨.failed lost, half⟩ <| .perform ⟨.carriedOut found, half⟩ <|
      .perform ⟨.carriedOut won, last⟩ .none
  exact ⟨fun h => h, versioned, _, run, Engagement.atomic_of_run (fun h => h) versioned run⟩

end Sample

end HiveForum
