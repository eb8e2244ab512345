import HiveForum.Operation
import HiveForum.Proofs.Engagement.Version

/-!
# Journals of votes, marks and reports

Someone who votes for an item, saves it or reports it reads their record, makes the change and
writes the result, and does so again after a conflict. The journal of the operation tells whether
it did: each attempt to write comes right after the reading of the record, there are not too many of
them, and after the one that succeeds nothing is written any more.

## Main definitions

* `Engagement`: someone acts on an item.
* `Engagement.Wrote`: a journal with one write, which is the action taken on the stored record.
* `Engagement.Admits`, `Engagement.Failing`: the contract of the operation.

## Main results

* `Engagement.meets_write`: an attempt to write a record that has just been read.
* `Engagement.meets_retryConflicts`: attempts that are made again after conflicts.
-/

namespace HiveForum

open Program

/-- The effects that an operation has had so far. -/
abbrev Journal : Type := List (Event Forum)

/-- The record that an effect asked to write. -/
def Event.record? (event : Event Forum) : Option EngagementRecord :=
  match event.effect with
  | .store request => request.record?
  | _ => none

/-- The record that an effect is known to have stored. -/
def Event.stored? : Event Forum → Option EngagementRecord
  | ⟨.store request, _, .ok answer, _⟩ => request.stored? answer
  | _ => none

/-- The call lost a race. -/
def Event.Conflicts (event : Event Forum) : Prop :=
  ∃ request before after, event = ⟨.store request, before, .error .versionConflict, after⟩

/-- The time that was taken. -/
def Event.stamp? : Event Forum → Option Int64
  | ⟨.timestamp, _, time, _⟩ => some time
  | _ => none

/-- The number of attempts to write a record. -/
def Journal.attempts (journal : Journal) : Nat := journal.countP (·.record?.isSome)

/-- Nothing in the journal has changed anything. -/
def Journal.Unchanged (journal : Journal) : Prop :=
  ∀ event ∈ journal, event.after = event.before ∧ event.stored? = none

/-- What someone may do with an item. -/
inductive EngagementAction where
  | vote (request : VoteRequest)
  | save (saved : Bool)
  | report (reason : Option String)
  | withdraw

/-- Someone acts on an item. -/
structure Engagement where
  settings : Settings
  caller : Caller
  target : Target
  action : EngagementAction

namespace Engagement

variable (e : Engagement)

/-- The operation. -/
def operation : Operation :=
  match e.action with
  | .vote request => .vote e.caller e.target request
  | .save saved => .setSaved e.caller e.target saved
  | .report reason => .report e.caller e.target reason
  | .withdraw => .withdrawReport e.caller e.target

/-- The program of the operation. -/
def program : Program EngagementRecord :=
  match e.action with
  | .vote request => HiveForum.vote e.settings e.caller e.target request
  | .save saved => HiveForum.setSaved e.settings e.caller e.target saved
  | .report reason => HiveForum.report e.settings e.caller e.target reason
  | .withdraw => HiveForum.withdrawReport e.settings e.caller e.target

/-- The operation, to be run. -/
def invocation : Invocation := ⟨e.settings, 0, e.operation⟩

theorem thread_invocation : e.invocation.thread = ⟨EngagementRecord, .running e.program⟩ := by
  obtain ⟨settings, caller, target, action⟩ := e
  cases action <;> rfl

/-- The record that the action is about. -/
def key : EngagementKey := ⟨e.caller.user, e.target.content.id⟩

/-- The stored record, or a neutral one if there is none. -/
def recordIn (forum : Forum) : EngagementRecord :=
  forum.recordOf e.caller.user e.target.content e.target.hive

/-- The record is read. -/
def Reads (event : Event Forum) : Prop :=
  event.effect = .store (.getEngagement e.caller.user e.target.content.id)

/-- The record that was read, a neutral one if none was found. -/
def read? : Event Forum → Option EngagementRecord
  | ⟨.store (.getEngagement _ _), _, .ok record, _⟩ => some record
  | ⟨.store (.getEngagement _ _), _, .error error, _⟩ =>
    if error.isNotFound then some (.neutral e.caller.user e.target.content e.target.hive) else none
  | _ => none

/-- The last attempt that is allowed was made, and lost a race. -/
def Exhausted (journal : Journal) : Prop :=
  e.settings.conflictRetries < journal.attempts ∧
    ∃ front event, journal = front ++ [event] ∧ event.record?.isSome = true ∧ event.Conflicts

/-- Nothing follows the last attempt, and every attempt to write the record follows upon its
reading. -/
def Admits (journal : Journal) (event : Event Forum) : Prop :=
  ¬e.Exhausted journal ∧ ∀ record, event.record? = some record →
    record.key = e.key ∧ journal.attempts ≤ e.settings.conflictRetries ∧
      ∃ front read, journal = front ++ [read] ∧ e.Reads read

/-- A failure has changed nothing, and says so if the attempts were used up. -/
def Failing (error : OperationError) (journal : Journal) : Prop :=
  journal.Unchanged ∧
    (e.Exhausted journal → error = .storeUnavailable (.store .versionConflict))

/-- In the journal a single write stores what is taken to be the changed record. It follows upon
the reading of a record, which is the stored one still, and nothing else changes anything. -/
structure Wrote (takes : EngagementRecord → EngagementRecord → Prop) (front later : Journal)
    (read write : Event Forum) (base changed : EngagementRecord) : Prop where
  reads : e.Reads read
  gave : e.read? read = some base
  current : e.recordIn write.before = base
  takes : takes base changed
  version : changed.version = base.version
  asks : write.record? = some changed
  stored : write.stored? = some changed.written
  kept : write.after.store.record? e.key = some changed.written
  earlier : Journal.Unchanged (front ++ [read])
  rest : Journal.Unchanged later ∧ Journal.attempts later = 0

/-- The journal goes on from another one with a single write, which stores a record. -/
def Won (takes : EngagementRecord → EngagementRecord → Prop) (start : Journal)
    (record : EngagementRecord) (journal : Journal) : Prop :=
  start <+: journal ∧ ∃ front later read write base changed,
    journal = front ++ read :: write :: later ∧
      e.Wrote takes front later read write base changed ∧ record = changed.written

/-- The journal goes on from another one without a change, and has a number of attempts. -/
structure At (start : Journal) (n : Nat) (state : Forum × Journal) : Prop where
  versioned : state.1.store.Versioned
  start : start <+: state.2
  attempts : state.2.attempts = n
  unchanged : state.2.Unchanged

/-! ### Journals -/

variable {e}

theorem attempts_append (journal journal' : Journal) :
    Journal.attempts (journal ++ journal') = journal.attempts + journal'.attempts :=
  List.countP_append

theorem attempts_singleton (event : Event Forum) :
    Journal.attempts [event] = if event.record?.isSome then 1 else 0 := by
  simp [Journal.attempts, List.countP_singleton]

theorem unchanged_append {journal journal' : Journal} :
    Journal.Unchanged (journal ++ journal') ↔ journal.Unchanged ∧ journal'.Unchanged :=
  List.forall_mem_append

theorem quiet {effect : Effect} (h : effect.isQuiet = true) (before : Forum) (reply : effect.Reply)
    (after : Forum) :
    (⟨effect, before, reply, after⟩ : Event Forum).record? = none ∧
      (⟨effect, before, reply, after⟩ : Event Forum).stored? = none := by
  cases effect with
  | store request =>
    cases request <;> first
      | (cases reply <;> exact ⟨rfl, rfl⟩)
      | cases h
  | _ => exact ⟨rfl, rfl⟩

variable {start journal : Journal} {n : Nat} {forum later : Forum}

theorem not_exhausted_of_attempts (h : journal.attempts ≤ e.settings.conflictRetries) :
    ¬e.Exhausted journal :=
  fun exhausted => Nat.not_lt.2 h exhausted.1

theorem At.mono (h : At start n (forum, journal)) (evolves : Forum.versioning.rel forum later) :
    At start n (later, journal) :=
  ⟨(evolves h.versioned).1, h.start, h.attempts, h.unchanged⟩

theorem At.append_quiet {effect : Effect} (h : At start n (forum, journal))
    (quiet : effect.isQuiet = true) (reply : effect.Reply) :
    At start n (forum, journal ++ [⟨effect, forum, reply, forum⟩]) := by
  obtain ⟨hrecord, hstored⟩ := Engagement.quiet quiet forum reply forum
  refine ⟨h.versioned, h.start.trans (List.prefix_append _ _), ?_, ?_⟩
  · rw [attempts_append, attempts_singleton, hrecord, h.attempts]
    rfl
  · refine unchanged_append.2 ⟨h.unchanged, ?_⟩
    simpa [Journal.Unchanged] using hstored

/-- A journal with a successful write ends with it or with a quiet effect. -/
theorem not_exhausted_of_wrote {takes : EngagementRecord → EngagementRecord → Prop}
    {front rest : Journal} {read write : Event Forum} {base changed : EngagementRecord}
    (h : e.Wrote takes front rest read write base changed) :
    ¬e.Exhausted (front ++ read :: write :: rest) := by
  rintro ⟨-, before, event, heq, hrecord, hconflicts⟩
  rcases List.eq_nil_or_concat rest with rfl | ⟨init, last, rfl⟩
  · have heq' : (front ++ [read]) ++ [write] = before ++ [event] := by simpa using heq
    obtain rfl := List.singleton_inj.1 (List.append_inj' heq' rfl).2
    obtain ⟨request, forum, after, rfl⟩ := hconflicts
    cases h.stored
  · have heq' : (front ++ read :: write :: init) ++ [last] = before ++ [event] := by simpa using heq
    obtain rfl := List.singleton_inj.1 (List.append_inj' heq' rfl).2
    have hnone := h.rest.2
    rw [List.concat_eq_append, attempts_append, attempts_singleton, hrecord] at hnone
    cases hnone

theorem Won.append_quiet {takes : EngagementRecord → EngagementRecord → Prop}
    {record : EngagementRecord} {effect : Effect} (h : e.Won takes start record journal)
    (quiet : effect.isQuiet = true) (reply : effect.Reply) :
    e.Won takes start record (journal ++ [⟨effect, forum, reply, forum⟩]) := by
  obtain ⟨hstart, front, rest, read, write, base, changed, rfl, hwrote, hchanged⟩ := h
  obtain ⟨hrecord, hstored⟩ := Engagement.quiet quiet forum reply forum
  refine ⟨hstart.trans (List.prefix_append _ _), front,
    rest ++ [⟨effect, forum, reply, forum⟩], read, write, base, changed, by simp, ?_, hchanged⟩
  refine { hwrote with rest := ⟨unchanged_append.2 ⟨hwrote.rest.1, ?_⟩, ?_⟩ }
  · simpa [Journal.Unchanged] using hstored
  · rw [attempts_append, attempts_singleton, hrecord, hwrote.rest.2]
    rfl

/-! ### The contract -/

/-- The stored records have been written at least once. -/
def Counting (forum : Forum) : Prop := ∀ record ∈ forum.store.records, 0 < record.version.toInt

instance (forum : Forum) : Decidable (Counting forum) :=
  inferInstanceAs (Decidable (∀ record ∈ forum.store.records, 0 < record.version.toInt))

/-- A program meets the contract of an operation, and its value satisfies a claim. -/
abbrev Meets (e : Engagement) (site : Site) (conditions : Conditions) {α : Type} (p : Program α)
    (claim : α → Forum × Journal → Prop) (state : Forum × Journal) : Prop :=
  p.Meets ((site.responses conditions).within Counting).journaled
    (Forum.versioning.journal e.Admits e.Failing) none claim state

variable {site : Site} {conditions : Conditions} {α β : Type}

theorem meets_done {value : α} {claim : α → Forum × Journal → Prop}
    (h : ∀ later, Forum.versioning.rel forum later → claim value (later, journal)) :
    e.Meets site conditions (.done value) claim (forum, journal) := by
  rintro ⟨later, journal'⟩ ⟨evolves, rfl⟩ -
  exact h later evolves

theorem meets_fail {error : OperationError} {claim : α → Forum × Journal → Prop}
    (h : e.Failing error journal) :
    e.Meets site conditions (.fail error) claim (forum, journal) := by
  rintro ⟨later, journal'⟩ ⟨-, rfl⟩
  exact h

theorem meets_bind {p : Program α} {f : α → Program β} {claim : α → Forum × Journal → Prop}
    {claim' : β → Forum × Journal → Prop} {state : Forum × Journal}
    (h : e.Meets site conditions p claim state)
    (hf : ∀ value forum journal, claim value (forum, journal) →
      e.Meets site conditions (f value) claim' (forum, journal)) :
    e.Meets site conditions (p.bind f) claim' state :=
  Program.Meets.andThen h fun value middle _ hclaim =>
    hf value middle.1 middle.2 (hclaim middle (Contract.rely_refl _ _))

theorem meets_quiet {effect : Effect} {next : effect.Reply → Program α}
    {claim : α → Forum × Journal → Prop} (quiet : effect.isQuiet = true)
    (open_ : ¬e.Exhausted journal)
    (hnext : ∀ later reply, Forum.versioning.rel forum later →
      site.Answer conditions effect later reply later →
        e.Meets site conditions (next reply) claim
          (later, journal ++ [⟨effect, later, reply, later⟩])) :
    e.Meets site conditions (.perform effect next) claim (forum, journal) := by
  rintro ⟨later, journal'⟩ reply ⟨after, journal''⟩ ⟨evolves, rfl⟩ ⟨⟨answer, -⟩, hjournal⟩
  obtain rfl := answer.eq_of_isQuiet quiet
  obtain rfl : journal'' = journal' ++ [⟨effect, after, reply, after⟩] := hjournal
  refine ⟨⟨Forum.versioning.refl _, ⟨effect, after, reply, after⟩, ⟨open_, ?_⟩, rfl⟩,
    hnext after reply evolves answer⟩
  rw [(Engagement.quiet quiet after reply after).1]
  exact fun _ h => by cases h

variable (le : n ≤ e.settings.conflictRetries)

include le

theorem meets_fail_of_at {error : OperationError} {claim : α → Forum × Journal → Prop}
    (h : At start n (forum, journal)) :
    e.Meets site conditions (.fail error) claim (forum, journal) :=
  meets_fail ⟨h.unchanged, fun exhausted =>
    absurd exhausted (not_exhausted_of_attempts (h.attempts ▸ le))⟩

theorem meets_ofExcept {ε : Type} {describe : ε → OperationError} {result : Except ε α}
    (h : At start n (forum, journal)) :
    e.Meets site conditions (ofExcept describe result)
      (fun value state => result = .ok value ∧ At start n state ∧ state.2 = journal)
      (forum, journal) := by
  cases result with
  | ok value => exact meets_done fun later evolves => ⟨rfl, h.mono evolves, rfl⟩
  | error error => exact meets_fail_of_at le h

theorem meets_ask {effect : Effect} {next : effect.Reply → Program α}
    {claim : α → Forum × Journal → Prop} (quiet : effect.isQuiet = true)
    (h : At start n (forum, journal))
    (hnext : ∀ later reply, site.Answer conditions effect later reply later →
      At start n (later, journal ++ [⟨effect, later, reply, later⟩]) →
        e.Meets site conditions (next reply) claim
          (later, journal ++ [⟨effect, later, reply, later⟩])) :
    e.Meets site conditions (.perform effect next) claim (forum, journal) :=
  meets_quiet quiet (not_exhausted_of_attempts (h.attempts ▸ le)) fun later reply evolves answer =>
    hnext later reply answer ((h.mono evolves).append_quiet quiet reply)

theorem meets_authorize {caller : Caller} {hive : ScopeId} (h : At start n (forum, journal)) :
    e.Meets site conditions (authorize caller hive) (fun _ => At start n) (forum, journal) :=
  meets_ask le rfl h fun later reply _ h' => by
    cases reply with
    | ok role => exact meets_done fun last evolves => h'.mono evolves
    | error error => exact meets_fail_of_at le h'

theorem meets_loadTarget {target : Target} (h : At start n (forum, journal)) :
    e.Meets site conditions (loadTarget target) (fun _ => At start n) (forum, journal) := by
  rw [loadTarget]
  refine meets_ask le rfl h fun later reply _ h' => ?_
  cases reply with
  | error error => exact meets_fail_of_at le h'
  | ok item =>
    change e.Meets site conditions (if item.hive = target.hive then .done item else .fail .notFound)
      _ _
    split
    · exact meets_done fun last evolves => h'.mono evolves
    · exact meets_fail_of_at le h'

omit le in
variable (e) in
/-- The record has just been read, and is the stored one unless another one is written. -/
structure Read (start : Journal) (n : Nat) (base : EngagementRecord) (state : Forum × Journal) :
    Prop extends At start n state where
  read : ∃ front read, state.2 = front ++ [read] ∧ e.Reads read ∧ e.read? read = some base
  current : state.1.Current e.caller.user e.target.content e.target.hive base
  key : base.key = e.key

omit le in
theorem Read.mono {base : EngagementRecord} (h : e.Read start n base (forum, journal))
    (evolves : Forum.versioning.rel forum later) : e.Read start n base (later, journal) :=
  ⟨h.toAt.mono evolves, h.read, h.current.mono h.versioned evolves, h.key⟩

theorem meets_currentRecord (h : At start n (forum, journal)) :
    e.Meets site conditions (currentRecord e.caller e.target) (e.Read start n)
      (forum, journal) := by
  rw [currentRecord]
  refine meets_ask le rfl h fun later reply answer h' => ?_
  cases reply with
  | ok record =>
    have hrecord := (answer.getEngagement).1
    exact meets_done fun last evolves => Read.mono ⟨h', ⟨_, _, rfl, rfl, rfl⟩,
      Forum.current_of_record? hrecord, h'.versioned.keyed _ _ hrecord⟩ evolves
  | error error =>
    change e.Meets site conditions (if error.isNotFound = true then .done _ else .fail _) _ _
    split
    · rename_i hnone
      exact meets_done fun last evolves => Read.mono ⟨h',
        ⟨_, _, rfl, rfl, if_pos hnone⟩, Forum.current_neutral h'.versioned, rfl⟩ evolves
    · exact meets_fail_of_at le h'

omit le in
variable (e) in
/-- What an attempt leads to: the write is made, or it fails and the journal has one attempt
more. -/
def Attempted (takes : EngagementRecord → EngagementRecord → Prop) (start : Journal) (n : Nat)
    (recordOf : α → EngagementRecord) (result : Except StoreError α) (state : Forum × Journal) :
    Prop :=
  match result with
  | .ok value => e.Won takes start (recordOf value) state.2
  | .error error =>
    At start (n + 1) state ∧ (error ≠ .versionConflict → ¬e.Exhausted state.2)

/-- An attempt to write what an action makes of the record that has just been read. -/
theorem meets_write {takes : EngagementRecord → EngagementRecord → Prop} {request : Request}
    {base changed : EngagementRecord} {recordOf : request.Answer → EngagementRecord}
    (truthful : ¬conditions.loses) (h : e.Read start n base (forum, journal))
    (asks : request.record? = some changed)
    (stored : ∀ answer, request.stored? answer = some (recordOf answer))
    (takes_changed : takes base changed) (key : changed.key = base.key)
    (version : changed.version = base.version) :
    e.Meets site conditions (tryCall request) (e.Attempted takes start n recordOf)
      (forum, journal) := by
  rintro ⟨later, journal'⟩ reply ⟨after, journal''⟩ ⟨evolves, hsame⟩ ⟨⟨answer, counting⟩, hjournal⟩
  dsimp only at evolves hsame answer counting hjournal
  subst hsame hjournal
  obtain ⟨hat, ⟨front, read, hread, hreads, hgave⟩, hcurrent, hkey⟩ := h.mono evolves
  dsimp only at hread
  have hevolves : Forum.versioning.rel later after := by
    refine Site.Answer.evolves answer (fun keys heq => ?_) counting
    cases heq
    cases asks
  have hrecord : (⟨.store request, later, reply, after⟩ : Event Forum).record? = some changed :=
    asks
  have hadmits : e.Admits journal' ⟨.store request, later, reply, after⟩ :=
    ⟨not_exhausted_of_attempts (hat.attempts ▸ le), fun record heq =>
      ⟨Option.some.inj (hrecord.symm.trans heq) ▸ key.trans hkey, hat.attempts ▸ le, front, read,
        hread, hreads⟩⟩
  have hstart :=
    hat.start.trans (List.prefix_append journal' [⟨.store request, later, reply, after⟩])
  refine ⟨⟨hevolves, _, hadmits, rfl⟩, ?_⟩
  rcases Site.Answer.of_record? answer truthful asks with
    ⟨error, rfl, rfl⟩ | ⟨value, rfl, hvalue, hversion, hrecords⟩
  · refine meets_done fun last evolves' => ⟨?_, fun hne exhausted => ?_⟩
    · refine ⟨(evolves' hat.versioned).1, hstart, ?_, ?_⟩
      · rw [attempts_append, attempts_singleton, hrecord, hat.attempts]
        rfl
      · refine unchanged_append.2 ⟨hat.unchanged, ?_⟩
        simp [Journal.Unchanged, Event.stored?]
    · obtain ⟨-, before, event, heq, -, request', forum', after', rfl⟩ := exhausted
      have hlast := List.singleton_inj.1 (List.append_inj' heq rfl).2
      cases hlast
      exact hne rfl
  · refine meets_done fun last _ => ⟨hstart, front, [], read,
      ⟨.store request, later, .ok value, after⟩, base, changed, by simp [hread], ?_, ?_⟩
    · rw [key, hkey, version] at hversion
      refine ⟨hreads, hgave, hcurrent.2 hversion, takes_changed, version, asks, hvalue, ?_,
        hread ▸ hat.unchanged, fun _ h => (by cases h), rfl⟩
      change after.store.record? e.key = some changed.written
      rw [hrecords, StoreState.record?_withRecord, if_pos (key.trans hkey).symm]
    · exact Option.some.inj ((stored value).symm.trans hvalue)

omit le in
/-- Attempts that are made again after conflicts lead to a write or use up the attempts. -/
theorem meets_retryConflicts {takes : EngagementRecord → EngagementRecord → Prop}
    {attempt : Program (Except StoreError α)} {recordOf : α → EngagementRecord}
    (hattempt : ∀ n forum journal, n ≤ e.settings.conflictRetries → At start n (forum, journal) →
      e.Meets site conditions attempt (e.Attempted takes start n recordOf) (forum, journal))
    (retries : Nat) (hretries : n + retries = e.settings.conflictRetries)
    (h : At start n (forum, journal)) :
    e.Meets site conditions (retryConflicts attempt retries)
      (fun value state => e.Won takes start (recordOf value) state.2) (forum, journal) := by
  have hgive : ∀ {n : Nat} {forum : Forum} {journal : Journal} {result : Except StoreError α},
      e.Attempted takes start n recordOf result (forum, journal) →
        e.Meets site conditions (ofExcept .ofStore result)
          (fun value state => e.Won takes start (recordOf value) state.2) (forum, journal) := by
    intro n forum journal result hresult
    cases result with
    | ok value => exact meets_done fun _ _ => hresult
    | error error =>
      refine meets_fail ⟨hresult.1.unchanged, fun exhausted => ?_⟩
      rw [Decidable.not_not.1 fun hne => hresult.2 hne exhausted]
      rfl
  induction retries generalizing n forum journal with
  | zero =>
    rw [retryConflicts]
    exact meets_bind (hattempt n forum journal (by omega) h) fun result _ _ hresult => hgive hresult
  | succ retries ih =>
    rw [retryConflicts]
    refine meets_bind (hattempt n forum journal (by omega) h) fun result _ _ hresult => ?_
    split
    · exact ih (by omega) hresult.1
    · exact hgive hresult

end Engagement

end HiveForum
