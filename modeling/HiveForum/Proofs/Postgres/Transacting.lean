import HiveForum.Postgres.Store
import HiveForum.Proofs.Forum.Run
import HiveForum.Proofs.Postgres.Reading
import Mathlib.Data.List.Forall2

/-!
# Transactions are carried out whole or not at all

A record is written in a transaction of one to three statements. Whatever a peer replies, the
statements are sent in a fixed order, each only after the one before has been answered as needed,
and the changes are made to last only after the last one. The first reply that is not as needed
decides on the error of the call, and no statement follows it.

## Main definitions

* `Sql.Exchange`, `Sql.Peer.exchanges`: commands with the replies to them.
* `Postgres.Demand`: a statement of a transaction, and what its answer must not be like.
* `Postgres.demands`: the statements of the transaction of a call.
* `Postgres.Course`: the exchanges of a transaction that has been opened.
* `Postgres.AllOrNothing`: what the exchanges of a call say of its value.

## Main results

* `Postgres.Dialogue.conducts_ask`: a transaction goes on after a statement.
* `Postgres.Store.answer_allOrNothing`: the exchanges of a call that writes a record are such.
-/

namespace HiveForum

open Sql

variable {σ α β : Type}

/-! ### Exchanges -/

namespace Sql

/-- A command with the reply to it. -/
structure Exchange where
  command : Command
  reply : Reply

/-- The replies of a peer to commands, one after another, and the state after them. -/
def Peer.exchanges (peer : Peer σ) : List Command → σ → List Exchange × σ
  | [], state => ([], state)
  | command :: commands, state =>
    let (reply, state) := peer.reply command state
    let (exchanges, state) := peer.exchanges commands state
    (⟨command, reply⟩ :: exchanges, state)

/-- The statements that were sent, with the replies to them. -/
def queries (exchanges : List Exchange) : List (Query × Reply) :=
  exchanges.filterMap fun exchange =>
    match exchange.command with
    | .query query => some (query, exchange.reply)
    | _ => none

@[simp]
theorem queries_nil : queries [] = [] := rfl

@[simp]
theorem queries_cons_query (query : Query) (reply : Reply) (exchanges : List Exchange) :
    queries (⟨.query query, reply⟩ :: exchanges) = (query, reply) :: queries exchanges := rfl

@[simp]
theorem queries_cons_begin (reply : Reply) (exchanges : List Exchange) :
    queries (⟨.begin, reply⟩ :: exchanges) = queries exchanges := rfl

@[simp]
theorem queries_cons_commit (reply : Reply) (exchanges : List Exchange) :
    queries (⟨.commit, reply⟩ :: exchanges) = queries exchanges := rfl

@[simp]
theorem queries_cons_rollback (reply : Reply) (exchanges : List Exchange) :
    queries (⟨.rollback, reply⟩ :: exchanges) = queries exchanges := rfl

end Sql

namespace Postgres

/-! ### The statements of a transaction -/

/-- A statement of a transaction, and why an answer to it is not as needed, if it is not. -/
structure Demand where
  query : Query
  rejects : Answered → Option StoreError

/-- The error of the call after a reply to the statement; none if the reply is as needed. -/
def Demand.error? (demand : Demand) : Reply → Option StoreError
  | .ok answer => demand.rejects answer
  | .error failure => some failure.storeError

/-- An item must be found, and its row must be readable and pass a check. -/
def rejectsItem (check : ContentItem → Option StoreError) (answer : Answered) : Option StoreError :=
  match answer.rows with
  | [] => some .contentNotFound
  | row :: _ =>
    match ContentItem.ofRow row with
    | .error error => some error
    | .ok item => check item

/-- A reviewed item takes no further reports. -/
def rejectsReviewed (outcome : ReportOutcome) (item : ContentItem) : Option StoreError :=
  if outcome = .added ∧ item.reviewed then some .contentReviewed else none

/-- A row must have been written, and it must be readable. -/
def rejectsWritten (answer : Answered) : Option StoreError :=
  match answer.rows with
  | [] => some .versionConflict
  | row :: _ =>
    match EngagementRecord.ofRow row with
    | .error error => some error
    | .ok _ => none

/-- The item that the first reply shows, if it shows one. -/
def shownItem? : List Reply → Option ContentItem
  | .ok ⟨row :: _, _⟩ :: _ => (ContentItem.ofRow row).toOption
  | _ => none

/-- The write of a record on condition of its version. -/
def recordDemand (record : EngagementRecord) : Demand := ⟨writeRecord record, rejectsWritten⟩

/-- The change of an item after a report; it may touch any number of rows. -/
def reportDemand (key : ContentKey) (changed : ContentItem) : Demand :=
  ⟨setReports key changed.reports changed.obfuscated, fun _ => none⟩

/-- The statements of the transaction that a call is made in, as far as the replies to the first
ones determine them; none for a call that is made outside of a transaction. -/
def demands : Request → List Reply → List Demand
  | .putEngagement record, _ => [recordDemand record]
  | .commitVote record key change, _ =>
    [⟨adjustCounts key change, rejectsItem fun _ => none⟩, recordDemand record]
  | .commitReport record key outcome, replies =>
    [⟨selectContent key true, rejectsItem (rejectsReviewed outcome)⟩, recordDemand record] ++
      (shownItem? replies).toList.map fun item => reportDemand key (outcome.applyTo item)
  | _, _ => []

/-- Whether a call is made in a transaction. -/
def isTransaction : Request → Bool
  | .putEngagement _ | .commitVote _ _ _ | .commitReport _ _ _ => true
  | _ => false

/-! ### The course of a transaction -/

/-- After a failure the changes are taken back, unless the connection is gone. -/
def Withdrawn : Failure → List Exchange → Prop
  | .refused _, ending => ∃ reply, ending = [⟨.rollback, reply⟩]
  | .disconnected, ending => ending = []

/-- The exchanges of a transaction that has been opened, with its value. -/
inductive Course : List Demand → List Exchange → Except StoreError α → Prop where
  | committed (value : α) (answer : Answered) : Course [] [⟨.commit, .ok answer⟩] (.ok value)
  | uncommitted {failure : Failure} {ending : List Exchange}
      (withdrawn : Withdrawn failure ending) :
      Course [] (⟨.commit, .error failure⟩ :: ending) (.error failure.storeError)
  | met {demand : Demand} {demands : List Demand} {answer : Answered} {exchanges : List Exchange}
      {value : Except StoreError α} (needed : demand.rejects answer = none)
      (rest : Course demands exchanges value) :
      Course (demand :: demands) (⟨.query demand.query, .ok answer⟩ :: exchanges) value
  | rejected {demand : Demand} {demands : List Demand} {answer : Answered} {error : StoreError}
      (reply : Reply) (rejects : demand.rejects answer = some error) :
      Course (demand :: demands) [⟨.query demand.query, .ok answer⟩, ⟨.rollback, reply⟩]
        (.error error)
  | failed {demand : Demand} {demands : List Demand} {failure : Failure} {ending : List Exchange}
      (withdrawn : Withdrawn failure ending) :
      Course (demand :: demands) (⟨.query demand.query, .error failure⟩ :: ending)
        (.error failure.storeError)

/-- The transaction sends what is demanded, as the replies determine it, and ends accordingly. -/
def Dialogue.Conducts (dialogue : Dialogue α) (demands : List Reply → List Demand) : Prop :=
  ∀ (σ : Type) (peer : Peer σ) (state : σ),
    let (transcript, after) := dialogue.run peer state
    ∃ exchanges, peer.exchanges transcript.sent state = (exchanges, after) ∧
      Course (demands ((queries exchanges).map Prod.snd)) exchanges transcript.value

namespace Dialogue

theorem exchanges_withdraw (peer : Peer σ) (failure : Failure) (state : σ) :
    ∃ ending, peer.exchanges (withdraw peer failure state).1 state =
      (ending, (withdraw peer failure state).2) ∧ Withdrawn failure ending := by
  cases failure with
  | refused refusal => exact ⟨_, rfl, _, rfl⟩
  | disconnected => exact ⟨[], rfl, rfl⟩

theorem conducts_commit (value : α) : (Dialogue.commit value).Conducts fun _ => [] := by
  intro σ peer state
  rcases hreply : peer.reply .commit state with ⟨failure | answer, after⟩
  · obtain ⟨ending, hending, withdrawn⟩ := exchanges_withdraw peer failure after
    simp only [Dialogue.run, hreply, Peer.exchanges, hending]
    exact ⟨_, rfl, .uncommitted withdrawn⟩
  · simp only [Dialogue.run, hreply, Peer.exchanges]
    exact ⟨_, rfl, .committed value answer⟩

/-- A transaction sends a statement, and goes on if it is answered as needed. -/
theorem conducts_ask (demand : Demand) {next : Answered → Dialogue α}
    {rest : List Reply → List Demand}
    (rejected : ∀ answer error, demand.rejects answer = some error → next answer = .abort error)
    (needed : ∀ answer, demand.rejects answer = none →
      (next answer).Conducts fun replies => rest (.ok answer :: replies)) :
    (Dialogue.ask demand.query next).Conducts fun replies => demand :: rest replies := by
  intro σ peer state
  rcases hreply : peer.reply (.query demand.query) state with ⟨failure | answer, middle⟩
  · obtain ⟨ending, hending, withdrawn⟩ := exchanges_withdraw peer failure middle
    simp only [Dialogue.run, hreply, Peer.exchanges, hending]
    exact ⟨_, rfl, .failed withdrawn⟩
  · cases hrejects : demand.rejects answer with
    | some error =>
      simp only [Dialogue.run, hreply, rejected answer error hrejects, Peer.exchanges]
      exact ⟨_, rfl, .rejected _ hrejects⟩
    | none =>
      obtain ⟨exchanges, hexchanges, course⟩ := needed answer hrejects σ peer middle
      simp only [Dialogue.run, hreply, Peer.exchanges, hexchanges]
      exact ⟨_, rfl, .met hrejects course⟩

/-- A transaction reads the answer to a statement. It is aborted if the answer cannot be read, or if
what is read is not as needed. -/
theorem conducts_askRead (demand : Demand) {read : Answered → Except StoreError β}
    {next : β → Dialogue α} {rest : List Reply → List Demand}
    (reads : ∀ answer,
      (∃ error, read answer = .error error ∧ demand.rejects answer = some error) ∨
        ∃ value, read answer = .ok value ∧
          ((∃ error, next value = .abort error ∧ demand.rejects answer = some error) ∨
            demand.rejects answer = none ∧
              (next value).Conducts fun replies => rest (.ok answer :: replies))) :
    (Dialogue.ask demand.query fun answer => Dialogue.read (read answer) next).Conducts
      fun replies => demand :: rest replies := by
  refine conducts_ask demand (fun answer error hrejects => ?_) fun answer hneeded => ?_
  · obtain ⟨other, hread, hother⟩ | ⟨value, hread, ⟨other, hnext, hother⟩ | ⟨hnone, -⟩⟩ :=
      reads answer
    · obtain rfl := Option.some.inj (hother.symm.trans hrejects)
      rw [hread]
      rfl
    · obtain rfl := Option.some.inj (hother.symm.trans hrejects)
      rw [hread]
      exact hnext
    · cases hnone.symm.trans hrejects
  · obtain ⟨other, -, hother⟩ | ⟨value, hread, ⟨other, -, hother⟩ | ⟨-, hnext⟩⟩ := reads answer
    · cases hother.symm.trans hneeded
    · cases hother.symm.trans hneeded
    · rw [hread]
      exact hnext

/-! ### The writes of records -/

variable {record : EngagementRecord} {key : ContentKey}

/-- An item is read from an answer exactly if the answer is rejected for no more than what the item
is like. -/
theorem itemOf_cases (check : ContentItem → Option StoreError) (answer : Answered) :
    (∃ error, itemOf answer = .error error ∧ rejectsItem check answer = some error) ∨
      ∃ item, itemOf answer = .ok item ∧ rejectsItem check answer = check item ∧
        ∀ replies, shownItem? (.ok answer :: replies) = some item := by
  obtain ⟨rows, affected⟩ := answer
  cases rows with
  | nil => exact .inl ⟨_, rfl, rfl⟩
  | cons row rows =>
    simp only [itemOf, firstRow, rejectsItem, shownItem?]
    cases ContentItem.ofRow row with
    | error error => exact .inl ⟨error, rfl, rfl⟩
    | ok item => exact .inr ⟨item, rfl, rfl, fun _ => rfl⟩

theorem writtenRecord_cases (answer : Answered) :
    (∃ error, writtenRecord answer = .error error ∧ rejectsWritten answer = some error) ∨
      ∃ written, writtenRecord answer = .ok written ∧ rejectsWritten answer = none := by
  obtain ⟨rows, affected⟩ := answer
  cases rows with
  | nil => exact .inl ⟨_, rfl, rfl⟩
  | cons row rows =>
    simp only [writtenRecord, firstRow, rejectsWritten]
    cases EngagementRecord.ofRow row with
    | error error => exact .inl ⟨error, rfl, rfl⟩
    | ok written => exact .inr ⟨written, rfl, rfl⟩

theorem conducts_writeRecord {next : EngagementRecord → Dialogue α}
    {rest : List Reply → List Demand}
    (follows : ∀ answer written,
      (next written).Conducts fun replies => rest (.ok answer :: replies)) :
    (Dialogue.ask (writeRecord record) fun answer =>
        Dialogue.read (writtenRecord answer) next).Conducts
      fun replies => recordDemand record :: rest replies := by
  refine conducts_askRead (recordDemand record) fun answer => ?_
  refine (writtenRecord_cases answer).imp id ?_
  rintro ⟨written, hread, hneeded⟩
  exact ⟨written, hread, .inr ⟨hneeded, follows answer written⟩⟩

theorem conducts_putEngagement (record : EngagementRecord) :
    (putEngagement record).Conducts (demands (.putEngagement record)) :=
  conducts_writeRecord fun _ written => conducts_commit written

theorem conducts_commitVote (record : EngagementRecord) (key : ContentKey) (change : CountChange) :
    (commitVote record key change).Conducts (demands (.commitVote record key change)) := by
  refine conducts_askRead ⟨adjustCounts key change, _⟩ fun answer => ?_
  refine (itemOf_cases (fun _ => none) answer).imp id ?_
  rintro ⟨item, hread, hneeded, -⟩
  refine ⟨item, hread, .inr ⟨hneeded, ?_⟩⟩
  exact conducts_writeRecord fun _ written => conducts_commit (written, item)

theorem conducts_commitReport (record : EngagementRecord) (key : ContentKey)
    (outcome : ReportOutcome) :
    (commitReport record key outcome).Conducts (demands (.commitReport record key outcome)) := by
  refine conducts_askRead ⟨selectContent key true, _⟩ fun answer => ?_
  refine (itemOf_cases (rejectsReviewed outcome) answer).imp id ?_
  rintro ⟨item, hread, hcheck, hshown⟩
  refine ⟨item, hread, ?_⟩
  dsimp only
  split
  · rename_i hreviewed
    exact .inl ⟨_, rfl, hcheck.trans (if_pos hreviewed)⟩
  · rename_i hreviewed
    refine .inr ⟨hcheck.trans (if_neg hreviewed), ?_⟩
    simp only [hshown]
    exact conducts_writeRecord fun _ written =>
      conducts_ask (reportDemand key (outcome.applyTo item)) (fun _ _ h => by cases h)
        fun _ _ => conducts_commit (written, outcome.applyTo item)

end Dialogue

/-! ### What the exchanges say -/

/-- The error of the call that is decided on after an exchange; none if the call goes on. A
statement is held against what is demanded in its place. -/
def decides (demand? : Option Demand) : Exchange → Option StoreError
  | ⟨.query _, reply⟩ => demand?.bind fun demand => demand.error? reply
  | ⟨.begin, .error failure⟩ | ⟨.commit, .error failure⟩ => some failure.storeError
  | _ => none

/-- The statement is the one that is demanded, and it is answered as needed. -/
def Demand.MetBy (demand : Demand) (sent : Query × Reply) : Prop :=
  sent.1 = demand.query ∧ demand.error? sent.2 = none

/-- The errors of a call that writes a record. -/
def IsRefusal : StoreError → Prop
  | .contentNotFound | .contentReviewed | .versionConflict | .unavailable | .database _ => True
  | _ => False

/-- The exchanges of a call that is made in a transaction, and what they say of its value. -/
structure AllOrNothing (demands : List Demand) (exchanges : List Exchange)
    (value : Except StoreError α) : Prop where
  /-- The statements are sent in their order. -/
  ordered : (queries exchanges).map Prod.fst <+: demands.map Demand.query
  /-- Statements are sent only in a transaction that has been opened and not yet ended. -/
  inside : ∀ before query reply after, exchanges = before ++ ⟨.query query, reply⟩ :: after →
    ∃ answer earlier, before = ⟨.begin, .ok answer⟩ :: earlier ∧
      ∀ exchange ∈ earlier, ∃ query, exchange.command = .query query
  /-- The changes are made to last exactly if the transaction has been opened and all of its
  statements have been sent and answered as needed. -/
  commit_iff : (∃ reply, ⟨.commit, reply⟩ ∈ exchanges) ↔
    (∃ answer, ⟨.begin, .ok answer⟩ ∈ exchanges) ∧
      List.Forall₂ Demand.MetBy demands (queries exchanges)
  /-- The call succeeds exactly if the changes last. -/
  ok_iff : (∃ result, value = .ok result) ↔ ∃ answer, ⟨.commit, .ok answer⟩ ∈ exchanges
  /-- The first reply that is not as needed decides on the error, and the changes are at most taken
  back after it. -/
  stops : ∀ before exchange after error, exchanges = before ++ exchange :: after →
    decides demands[(queries before).length]? exchange = some error →
      value = .error error ∧ ∀ later ∈ after, later.command = .rollback
  /-- An error has been decided on by a reply, unless there is no connection. -/
  caused : ∀ error, value = .error error → (exchanges = [] ∧ error = .unavailable) ∨
    ∃ before exchange after, exchanges = before ++ exchange :: after ∧
      decides demands[(queries before).length]? exchange = some error
  /-- There are no other errors. -/
  refusal : ∀ error, value = .error error → IsRefusal error
  /-- A transaction that has been opened lasts, or it is taken back, or its connection is gone. -/
  settled : (∃ answer, ⟨.begin, .ok answer⟩ ∈ exchanges) →
    (∃ answer, ⟨.commit, .ok answer⟩ ∈ exchanges) ∨ (∃ reply, ⟨.rollback, reply⟩ ∈ exchanges) ∨
      ∃ command, ⟨command, .error .disconnected⟩ ∈ exchanges

theorem Withdrawn.rollback {failure : Failure} {ending : List Exchange}
    (h : Withdrawn failure ending) : ∀ exchange ∈ ending, exchange.command = .rollback := by
  cases failure with
  | refused refusal =>
    obtain ⟨reply, rfl⟩ := h
    simp
  | disconnected =>
    obtain rfl : ending = [] := h
    simp

/-- Where nothing but a rollback follows, the first exchange is the one that decides. -/
theorem first_of_decides {first exchange : Exchange} {ending before after : List Exchange}
    {demand? : Option Demand} {error : StoreError}
    (taken : ∀ exchange ∈ ending, exchange.command = .rollback)
    (h : first :: ending = before ++ exchange :: after)
    (hdecides : decides demand? exchange = some error) :
    before = [] ∧ exchange = first ∧ after = ending := by
  cases before with
  | nil =>
    obtain ⟨rfl, rfl⟩ := List.cons.inj h
    exact ⟨rfl, rfl, rfl⟩
  | cons head before =>
    obtain ⟨-, rfl⟩ := List.cons.inj h
    have hrollback := taken exchange (by simp)
    obtain ⟨command, reply⟩ := exchange
    obtain rfl : command = .rollback := hrollback
    cases hdecides

theorem queries_of_rollback {exchanges : List Exchange}
    (taken : ∀ exchange ∈ exchanges, exchange.command = .rollback) : queries exchanges = [] := by
  refine List.filterMap_eq_nil_iff.2 fun exchange hmem => ?_
  simp only [taken exchange hmem]

theorem isRefusal_storeError (failure : Failure) : IsRefusal failure.storeError := by
  cases failure <;> trivial

namespace Course

variable {demands : List Demand} {exchanges : List Exchange} {value : Except StoreError α}

theorem ordered (h : Course demands exchanges value) :
    (queries exchanges).map Prod.fst <+: demands.map Demand.query := by
  induction h with
  | committed => simp
  | uncommitted withdrawn => simp [queries_of_rollback withdrawn.rollback]
  | met needed rest ih => simpa using ih
  | rejected => simp
  | failed withdrawn => simp [queries_of_rollback withdrawn.rollback]

/-- Before a statement there are only statements. -/
theorem inside (h : Course demands exchanges value) {before after : List Exchange} {query : Query}
    {reply : Reply} (hsplit : exchanges = before ++ ⟨.query query, reply⟩ :: after) :
    ∀ exchange ∈ before, ∃ query, exchange.command = .query query := by
  induction h generalizing before with
  | met needed rest ih =>
    cases before with
    | nil => simp
    | cons head before =>
      obtain ⟨rfl, hrest⟩ := List.cons.inj hsplit
      exact List.forall_mem_cons.2 ⟨⟨_, rfl⟩, ih hrest⟩
  | committed value answer =>
    cases before with
    | nil => simp
    | cons head before => simp at hsplit
  | rejected reply rejects =>
    match before with
    | [] => simp
    | [_] => simp at hsplit
    | _ :: _ :: _ => simp at hsplit
  | uncommitted withdrawn | failed withdrawn =>
    cases before with
    | nil => simp
    | cons head before =>
      obtain ⟨-, rfl⟩ := List.cons.inj hsplit
      exact absurd (withdrawn.rollback ⟨.query query, reply⟩ (by simp)) (by simp)

/-- The changes are made to last exactly if all statements have been answered as needed. -/
theorem commit_iff (h : Course demands exchanges value) :
    (∃ reply, ⟨.commit, reply⟩ ∈ exchanges) ↔
      List.Forall₂ Demand.MetBy demands (queries exchanges) := by
  induction h with
  | committed value answer => simp
  | uncommitted withdrawn => simp [queries_of_rollback withdrawn.rollback]
  | @met demand _ answer _ _ needed rest ih =>
    have hmet : demand.MetBy (demand.query, .ok answer) := ⟨rfl, needed⟩
    simp [ih, hmet]
  | @rejected demand _ answer error reply rejects =>
    have hnot : ¬demand.MetBy (demand.query, .ok answer) := by
      rintro ⟨-, hnone⟩
      cases hnone.symm.trans rejects
    simp [hnot]
  | @failed demand _ failure ending withdrawn =>
    have hnot : ¬demand.MetBy (demand.query, .error failure) := by
      rintro ⟨-, hnone⟩
      cases hnone
    have habsent : ∀ reply, (⟨.commit, reply⟩ : Exchange) ∉ ending := fun reply hmem =>
      absurd (withdrawn.rollback _ hmem) (by simp)
    simp [hnot, habsent]

theorem ok_iff (h : Course demands exchanges value) :
    (∃ result, value = .ok result) ↔ ∃ answer, ⟨.commit, .ok answer⟩ ∈ exchanges := by
  have habsent : ∀ {failure ending}, Withdrawn failure ending → ∀ answer,
      ⟨.commit, .ok answer⟩ ∉ ending := fun withdrawn answer hmem =>
    absurd (withdrawn.rollback _ hmem) (by simp)
  induction h with
  | committed value answer => simp
  | uncommitted withdrawn => simp [habsent withdrawn]
  | met needed rest ih => simp [ih]
  | rejected reply rejects => simp
  | failed withdrawn => simp [habsent withdrawn]

/-- The first reply that is not as needed decides. -/
theorem stops (h : Course demands exchanges value) {before after : List Exchange}
    {exchange : Exchange} {error : StoreError} (hsplit : exchanges = before ++ exchange :: after)
    (hdecides : decides demands[(queries before).length]? exchange = some error) :
    value = .error error ∧ ∀ later ∈ after, later.command = .rollback := by
  induction h generalizing before with
  | committed value answer =>
    obtain ⟨rfl, rfl, rfl⟩ := first_of_decides (by simp) hsplit hdecides
    cases hdecides
  | uncommitted withdrawn =>
    obtain ⟨rfl, rfl, rfl⟩ := first_of_decides withdrawn.rollback hsplit hdecides
    cases hdecides
    exact ⟨rfl, withdrawn.rollback⟩
  | met needed rest ih =>
    cases before with
    | nil =>
      obtain ⟨rfl, rfl⟩ := List.cons.inj hsplit
      cases needed.symm.trans hdecides
    | cons head before =>
      obtain ⟨rfl, hrest⟩ := List.cons.inj hsplit
      exact ih hrest hdecides
  | rejected reply rejects =>
    obtain ⟨rfl, rfl, rfl⟩ := first_of_decides (by simp) hsplit hdecides
    cases rejects.symm.trans hdecides
    exact ⟨rfl, by simp⟩
  | failed withdrawn =>
    obtain ⟨rfl, rfl, rfl⟩ := first_of_decides withdrawn.rollback hsplit hdecides
    cases hdecides
    exact ⟨rfl, withdrawn.rollback⟩

/-- An error has been decided on by a reply. -/
theorem caused (h : Course demands exchanges value) {error : StoreError}
    (herror : value = .error error) : ∃ before exchange after,
      exchanges = before ++ exchange :: after ∧
        decides demands[(queries before).length]? exchange = some error := by
  induction h with
  | committed value answer => cases herror
  | uncommitted withdrawn =>
    cases herror
    exact ⟨[], _, _, rfl, rfl⟩
  | met needed rest ih =>
    obtain ⟨before, exchange, after, rfl, hdecides⟩ := ih herror
    exact ⟨_ :: before, exchange, after, rfl, hdecides⟩
  | rejected reply rejects =>
    cases herror
    exact ⟨[], _, _, rfl, rejects⟩
  | failed withdrawn =>
    cases herror
    exact ⟨[], _, _, rfl, rfl⟩

theorem refusal (h : Course demands exchanges value)
    (known : ∀ demand ∈ demands, ∀ answer error, demand.rejects answer = some error →
      IsRefusal error) {error : StoreError} (herror : value = .error error) : IsRefusal error := by
  induction h with
  | committed value answer => cases herror
  | met needed rest ih => exact ih (fun demand hmem => known demand (by simp [hmem])) herror
  | rejected reply rejects =>
    cases herror
    exact known _ (by simp) _ _ rejects
  | uncommitted withdrawn | failed withdrawn =>
    cases herror
    exact isRefusal_storeError _

/-- The changes last, or they are taken back, or the connection is gone. -/
theorem settled (h : Course demands exchanges value) :
    (∃ answer, ⟨.commit, .ok answer⟩ ∈ exchanges) ∨ (∃ reply, ⟨.rollback, reply⟩ ∈ exchanges) ∨
      ∃ command, ⟨command, .error .disconnected⟩ ∈ exchanges := by
  have hending : ∀ {failure ending}, Withdrawn failure ending →
      (∃ reply, ⟨.rollback, reply⟩ ∈ ending) ∨ failure = .disconnected := by
    rintro (refusal | _) ending withdrawn
    · obtain ⟨reply, rfl⟩ := withdrawn
      exact .inl ⟨reply, by simp⟩
    · exact .inr rfl
  induction h with
  | committed value answer => exact .inl ⟨answer, by simp⟩
  | met needed rest ih => simpa using ih
  | rejected reply rejects => exact .inr (.inl ⟨reply, by simp⟩)
  | uncommitted withdrawn | failed withdrawn =>
    obtain ⟨reply, hmem⟩ | rfl := hending withdrawn
    · exact .inr (.inl ⟨reply, by simp [hmem]⟩)
    · exact .inr (.inr ⟨_, List.mem_cons_self⟩)

end Course

/-! ### Unreadable rows -/

/-- An attempt fails, if at all, with an error of the database. -/
def FailsInDatabase (attempt : Except StoreError α) : Prop :=
  ∀ error, attempt = .error error → ∃ message, error = .database message

namespace FailsInDatabase

theorem ok (value : α) : FailsInDatabase (.ok value) := fun _ h => by cases h

theorem bind {attempt : Except StoreError α} {next : α → Except StoreError β}
    (h : FailsInDatabase attempt) (hnext : ∀ value, FailsInDatabase (next value)) :
    FailsInDatabase (attempt >>= next) := by
  cases attempt with
  | error error =>
    intro other (herror : Except.error error = .error other)
    exact h other (by cases herror; rfl)
  | ok value => exact hnext value

theorem read (row : Row) (reader : Value → Option α) (column : Column) :
    FailsInDatabase (row.read reader column) := by
  intro error h
  rw [Row.read] at h
  split at h
  · cases h
  · cases h
    exact ⟨_, rfl⟩

theorem itemOfRow (row : Row) : FailsInDatabase (ContentItem.ofRow row) := by
  unfold ContentItem.ofRow
  iterate 16 refine (read row _ _).bind fun _ => ?_
  split
  · rintro _ ⟨⟩
    exact ⟨_, rfl⟩
  · exact ok _

theorem recordOfRow (row : Row) : FailsInDatabase (EngagementRecord.ofRow row) := by
  unfold EngagementRecord.ofRow
  iterate 11 refine (read row _ _).bind fun _ => ?_
  exact ok _

theorem isRefusal {attempt : Except StoreError α} (h : FailsInDatabase attempt)
    {error : StoreError} (herror : attempt = .error error) : IsRefusal error := by
  obtain ⟨message, rfl⟩ := h error herror
  trivial

end FailsInDatabase

theorem isRefusal_rejectsItem {check : ContentItem → Option StoreError}
    (hcheck : ∀ item error, check item = some error → IsRefusal error) {answer : Answered}
    {error : StoreError} (h : rejectsItem check answer = some error) : IsRefusal error := by
  rw [rejectsItem] at h
  split at h
  · cases h
    trivial
  · split at h
    · rename_i hread
      cases h
      exact (FailsInDatabase.itemOfRow _).isRefusal hread
    · exact hcheck _ _ h

theorem isRefusal_rejectsReviewed {outcome : ReportOutcome} {item : ContentItem}
    {error : StoreError} (h : rejectsReviewed outcome item = some error) : IsRefusal error := by
  rw [rejectsReviewed] at h
  split at h <;> cases h
  trivial

theorem isRefusal_rejectsWritten {answer : Answered} {error : StoreError}
    (h : rejectsWritten answer = some error) : IsRefusal error := by
  rw [rejectsWritten] at h
  split at h
  · cases h
    trivial
  · split at h
    · rename_i hread
      cases h
      exact (FailsInDatabase.recordOfRow _).isRefusal hread
    · cases h

/-- Whatever is demanded, answers are rejected with the errors of such calls. -/
theorem isRefusal_of_mem_demands {request : Request} {replies : List Reply} {demand : Demand}
    (hmem : demand ∈ demands request replies) {answer : Answered} {error : StoreError}
    (h : demand.rejects answer = some error) : IsRefusal error := by
  cases request with
  | putEngagement record =>
    obtain rfl := List.mem_singleton.1 hmem
    exact isRefusal_rejectsWritten h
  | commitVote record key change =>
    simp only [demands, List.mem_cons, List.not_mem_nil, or_false] at hmem
    obtain rfl | rfl := hmem
    · exact isRefusal_rejectsItem (fun _ _ h => by cases h) h
    · exact isRefusal_rejectsWritten h
  | commitReport record key outcome =>
    simp only [demands, List.cons_append, List.nil_append, List.mem_cons, List.mem_map] at hmem
    obtain rfl | rfl | ⟨item, -, rfl⟩ := hmem
    · exact isRefusal_rejectsItem (fun _ _ => isRefusal_rejectsReviewed) h
    · exact isRefusal_rejectsWritten h
    · cases h
  | _ => cases hmem

/-! ### Calls -/

namespace AllOrNothing

variable {demands : List Demand} {exchanges : List Exchange} {value : Except StoreError α}

/-- Nothing is sent without a connection. -/
theorem offline : AllOrNothing demands [] (.error .unavailable : Except StoreError α) where
  ordered := by simp
  inside before query reply after h := by simp at h
  commit_iff := by simp
  ok_iff := by simp
  stops before exchange after error h := by simp at h
  caused error h := by
    cases h
    exact .inl ⟨rfl, rfl⟩
  refusal error h := by
    cases h
    trivial
  settled := by simp

/-- Nothing follows if the transaction cannot be opened. -/
theorem unopened (failure : Failure) : AllOrNothing demands [⟨.begin, .error failure⟩]
    (.error failure.storeError : Except StoreError α) where
  ordered := by simp
  inside before query reply after h := by
    cases before with
    | nil => simp at h
    | cons head before => simp at h
  commit_iff := by simp
  ok_iff := by simp
  stops before exchange after error h hdecides := by
    obtain ⟨rfl, rfl, rfl⟩ := first_of_decides (by simp) h hdecides
    cases hdecides
    exact ⟨rfl, by simp⟩
  caused error h := by
    cases h
    exact .inr ⟨[], _, _, rfl, rfl⟩
  refusal error h := by
    cases h
    exact isRefusal_storeError failure
  settled := by simp

/-- A transaction takes its course once it has been opened. -/
theorem opened (answer : Answered) (course : Course demands exchanges value)
    (known : ∀ demand ∈ demands, ∀ answer error, demand.rejects answer = some error →
      IsRefusal error) :
    AllOrNothing demands (⟨.begin, .ok answer⟩ :: exchanges) value where
  ordered := course.ordered
  inside before query reply after h := by
    cases before with
    | nil => simp at h
    | cons head before =>
      obtain ⟨rfl, hrest⟩ := List.cons.inj h
      exact ⟨answer, before, rfl, course.inside hrest⟩
  commit_iff := by
    have hbegin : ∃ answer', (⟨.begin, .ok answer'⟩ : Exchange) ∈
        ⟨.begin, .ok answer⟩ :: exchanges := ⟨answer, by simp⟩
    simpa [hbegin] using course.commit_iff
  ok_iff := by simpa using course.ok_iff
  stops before exchange after error h hdecides := by
    cases before with
    | nil =>
      obtain ⟨rfl, rfl⟩ := List.cons.inj h
      cases hdecides
    | cons head before =>
      obtain ⟨rfl, hrest⟩ := List.cons.inj h
      exact course.stops hrest hdecides
  caused error h := by
    obtain ⟨before, exchange, after, rfl, hdecides⟩ := course.caused h
    exact .inr ⟨_ :: before, exchange, after, rfl, hdecides⟩
  refusal error h := course.refusal known h
  settled _ := by simpa using course.settled

end AllOrNothing

theorem exists_dialogue {request : Request} (h : isTransaction request = true) :
    ∃ dialogue, plan request = .transaction dialogue ∧ dialogue.Conducts (demands request) := by
  cases request with
  | putEngagement record => exact ⟨_, rfl, Dialogue.conducts_putEngagement record⟩
  | commitVote record key change => exact ⟨_, rfl, Dialogue.conducts_commitVote record key change⟩
  | commitReport record key outcome =>
    exact ⟨_, rfl, Dialogue.conducts_commitReport record key outcome⟩
  | _ => cases h

/-- Records are written all or nothing: a call that is made in a transaction sends its statements in
order, each once the one before has been answered as needed; it makes its changes last exactly if
all have been, and succeeds exactly if the changes then last; the first reply that is not as needed
ends it with the error of that reply. -/
theorem Store.answer_allOrNothing (store : Store) {σ : Type} (peer : Peer σ) {request : Request}
    (h : isTransaction request = true) (state : σ) :
    let (transcript, after) := store.answer peer request state
    ∃ exchanges, peer.exchanges transcript.sent state = (exchanges, after) ∧
      AllOrNothing (demands request ((queries exchanges).map Prod.snd)) exchanges
        transcript.value := by
  obtain ⟨dialogue, hplan, hconducts⟩ := exists_dialogue h
  cases hopen : store.isOpen with
  | false =>
    simp only [Store.answer, hopen, hplan, Plan.offline]
    exact ⟨[], rfl, .offline⟩
  | true =>
    rcases hbegin : peer.reply .begin state with ⟨failure | answer, opened⟩
    · simp only [Store.answer, hopen, hplan, Plan.run, hbegin, if_true, Peer.exchanges]
      exact ⟨_, rfl, .unopened failure⟩
    · obtain ⟨exchanges, hexchanges, course⟩ := hconducts σ peer opened
      simp only [Store.answer, hopen, hplan, Plan.run, hbegin, if_true, Peer.exchanges, hexchanges]
      exact ⟨_, rfl, .opened answer course fun _ hmem _ _ => isRefusal_of_mem_demands hmem⟩

end Postgres

namespace Sample

open Postgres

/-- A peer that gives the replies of a list, and is gone after the last one. -/
def script : Peer (List Reply) where
  reply
    | _, [] => (.error .disconnected, [])
    | _, reply :: replies => (reply, replies)

/-- The vote on condition of a version that is not the one in the database. -/
def staleVote : Request := .commitVote voted.written post.key { upVotes := 1 }

/-- The vote is counted, but no record has the version. -/
def conflict : List Reply :=
  [.ok default, .ok ⟨[Relation.contentItems.columns.zip votedPost.params], 1⟩, .ok default,
    .ok default]

theorem staleVote_allOrNothing :
    isTransaction staleVote = true ∧
      let (transcript, after) := Store.answer {} script staleVote conflict
      transcript = ⟨.error .versionConflict,
        [.begin, .query (adjustCounts post.key { upVotes := 1 }),
          .query (writeRecord voted.written), .rollback]⟩ ∧
      ∃ exchanges, script.exchanges transcript.sent conflict = (exchanges, after) ∧
        AllOrNothing (demands staleVote ((queries exchanges).map Prod.snd)) exchanges
          transcript.value := by
  exact ⟨rfl, rfl, Store.answer_allOrNothing {} script rfl conflict⟩

end Sample

end HiveForum
