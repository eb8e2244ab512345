import HiveForum.Proofs.Forum.Company
import HiveForum.Proofs.Forum.Serving
import Mathlib.Data.List.Perm.Subperm

/-!
# The ladder of a batch

A batch of records is deleted in one call after another. A call processes the keys that it submits,
except those that its answer leaves undone; a call that fails for the moment processes none. What is
left is submitted again after a pause, as long as attempts are left. So the batch climbs a ladder
(`Climbs`) with one call more than it has attempts at most, and all that there is to say about its
calls goes by induction on the climb: a call submits what the calls before it have not processed,
which is the invariant `unprocessed`.

The calls are read off the journal of the run, which lists its effects with their replies. Of the
store nothing is assumed but that it leaves undone no more than was submitted, and of the pauses
that no deadline cuts them short (`World.Batches`).

## Main definitions

* `World.journaled`: a world that enters every effect into a journal.
* `BatchCall`, `batchCalls`: a call that deletes a batch; the calls in a journal.
* `unprocessed`: the keys that some calls have not processed.
* `Climbs`: how a batch comes to its end.
* `Ladder`: what the calls of a batch and its outcome have to do with each other.

## Main results

* `World.Batches.exists_climbs`: every run of a batch climbs the ladder.
* `Climbs.ladder`: what holds of every climb.
* `Program.yields_deleteBatchFrom`: a batch on a host whose store is there.
* `deleteBatch_ladder`: the ladder of a batch, and how far it leads with a store in memory.
-/

namespace HiveForum

open Program

variable {σ : Type}

/-! ### Calls -/

/-- A world that enters every effect into a journal. -/
def World.journaled (world : World σ) : World (σ × List (Event σ)) where
  perform effect state :=
    let (reply, after) := world.perform effect state.1
    (reply, after, state.2 ++ [⟨effect, state.1, reply, after⟩])
  time state := world.time state.1
  setTime state time := (world.setTime state.1 time, state.2)

theorem World.shows_journaled (world : World σ) : world.journaled.Shows world Prod.fst where
  perform _ _ := rfl
  time _ := rfl
  setTime _ _ := rfl

/-- A call that deletes a batch of records. -/
structure BatchCall where
  keys : List EngagementKey
  reply : Except StoreError (List EngagementKey)

namespace BatchCall

/-- The keys that the call leaves undone: all of them if it fails. -/
def leaves (call : BatchCall) : List EngagementKey :=
  match call.reply with
  | .ok left => left
  | .error _ => call.keys

/-- The call submits a key and does not leave it undone. -/
def Processes (call : BatchCall) (key : EngagementKey) : Prop :=
  key ∈ call.keys ∧ key ∉ call.leaves

instance (call : BatchCall) (key : EngagementKey) : Decidable (call.Processes key) :=
  inferInstanceAs (Decidable (_ ∧ _))

/-- The call submits `pending` and leaves `rest` to be submitted again. -/
structure Spares (call : BatchCall) (pending rest : List EngagementKey) : Prop where
  keys_eq : call.keys = pending
  leaves_eq : call.leaves = rest
  ne_nil : rest ≠ []
  nodup : rest.Nodup
  subset : rest ⊆ pending
  transient : ∀ error, call.reply = .error error → error.isTransient = true

end BatchCall

/-- The call that an event is, if it deletes a batch. -/
def Event.batchCall? : Event σ → Option BatchCall
  | ⟨.store (.deleteEngagements keys), _, reply, _⟩ => some ⟨keys, reply⟩
  | _ => none

/-- The calls in a journal that delete batches. -/
def batchCalls (journal : List (Event σ)) : List BatchCall := journal.filterMap Event.batchCall?

/-- Those of some keys that none of the calls has processed. -/
def unprocessed (keys : List EngagementKey) (calls : List BatchCall) : List EngagementKey :=
  keys.filter fun key => decide (∀ call ∈ calls, ¬call.Processes key)

/-! ### Climbing -/

/-- How a batch comes to its end, with a number of attempts left. -/
inductive Climbs (settings : BackoffSettings) :
    Nat → List EngagementKey → List BatchCall → Outcome Unit → Prop
  | done {left : Nat} {pending : List EngagementKey} :
    Climbs settings left pending [⟨pending, .ok []⟩] (.ok ())
  | refused {left : Nat} {pending : List EngagementKey} {error : StoreError}
    (permanent : error.isTransient = false) :
    Climbs settings left pending [⟨pending, .error error⟩] (.error (.failed (.ofStore error)))
  | exhausted {pending rest : List EngagementKey} {call : BatchCall}
    (spares : call.Spares pending rest) :
    Climbs settings 0 pending [call]
      (.error (.failed (.retriesExhausted settings.maxAttempts rest.length)))
  /-- What is left is submitted again. -/
  | again {left : Nat} {pending rest : List EngagementKey} {call : BatchCall}
    {calls : List BatchCall} {outcome : Outcome Unit} (spares : call.Spares pending rest)
    (climbs : Climbs settings left rest calls outcome) :
    Climbs settings (left + 1) pending (call :: calls) outcome

/-- What the store answers to batches is a part of what was submitted, and no deadline cuts a pause
short. -/
structure World.Batches (world : World σ) : Prop where
  answers : ∀ {keys left : List EngagementKey} {state : σ}, keys.Nodup →
    (world.perform (.store (.deleteEngagements keys)) state).1 = .ok left →
      left.Nodup ∧ left ⊆ keys
  pauses : ∀ (delay : UInt64) (state : σ), (world.perform (.pause delay) state).1 = .ok ()

namespace World.Batches

variable {world : World σ} (h : world.Batches)

include h

theorem journaled : world.journaled.Batches where
  answers nodup hreply := h.answers nodup hreply
  pauses delay state := h.pauses delay state.1

end World.Batches

/-- What a batch does with the keys that a call has left. -/
def nextAttempt (settings : BackoffSettings) (rest : List EngagementKey) : Nat → Program Unit
  | 0 => fail (.retriesExhausted settings.maxAttempts rest.length)
  | left + 1 => randomWord.bind fun word =>
    (pause ((⟨settings, left⟩ : Backoff).delay word)).bind fun _ =>
      deleteBatchFrom settings left rest

/-- What a batch does with the reply to a call. -/
def afterReply (settings : BackoffSettings) (left : Nat) (pending : List EngagementKey)
    (reply : Except StoreError (List EngagementKey)) : Program Unit :=
  match reply with
  | .ok [] => .done ()
  | _ => (ofExcept .ofStore (remainingKeys pending reply)).bind (nextAttempt settings · left)

theorem deleteBatchFrom_eq (settings : BackoffSettings) (left : Nat)
    (pending : List EngagementKey) :
    deleteBatchFrom settings left pending =
      .perform (.store (.deleteEngagements pending)) (afterReply settings left pending) := by
  rw [deleteBatchFrom.eq_def]
  refine congrArg _ (funext fun reply => ?_)
  obtain error | undone := reply
  · cases left <;> rfl
  · cases undone <;> cases left <;> rfl

variable {settings : BackoffSettings} {left : Nat} {pending rest : List EngagementKey}

theorem afterReply_of_left (h : rest ≠ []) :
    afterReply settings left pending (.ok rest) = nextAttempt settings rest left := by
  cases rest with
  | nil => exact absurd rfl h
  | cons key keys => rfl

theorem afterReply_of_permanent {error : StoreError} (h : error.isTransient = false) :
    afterReply settings left pending (.error error) = .fail (.ofStore error) := by
  rw [afterReply, remainingKeys, if_neg (by simp [h])]
  · rfl
  · exact fun h => by cases h

theorem afterReply_of_spares {reply : Except StoreError (List EngagementKey)}
    (h : (⟨pending, reply⟩ : BatchCall).Spares pending rest) :
    afterReply settings left pending reply = nextAttempt settings rest left := by
  obtain ⟨-, hleaves, hne, -, -, htransient⟩ := h
  cases reply with
  | ok undone =>
    obtain rfl : undone = rest := hleaves
    exact afterReply_of_left hne
  | error error =>
    obtain rfl : pending = rest := hleaves
    rw [afterReply, remainingKeys, if_pos (htransient error rfl)]
    · rfl
    · exact fun h => by cases h

/-- A call deletes all that it submits, fails for good, or spares some keys. -/
theorem World.Batches.reply_cases {world : World σ} (h : world.Batches) (nodup : pending.Nodup)
    (nonempty : pending ≠ []) (state : σ) :
    let reply := (world.perform (.store (.deleteEngagements pending)) state).1
    reply = .ok [] ∨ (∃ error, reply = .error error ∧ error.isTransient = false) ∨
      ∃ rest, (⟨pending, reply⟩ : BatchCall).Spares pending rest := by
  intro reply
  cases hreply : reply with
  | ok rest =>
    obtain ⟨hnodup, hsubset⟩ := h.answers nodup hreply
    obtain rfl | hne := eq_or_ne rest []
    · exact .inl rfl
    · exact .inr (.inr ⟨rest, rfl, rfl, hne, hnodup, hsubset, fun _ h => by cases h⟩)
  | error error =>
    cases htransient : error.isTransient with
    | false => exact .inr (.inl ⟨error, rfl, htransient⟩)
    | true =>
      refine .inr (.inr ⟨pending, rfl, rfl, nonempty, nodup, List.Subset.refl _, ?_⟩)
      rintro other ⟨⟩
      exact htransient

/-- After a pause, what is left is submitted again. -/
private theorem run_nextAttempt {world : World σ} (h : world.Batches) (state : σ)
    (journal : List (Event σ)) :
    ∃ after events, batchCalls events = [] ∧
      (nextAttempt settings rest (left + 1)).run world.journaled (state, journal) =
        (deleteBatchFrom settings left rest).run world.journaled (after, journal ++ events) := by
  let word := world.perform .randomWord state
  let delay := (⟨settings, left⟩ : Backoff).delay word.1
  let paused := world.perform (.pause delay) word.2
  refine ⟨paused.2, [⟨.randomWord, state, word.1, word.2⟩,
    ⟨.pause delay, word.2, paused.1, paused.2⟩], rfl, ?_⟩
  have hrun : (nextAttempt settings rest (left + 1)).run world.journaled (state, journal) =
      ((ofExcept .storeUnavailable paused.1).bind fun _ =>
        deleteBatchFrom settings left rest).run world.journaled (paused.2,
          (journal ++ [⟨.randomWord, state, word.1, word.2⟩]) ++
            [⟨.pause delay, word.2, paused.1, paused.2⟩]) := rfl
  rw [hrun, h.pauses delay word.2, List.append_assoc]
  rfl

/-- A batch climbs the ladder if it does so after a call that spares some keys. -/
private theorem exists_climbs_of_next {world : World σ} (h : world.Batches) (nodup : pending.Nodup)
    (nonempty : pending ≠ []) (state : σ) (journal : List (Event σ))
    (next : ∀ {call : BatchCall} {rest : List EngagementKey}, call.Spares pending rest →
      ∀ (after : σ) (journal : List (Event σ)), ∃ events,
        ((nextAttempt settings rest left).run world.journaled (after, journal)).2.2 =
          journal ++ events ∧
        Climbs settings left pending (call :: batchCalls events)
          ((nextAttempt settings rest left).run world.journaled (after, journal)).1) :
    ∃ events, ((deleteBatchFrom settings left pending).run world.journaled (state, journal)).2.2 =
        journal ++ events ∧
      Climbs settings left pending (batchCalls events)
        ((deleteBatchFrom settings left pending).run world.journaled (state, journal)).1 := by
  have hreply := h.reply_cases nodup nonempty state
  rw [deleteBatchFrom_eq]
  rcases hperform : world.perform (.store (.deleteEngagements pending)) state with ⟨reply, after⟩
  rw [hperform] at hreply
  let event : Event σ := ⟨.store (.deleteEngagements pending), state, reply, after⟩
  have hrun : (Program.perform (.store (.deleteEngagements pending))
      (afterReply settings left pending)).run world.journaled (state, journal) =
        (afterReply settings left pending reply).run world.journaled
          (after, journal ++ [event]) := by
    have hcall : (Program.perform (.store (.deleteEngagements pending))
        (afterReply settings left pending)).run world.journaled (state, journal) =
          (fun result : (Effect.store (.deleteEngagements pending)).Reply × σ =>
            (afterReply settings left pending result.1).run world.journaled
              (result.2, journal ++ [⟨_, state, result.1, result.2⟩]))
            (world.perform (.store (.deleteEngagements pending)) state) := rfl
    rw [hcall, hperform]
  rw [hrun]
  obtain hdone | ⟨error, hrefused, permanent⟩ | ⟨rest, spares⟩ := hreply
  · obtain rfl : reply = .ok [] := hdone
    exact ⟨[event], rfl, .done⟩
  · obtain rfl : reply = .error error := hrefused
    rw [afterReply_of_permanent permanent]
    exact ⟨[event], rfl, .refused permanent⟩
  · rw [afterReply_of_spares spares]
    obtain ⟨events, hevents, hclimbs⟩ := next spares after (journal ++ [event])
    exact ⟨event :: events, by rw [hevents, List.append_assoc]; rfl, hclimbs⟩

/-- Every run of a batch climbs the ladder. -/
theorem exists_climbs (settings : BackoffSettings) (left : Nat) {world : World σ}
    (h : world.Batches) (nodup : pending.Nodup) (nonempty : pending ≠ []) (state : σ)
    (journal : List (Event σ)) :
    ∃ events, ((deleteBatchFrom settings left pending).run world.journaled (state, journal)).2.2 =
        journal ++ events ∧
      Climbs settings left pending (batchCalls events)
        ((deleteBatchFrom settings left pending).run world.journaled (state, journal)).1 := by
  induction left generalizing pending state journal with
  | zero =>
    refine exists_climbs_of_next h nodup nonempty state journal fun spares after journal => ?_
    exact ⟨[], (List.append_nil _).symm, .exhausted spares⟩
  | succ left ih =>
    refine exists_climbs_of_next h nodup nonempty state journal fun spares after journal => ?_
    obtain ⟨later, paused, hpaused, hrun⟩ := run_nextAttempt h after journal
    obtain ⟨events, hevents, hclimbs⟩ := ih spares.nodup spares.ne_nil later (journal ++ paused)
    refine ⟨paused ++ events, ?_, ?_⟩
    · rw [hrun, hevents, List.append_assoc]
    · rw [hrun, batchCalls, List.filterMap_append, ← batchCalls, hpaused]
      exact .again spares hclimbs

/-! ### Every climb -/

variable {call : BatchCall} {calls : List BatchCall} {outcome : Outcome Unit}

theorem unprocessed_nil (keys : List EngagementKey) : unprocessed keys [] = keys :=
  List.filter_eq_self.2 fun _ _ => decide_eq_true fun _ h => by cases h

/-- A call that spares some keys has processed the others. -/
theorem BatchCall.Spares.unprocessed_cons (h : call.Spares pending rest) (nodup : pending.Nodup)
    (calls : List BatchCall) :
    (unprocessed pending (call :: calls)).Perm (unprocessed rest calls) := by
  have hrest : (pending.filter fun key => decide ¬call.Processes key).Perm rest := by
    refine (List.perm_ext_iff_of_nodup (nodup.filter _) h.nodup).2 fun key => ?_
    rw [List.mem_filter, decide_eq_true_iff, BatchCall.Processes, h.keys_eq, h.leaves_eq]
    exact ⟨fun hkey => by_contra fun hnot => hkey.2 ⟨hkey.1, hnot⟩,
      fun hkey => ⟨h.subset hkey, fun hnot => hnot.2 hkey⟩⟩
  have hsplit : unprocessed pending (call :: calls) =
      unprocessed (pending.filter fun key => decide ¬call.Processes key) calls := by
    rw [unprocessed, unprocessed, List.filter_filter]
    simp only [List.forall_mem_cons, Bool.decide_and, Bool.and_comm]
  rw [hsplit]
  exact hrest.filter _

theorem BatchCall.Spares.unprocessed_eq_nil_iff (h : call.Spares pending rest)
    (nodup : pending.Nodup) (calls : List BatchCall) :
    unprocessed pending (call :: calls) = [] ↔ unprocessed rest calls = [] := by
  rw [← List.length_eq_zero_iff, (h.unprocessed_cons nodup calls).length_eq,
    List.length_eq_zero_iff]

namespace Climbs

theorem length_le (h : Climbs settings left pending calls outcome) : calls.length ≤ left + 1 := by
  induction h with
  | done => exact Nat.le_add_left 1 _
  | refused => exact Nat.le_add_left 1 _
  | exhausted => exact Nat.le_refl _
  | again _ _ ih => exact Nat.succ_le_succ ih

theorem exists_cons (h : Climbs settings left pending calls outcome) :
    ∃ first more, calls = first :: more ∧ first.keys = pending := by
  cases h with
  | done => exact ⟨_, _, rfl, rfl⟩
  | refused => exact ⟨_, _, rfl, rfl⟩
  | exhausted spares => exact ⟨_, _, rfl, spares.keys_eq⟩
  | again spares => exact ⟨_, _, rfl, spares.keys_eq⟩

theorem keys_subset (h : Climbs settings left pending calls outcome) :
    ∀ call ∈ calls, call.keys ⊆ pending := by
  induction h with
  | done => exact List.forall_mem_singleton.2 (List.Subset.refl _)
  | refused => exact List.forall_mem_singleton.2 (List.Subset.refl _)
  | exhausted spares => exact List.forall_mem_singleton.2 (spares.keys_eq ▸ List.Subset.refl _)
  | again spares _ ih =>
    exact List.forall_mem_cons.2 ⟨spares.keys_eq ▸ List.Subset.refl _,
      fun call hcall => List.Subset.trans (ih call hcall) spares.subset⟩

/-- A call submits the keys that those before it have not processed. -/
theorem submits (h : Climbs settings left pending calls outcome) (nodup : pending.Nodup)
    {before after : List BatchCall} (hcalls : calls = before ++ call :: after) :
    call.keys.Perm (unprocessed pending before) := by
  induction before generalizing left pending calls with
  | nil =>
    obtain ⟨first, more, hfirst, hkeys⟩ := h.exists_cons
    rw [hfirst] at hcalls
    obtain ⟨rfl, -⟩ := List.cons.inj hcalls
    rw [hkeys, unprocessed_nil]
  | cons earlier before ih =>
    cases h with
    | done => simp at hcalls
    | refused => simp at hcalls
    | exhausted => simp at hcalls
    | again spares climbs =>
      obtain ⟨rfl, rfl⟩ := List.cons.inj hcalls
      exact (ih climbs spares.nodup rfl).trans (spares.unprocessed_cons nodup before).symm

theorem once (h : Climbs settings left pending calls outcome) :
    calls.Pairwise fun call later => ∀ key, call.Processes key → key ∉ later.keys := by
  induction h with
  | done => exact List.pairwise_singleton _ _
  | refused => exact List.pairwise_singleton _ _
  | exhausted => exact List.pairwise_singleton _ _
  | again spares climbs ih =>
    refine List.pairwise_cons.2 ⟨fun later hlater key processed hkey => processed.2 ?_, ih⟩
    rw [spares.leaves_eq]
    exact climbs.keys_subset later hlater hkey

/-- The batch succeeds if all keys have been processed. -/
theorem ok_iff (h : Climbs settings left pending calls outcome) (nodup : pending.Nodup)
    (nonempty : pending ≠ []) : outcome = .ok () ↔ unprocessed pending calls = [] := by
  induction h with
  | @done _ pending =>
    refine iff_of_true rfl (List.filter_eq_nil_iff.2 fun key hkey => ?_)
    simp [BatchCall.Processes, BatchCall.leaves, hkey]
  | @refused _ pending error _ =>
    refine iff_of_false (fun h => by cases h) ?_
    obtain ⟨key, hkey⟩ := List.exists_mem_of_ne_nil _ nonempty
    refine List.ne_nil_of_mem (a := key) (List.mem_filter.2 ⟨hkey, ?_⟩)
    simp [BatchCall.Processes, BatchCall.leaves]
  | exhausted spares =>
    rw [spares.unprocessed_eq_nil_iff nodup, unprocessed_nil]
    exact iff_of_false (fun h => by cases h) spares.ne_nil
  | again spares _ ih =>
    rw [spares.unprocessed_eq_nil_iff nodup]
    exact ih spares.nodup spares.ne_nil

/-- A failure for good ends the batch at once. -/
theorem refused_at_once (h : Climbs settings left pending calls outcome) {error : StoreError}
    (hcall : call ∈ calls) (hreply : call.reply = .error error)
    (permanent : error.isTransient = false) :
    outcome = .error (.failed (.ofStore error)) ∧ ∃ before, calls = before ++ [call] := by
  induction h with
  | done =>
    obtain rfl := List.mem_singleton.1 hcall
    cases hreply
  | refused =>
    obtain rfl := List.mem_singleton.1 hcall
    cases hreply
    exact ⟨rfl, [], rfl⟩
  | exhausted spares =>
    obtain rfl := List.mem_singleton.1 hcall
    rw [spares.transient error hreply] at permanent
    cases permanent
  | again spares _ ih =>
    obtain rfl | hcall := List.mem_cons.1 hcall
    · rw [spares.transient error hreply] at permanent
      cases permanent
    · obtain ⟨houtcome, before, rfl⟩ := ih hcall
      exact ⟨houtcome, _ :: before, rfl⟩

/-- Without such a failure the batch succeeds, or all attempts have been used up. -/
theorem ends (h : Climbs settings left pending calls outcome) (nodup : pending.Nodup) :
    outcome = .ok () ∨
      (∃ call ∈ calls, ∃ error, call.reply = .error error ∧ error.isTransient = false) ∨
        calls.length = left + 1 ∧ outcome = .error (.failed
          (.retriesExhausted settings.maxAttempts (unprocessed pending calls).length)) := by
  induction h with
  | done => exact .inl rfl
  | refused permanent => exact .inr (.inl ⟨_, List.mem_singleton_self _, _, rfl, permanent⟩)
  | exhausted spares =>
    rw [(spares.unprocessed_cons nodup []).length_eq, unprocessed_nil]
    exact .inr (.inr ⟨rfl, rfl⟩)
  | @again _ _ _ first calls _ spares _ ih =>
    rw [(spares.unprocessed_cons nodup calls).length_eq]
    refine (ih spares.nodup).imp_right (.imp (fun ⟨call, hcall, hrefused⟩ => ?_)
      (.imp_left fun hlength => congrArg (· + 1) hlength))
    exact ⟨call, List.mem_cons_of_mem first hcall, hrefused⟩

end Climbs

/-- What the calls of a batch and its outcome have to do with each other. -/
structure Ladder (attempts : Nat) (keys : List EngagementKey) (calls : List BatchCall)
    (outcome : Outcome Unit) : Prop where
  /-- There is one call more than there are attempts at most. -/
  length_le : calls.length ≤ attempts + 1
  /-- A call submits the keys that those before it have not processed. -/
  submits : ∀ before call after, calls = before ++ call :: after →
    call.keys.Perm (unprocessed keys before)
  /-- A key that has been processed is not submitted again. -/
  once : calls.Pairwise fun call later => ∀ key, call.Processes key → key ∉ later.keys
  /-- The batch succeeds if all keys have been processed. -/
  ok_iff : outcome = .ok () ↔ unprocessed keys calls = []
  /-- A failure for good ends the batch at once. -/
  refused : ∀ call ∈ calls, ∀ error, call.reply = .error error → error.isTransient = false →
    outcome = .error (.failed (.ofStore error)) ∧ ∃ before, calls = before ++ [call]
  ends : outcome = .ok () ∨
    (∃ call ∈ calls, ∃ error, call.reply = .error error ∧ error.isTransient = false) ∨
      calls.length = attempts + 1 ∧ outcome =
        .error (.failed (.retriesExhausted attempts (unprocessed keys calls).length))

/-- Every climb from the lowest rung is a ladder. -/
theorem Climbs.ladder (h : Climbs settings settings.maxAttempts pending calls outcome)
    (nodup : pending.Nodup) (nonempty : pending ≠ []) :
    Ladder settings.maxAttempts pending calls outcome where
  length_le := h.length_le
  submits _ _ _ hcalls := h.submits nodup hcalls
  once := h.once
  ok_iff := h.ok_iff nodup nonempty
  refused _ hcall _ hreply permanent := h.refused_at_once hcall hreply permanent
  ends := h.ends nodup

/-! ### Stores in memory -/

theorem StoreState.removeRecords_append (store : StoreState) (keys more : List EngagementKey) :
    store.removeRecords (keys ++ more) = (store.removeRecords keys).removeRecords more :=
  congrArg (fun engagement => { store with engagement }) List.foldl_append

theorem StoreState.reply_deleteEngagements (store : StoreState) (limits : QueryLimits)
    {keys : List EngagementKey} (small : keys.length ≤ Limit.batchWrite) :
    store.reply limits (.deleteEngagements keys) =
      (.ok (keys.drop limits.writeCapacity),
        store.removeRecords (keys.take limits.writeCapacity)) := by
  rw [reply, perform, checkBatch, if_neg (Nat.not_lt.2 small)]

/-- What a host answers to a batch is a part of what was submitted. -/
theorem Host.callStore_deleteEngagements (host : Host) {session : Session}
    {keys left : List EngagementKey}
    (h : (host.callStore session (.deleteEngagements keys)).1 = .ok left) :
    left = keys.drop host.store.writeCapacity := by
  obtain ⟨time, ⟨error, hcall⟩ | hcall⟩ :=
    host.callStore_withContents session (.deleteEngagements keys)
  · have hself : host.callStore session (.deleteEngagements keys) = _ := hcall host.store.state
    rw [hself] at h
    cases h
  · have hself : host.callStore session (.deleteEngagements keys) = _ := hcall host.store.state
    rw [hself] at h
    by_cases small : keys.length ≤ Limit.batchWrite
    · rw [StoreState.reply_deleteEngagements _ _ small] at h
      exact (Except.ok.inj h).symm
    · rw [StoreState.reply, StoreState.perform, checkBatch, if_pos (Nat.not_le.1 small)] at h
      cases h

theorem Host.batches_worldAmong (others : Company) : (worldAmong {} others).Batches where
  answers {keys left state} nodup h := by
    obtain rfl := callStore_deleteEngagements (state.1.leftBy others state.2) h
    exact ⟨nodup.drop, List.drop_subset _ _⟩
  pauses _ _ := rfl

namespace Program

variable {host start : Host} {contents : StoreState} {sent : List Notification}
  {stamps : StampClock} {claim : Outcome Unit → Host → Prop}

theorem yields_nextAttempt (h : start.Leaves contents sent stamps host)
    (hnext : ∀ later, start.Leaves contents sent stamps later →
      (deleteBatchFrom settings left rest).Yields later claim) :
    (nextAttempt settings rest (left + 1)).Yields host claim := by
  obtain ⟨⟨available, waits, timely⟩, directory, limits, hcontents, hsent, hstamps⟩ := h
  exact hnext _ ⟨⟨available, waits, timely⟩, directory, limits, hcontents, hsent, hstamps⟩

/-- A call takes as many keys as the store has capacity for. -/
theorem yields_deleteBatchFrom_of_next (h : start.Leaves contents sent stamps host)
    (small : pending.length ≤ Limit.batchWrite)
    (fits : pending.length ≤ start.store.writeCapacity →
      ∀ later, start.Leaves (contents.removeRecords pending) sent stamps later →
        claim (.ok ()) later)
    (next : start.store.writeCapacity < pending.length →
      ∀ later, start.Leaves (contents.removeRecords (pending.take start.store.writeCapacity)) sent
          stamps later →
        (nextAttempt settings (pending.drop start.store.writeCapacity) left).Yields later claim) :
    (deleteBatchFrom settings left pending).Yields host claim := by
  have hreply : contents.reply start.store.limits (.deleteEngagements pending) =
      (.ok (pending.drop start.store.writeCapacity),
        contents.removeRecords (pending.take start.store.writeCapacity)) :=
    contents.reply_deleteEngagements start.store.limits small
  rw [deleteBatchFrom_eq]
  refine yields_store h fun later hlater => ?_
  rw [hreply] at hlater ⊢
  obtain hlt | hle := Nat.lt_or_ge start.store.writeCapacity pending.length
  · have hne : pending.drop start.store.writeCapacity ≠ [] := by
      rw [Ne, List.drop_eq_nil_iff]
      omega
    dsimp only
    rw [afterReply_of_left hne]
    exact next hlt later hlater
  · rw [List.take_of_length_le hle] at hlater
    rw [List.drop_of_length_le hle]
    exact fits hle later hlater

/-- On a host whose store is there, a batch gets as far as the capacity of the store and the
attempts allow. -/
theorem yields_deleteBatchFrom (settings : BackoffSettings) (left : Nat)
    (h : start.Leaves contents sent stamps host)
    (small : pending.length ≤ Limit.batchWrite) :
    let reach := start.store.writeCapacity * (left + 1)
    (deleteBatchFrom settings left pending).Yields host fun outcome later =>
      outcome = (if pending.length ≤ reach then .ok () else
        .error (.failed (.retriesExhausted settings.maxAttempts (pending.length - reach)))) ∧
      start.Leaves (contents.removeRecords (pending.take reach)) sent stamps later := by
  induction left generalizing host contents pending with
  | zero =>
    rw [Nat.zero_add, Nat.mul_one]
    refine yields_deleteBatchFrom_of_next h small (fun hle later hlater => ?_)
      fun hlt later hlater => ?_
    · rw [if_pos hle, List.take_of_length_le hle]
      exact ⟨rfl, hlater⟩
    · rw [if_neg (Nat.not_le.2 hlt), ← List.length_drop]
      exact ⟨rfl, hlater⟩
  | succ left ih =>
    rw [Nat.mul_succ, Nat.add_comm]
    refine yields_deleteBatchFrom_of_next h small (fun hle later hlater => ?_)
      fun hlt later hlater => yields_nextAttempt hlater fun last hlast => ?_
    · have hle' : pending.length ≤
          start.store.writeCapacity + start.store.writeCapacity * (left + 1) := by omega
      rw [if_pos hle', List.take_of_length_le hle']
      exact ⟨rfl, hlater⟩
    · have hsmall : (pending.drop start.store.writeCapacity).length ≤ Limit.batchWrite := by
        rw [List.length_drop]
        omega
      have hrest := ih hlast hsmall
      rw [List.take_add, StoreState.removeRecords_append]
      dsimp only at hrest
      rw [List.length_drop, Nat.sub_sub] at hrest
      simp only [Nat.sub_le_iff_le_add'] at hrest
      exact hrest

end Program

/-! ### The ladder -/

/-- Where no deadline is set, a batch is a ladder, whatever the store answers to its calls. On a
host whose store is there, each call takes as many keys as the store has capacity for: the batch
succeeds if these are all, or else it gives up with those that are left. -/
theorem deleteBatch_ladder (settings : BackoffSettings) {keys : List EngagementKey}
    (nonempty : keys ≠ []) (small : keys.length ≤ Limit.batchWrite) (distinct : keys.Nodup) :
    (∀ {σ : Type} (world : World σ) (state : σ), world.Batches →
      ∃ outcome after journal, (deleteBatch settings keys).run world state = (outcome, after) ∧
        (deleteBatch settings keys).run world.journaled (state, []) = (outcome, after, journal) ∧
          Ladder settings.maxAttempts keys (batchCalls journal) outcome) ∧
      ∀ host : Host, host.Serving →
        let reach := host.store.writeCapacity * (settings.maxAttempts + 1)
        let result := (deleteBatch settings keys).run (Host.world {}) host
        result.1 = (if keys.length ≤ reach then .ok () else .error (.failed
          (.retriesExhausted settings.maxAttempts (keys.length - reach)))) ∧
          result.2.store.state = host.store.state.removeRecords (keys.take reach) := by
  refine ⟨fun {σ} world state batches => ?_, fun host serving => ?_⟩
  · obtain ⟨events, hevents, hclimbs⟩ := exists_climbs settings settings.maxAttempts
      batches distinct nonempty state []
    have hrun := run_shows world.shows_journaled (deleteBatch settings keys) (state, [])
    have hladder := hclimbs.ladder distinct nonempty
    rw [List.nil_append] at hevents
    rw [← hevents] at hladder
    exact ⟨_, _, _, hrun, rfl, hladder⟩
  · obtain ⟨houtcome, hleaves⟩ := yields_deleteBatchFrom settings
      settings.maxAttempts serving.leaves small
    exact ⟨houtcome, hleaves.contents⟩

namespace Sample

/-- The keys of the records of four users on one item. -/
def fourKeys : List EngagementKey :=
  ["ann", "ben", "eva", "tom"].map fun name => ⟨⟨name⟩, ⟨.ofNat 1⟩⟩

/-- Two retries, at short intervals. -/
def twoRetries : BackoffSettings := ⟨1, 2, 2⟩

/-- A host whose store removes one record at a time. -/
def narrowHost : Host := { store := { writeCapacity := 1 }, stamps := ⟨0, 0⟩ }

/-- Others switch the store off for the first call, and then let it remove two records at a time. -/
def intermittent : Company := fun journal host =>
  ({ host.store with available := !journal.isEmpty, writeCapacity := 2 }, host.randoms)

/-- Two retries are enough where the store fails once and then removes two records at a time. Where
it removes one record at a time, the last one is left. -/
theorem fourKeys_ladder :
    let run := (deleteBatch twoRetries fourKeys).run
      (Host.worldAmong {} intermittent).journaled ((narrowHost, []), [])
    fourKeys ≠ [] ∧ fourKeys.length ≤ Limit.batchWrite ∧ fourKeys.Nodup ∧
      (Host.worldAmong {} intermittent).Batches ∧ narrowHost.Serving ∧
      (batchCalls run.2.2).map (·.keys.length) = [4, 4, 2] ∧
      Ladder 2 fourKeys (batchCalls run.2.2) run.1 ∧ run.1 = .ok () ∧
      ((deleteBatch twoRetries fourKeys).run (Host.world {}) narrowHost).1 =
        .error (.failed (.retriesExhausted 2 1)) := by
  intro run
  have nonempty : fourKeys ≠ [] := List.cons_ne_nil _ _
  have small : fourKeys.length ≤ Limit.batchWrite := by decide
  have distinct : fourKeys.Nodup := by decide
  have serving : narrowHost.Serving := ⟨rfl, by decide, by decide⟩
  have batches := Host.batches_worldAmong intermittent
  obtain ⟨ladders, hosts⟩ := deleteBatch_ladder twoRetries nonempty small distinct
  obtain ⟨outcome, after, journal, -, hrun, ladder⟩ := ladders _ (narrowHost, []) batches
  obtain ⟨alone, -⟩ := hosts narrowHost serving
  have hladder : Ladder 2 fourKeys (batchCalls run.2.2) run.1 := by
    rw [show run = (outcome, after, journal) from hrun]
    exact ladder
  exact ⟨nonempty, small, distinct, batches, serving, by decide +kernel, hladder,
    by decide +kernel, alone⟩

end Sample

end HiveForum
