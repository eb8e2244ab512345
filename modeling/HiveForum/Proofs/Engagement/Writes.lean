import HiveForum.Proofs.Forum.Turns

/-!
# Versions as numbers of writes

The journal of operations in turn tells how often a record has been written since it was last
absent. The version of the record is that number.

## Main definitions

* `Journal.writes`: the number of writes of a record since it was last absent.
* `Journal.Counts`: the stored versions are these numbers.

## Main results

* `Site.Answer.counts`: one effect.
* `Chronicle.counts`: operations in turn.
-/

namespace HiveForum

/-- The number of writes of a record after one more effect: a record that is absent afterwards has
none. -/
def Event.writes (key : EngagementKey) (before : Nat) (event : Event Forum) : Nat :=
  match event.after.store.record? key with
  | none => 0
  | some _ => if event.stored?.map (·.key) = some key then before + 1 else before

/-- The number of writes of a record since it was last absent. -/
def Journal.writes (journal : Journal) (key : EngagementKey) : Nat :=
  journal.foldl (Event.writes key) 0

/-- Each stored record was written once at least, and its version is the number of its writes. -/
def Journal.Counts (journal : Journal) (store : StoreState) : Prop :=
  ∀ key, match store.record? key with
    | none => journal.writes key = 0
    | some record => 1 ≤ journal.writes key ∧ record.version = .ofNat (journal.writes key)

theorem Journal.writes_concat (journal : Journal) (event : Event Forum) (key : EngagementKey) :
    Journal.writes (journal ++ [event]) key = event.writes key (journal.writes key) := by
  rw [writes, List.foldl_concat]
  rfl

namespace Journal

variable {journal : Journal} {event : Event Forum}

/-- The stored version is the number of writes, whether or not there is a record. -/
theorem Counts.storedVersion {store : StoreState} (h : journal.Counts store)
    (key : EngagementKey) : store.storedVersion key = .ofNat (journal.writes key) := by
  have hkey := h key
  rw [StoreState.storedVersion]
  cases hrecord : store.record? key with
  | none =>
    rw [hrecord] at hkey
    rw [hkey]
    rfl
  | some record =>
    rw [hrecord] at hkey
    exact hkey.2

theorem Counts.unwritten (h : journal.Counts event.before.store) (unstored : event.stored? = none)
    (origin : ∀ key record, event.after.store.record? key = some record →
      event.before.store.record? key = some record) :
    Journal.Counts (journal ++ [event]) event.after.store := by
  intro key
  rw [writes_concat, Event.writes]
  cases hrecord : event.after.store.record? key with
  | none => rfl
  | some record =>
    have hkey := h key
    rw [origin key record hrecord] at hkey
    simpa [unstored] using hkey

/-- An effect that writes a record of the stored version. -/
theorem Counts.written (h : journal.Counts event.before.store) {record : EngagementRecord}
    (stored : event.stored? = some record.written)
    (current : event.before.store.storedVersion record.key = record.version)
    (after : ∀ key, event.after.store.record? key =
      (event.before.store.withRecord record).record? key) :
    Journal.Counts (journal ++ [event]) event.after.store := by
  intro key
  rw [writes_concat, Event.writes, after, StoreState.record?_withRecord, stored]
  have hwritten : record.written.key = record.key := rfl
  simp only [Option.map_some, hwritten, Option.some.injEq]
  by_cases hkey : key = record.key
  · subst hkey
    simp only [if_true]
    refine ⟨Nat.succ_pos _, ?_⟩
    change record.version + 1 = _
    rw [← current, h.storedVersion, Int64.ofNat_add]
    rfl
  · simp only [if_neg hkey, if_neg (Ne.symm hkey)]
    have hbefore := h key
    cases hrecord : event.before.store.record? key with
    | none => rfl
    | some other =>
      rw [hrecord] at hbefore
      exact hbefore

end Journal

/-- Whatever an effect does, the stored versions are the numbers of writes still. -/
theorem Site.Answer.counts {site : Site} {conditions : Conditions} {effect : Effect}
    {forum after : Forum} {reply : effect.Reply} {journal : Journal}
    (answer : site.Answer conditions effect forum reply after) (truthful : ¬conditions.loses)
    (h : journal.Counts forum.store) :
    Journal.Counts (journal ++ [⟨effect, forum, reply, after⟩]) after.store := by
  cases effect with
  | store request =>
    cases hrecord : request.record? with
    | some record =>
      obtain ⟨error, rfl, rfl⟩ | ⟨value, rfl, stored, current, written⟩ :=
        answer.of_record? truthful hrecord
      · exact Journal.Counts.unwritten h rfl fun _ _ h => h
      · exact Journal.Counts.written h stored current written
    | none =>
      refine Journal.Counts.unwritten h ?_ fun key record stored => ?_
      · cases reply with
        | error error => rfl
        | ok value => cases request <;> first | rfl | cases hrecord
      · obtain hsame | ⟨request', store, heq, change, hafter⟩ := answer.change
        · exact hsame ▸ stored
        · cases heq
          dsimp only at stored
          rw [hafter, Forum.after_store] at stored
          obtain before | ⟨asked, hasked, -⟩ := change.record?_origin stored
          · exact before
          · rw [hrecord] at hasked
            cases hasked
  | _ =>
    have hafter : after = forum := Site.Answer.eq_of_isQuiet answer rfl
    exact Journal.Counts.unwritten h rfl fun _ _ h => hafter ▸ h

/-- However far the operation of a turn gets, the stored versions are the numbers of writes. -/
theorem Turn.Runs.counts {site : Site} {turn : Turn} {state after : Forum × Journal}
    {thread : Thread turn.invocation.operation.Result} (run : turn.Runs site state thread after)
    (fits : turn.Fits site) (h : state.2.Counts state.1.store) :
    after.2.Counts after.1.store := by
  have keeps : ∀ {effect : Effect} {state after : Forum × Journal} {reply : effect.Reply},
      (turn.responses site).journaled.Answers effect state reply after →
        state.2.Counts state.1.store → after.2.Counts after.1.store := by
    rintro effect ⟨forum, journal⟩ ⟨later, journal'⟩ reply ⟨⟨answer, -⟩, hjournal⟩ counts
    obtain rfl : journal' = journal ++ [⟨effect, forum, reply, later⟩] := hjournal
    exact answer.counts fits.honest.keeps counts
  exact (Thread.Pool.Steps.of_thread run [] []).preserves keeps h

/-- What operations in turn store has the number of its writes as its version. -/
theorem Chronicle.counts {site : Site} {state : Forum × Journal} (h : Chronicle site state) :
    state.2.Counts state.1.store := by
  induction h with
  | blank => exact fun _ => rfl
  | turn _ fits run ih => exact run.counts fits ih

end HiveForum
