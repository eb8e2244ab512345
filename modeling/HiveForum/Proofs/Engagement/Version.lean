import HiveForum.Proofs.Forum.Answers
import HiveForum.Proofs.Program.Trace
import HiveForum.Proofs.Store.Tally

/-!
# Versions tell records

As long as no records are removed and no version runs over, the version of a record only grows, and
a record that has the version that it had is the record that it was. A record that was read is
therefore still the stored one if a write that names its version is carried out.

## Main definitions

* `StoreState.Versioned`: every record has its key and a version that counts its writes.
* `Forum.versioning`: how records may evolve.
* `Forum.Current`: a record is the stored one if the stored one has its version.

## Main results

* `Site.Answer.evolves`: no effect but the removal of records does anything else to them.
* `Site.Answer.of_record?`: a write is carried out or leaves the forum as it is.
-/

namespace HiveForum

/-- Every record stands under its own key, and has been written at least once. -/
structure StoreState.Versioned (store : StoreState) : Prop where
  keyed : ∀ key record, store.record? key = some record → record.key = key
  positive : ∀ record ∈ store.records, 0 < record.version.toInt

theorem StoreState.Versioned.storedVersion_nonneg {store : StoreState} (h : store.Versioned)
    (key : EngagementKey) : 0 ≤ (store.storedVersion key).toInt := by
  cases hrecord : store.record? key with
  | none => simp [storedVersion, hrecord]
  | some record =>
    rw [storedVersion_of_record? hrecord]
    exact Int.le_of_lt (h.positive record (mem_records_iff.2 ⟨key, hrecord⟩))

theorem StoreState.Versioned.storedVersion_eq_zero_iff {store : StoreState} (h : store.Versioned)
    (key : EngagementKey) : store.storedVersion key = 0 ↔ store.record? key = none := by
  cases hrecord : store.record? key with
  | none => simp [storedVersion, hrecord]
  | some record =>
    have hpos := h.positive record (mem_records_iff.2 ⟨key, hrecord⟩)
    rw [storedVersion_of_record? hrecord]
    simp only [reduceCtorEq, iff_false]
    rintro heq
    rw [heq] at hpos
    exact absurd hpos (by decide)

namespace Forum

/-- The versions of records grow, and with the version of a record the record stays. -/
def versioning : Evolution Forum where
  rel forum later :=
    forum.store.Versioned → later.store.Versioned ∧
      ∀ key, (forum.store.storedVersion key).toInt ≤ (later.store.storedVersion key).toInt ∧
        (forum.store.storedVersion key = later.store.storedVersion key →
          forum.store.record? key = later.store.record? key)
  refl _ versioned := ⟨versioned, fun _ => ⟨Int.le_refl _, fun _ => rfl⟩⟩
  trans h h' versioned := by
    obtain ⟨hmiddle, hrecords⟩ := h versioned
    obtain ⟨hafter, hrecords'⟩ := h' hmiddle
    refine ⟨hafter, fun key => ?_⟩
    obtain ⟨hle, hsame⟩ := hrecords key
    obtain ⟨hle', hsame'⟩ := hrecords' key
    refine ⟨Int.le_trans hle hle', fun heq => ?_⟩
    have hbetween := Int64.toInt_inj.1 (Int.le_antisymm hle (heq ▸ hle'))
    exact (hsame hbetween).trans (hsame' (hbetween ▸ heq))

variable {forum later : Forum}

theorem versioning_of_records (positive : ∀ record ∈ later.store.records, 0 < record.version.toInt)
    (h : ∀ key, later.store.record? key = forum.store.record? key) :
    versioning.rel forum later := by
  intro versioned
  refine ⟨⟨fun key record hrecord => versioned.keyed key record (h key ▸ hrecord), positive⟩,
    fun key => ?_⟩
  simp [StoreState.storedVersion, h key]

/-- A record is written. -/
theorem versioning_of_write {record : EngagementRecord}
    (current : forum.store.storedVersion record.key = record.version)
    (positive : ∀ record ∈ later.store.records, 0 < record.version.toInt)
    (h : ∀ key, later.store.record? key = (forum.store.withRecord record).record? key) :
    versioning.rel forum later := by
  intro versioned
  have hwritten : later.store.record? record.key = some record.written := by
    rw [h, StoreState.record?_withRecord, if_pos rfl]
  refine ⟨⟨fun key other hother => ?_, positive⟩, fun key => ?_⟩
  · rw [h, StoreState.record?_withRecord] at hother
    split at hother
    · rename_i heq
      cases hother
      exact heq.symm
    · exact versioned.keyed key other hother
  · have hlater : later.store.storedVersion key =
        (forum.store.withRecord record).storedVersion key := by
      simp only [StoreState.storedVersion, h]
    rw [hlater, h]
    exact StoreState.storedVersion_withRecord current (versioned.storedVersion_nonneg _)
      (positive _ (StoreState.mem_records_iff.2 ⟨record.key, hwritten⟩)) key

/-- The record of a user on an item, a neutral one if there is none. -/
def recordOf (forum : Forum) (user : UserId) (content : ContentKey) (hive : ScopeId) :
    EngagementRecord :=
  (forum.store.record? ⟨user, content.id⟩).getD (.neutral user content hive)

/-- If the stored record of a user on an item has the version of a record, it is that record. -/
def Current (forum : Forum) (user : UserId) (content : ContentKey) (hive : ScopeId)
    (record : EngagementRecord) : Prop :=
  record.version.toInt ≤ (forum.store.storedVersion ⟨user, content.id⟩).toInt ∧
    (forum.store.storedVersion ⟨user, content.id⟩ = record.version →
      forum.recordOf user content hive = record)

variable {user : UserId} {content : ContentKey} {hive : ScopeId} {record : EngagementRecord}

theorem current_of_record? (h : forum.store.record? ⟨user, content.id⟩ = some record) :
    forum.Current user content hive record := by
  refine ⟨Int.le_of_eq ?_, fun _ => by simp [recordOf, h]⟩
  rw [StoreState.storedVersion_of_record? h]

theorem current_neutral (versioned : forum.store.Versioned) :
    forum.Current user content hive (.neutral user content hive) := by
  refine ⟨versioned.storedVersion_nonneg _, fun h => ?_⟩
  rw [recordOf, (versioned.storedVersion_eq_zero_iff _).1 h]
  rfl

theorem Current.mono (h : forum.Current user content hive record)
    (versioned : forum.store.Versioned) (evolves : versioning.rel forum later) :
    later.Current user content hive record := by
  obtain ⟨hle, hsame⟩ := h
  obtain ⟨hle', hsame'⟩ := (evolves versioned).2 ⟨user, content.id⟩
  refine ⟨Int.le_trans hle hle', fun heq => ?_⟩
  have hbetween : forum.store.storedVersion ⟨user, content.id⟩ = record.version :=
    Int64.toInt_inj.1 (Int.le_antisymm (heq ▸ hle') hle)
  rw [← hsame hbetween, recordOf, recordOf, hsame' (hbetween.trans heq.symm)]

end Forum

/-! ### Effects -/

namespace Site.Answer

variable {site : Site} {conditions : Conditions} {forum after : Forum}

/-- As long as no records are removed, they evolve. -/
theorem evolves {effect : Effect} {reply : effect.Reply}
    (answer : site.Answer conditions effect forum reply after)
    (keeps : ∀ keys, effect ≠ .store (.deleteEngagements keys))
    (positive : ∀ record ∈ after.store.records, 0 < record.version.toInt) :
    Forum.versioning.rel forum after := by
  obtain rfl | ⟨request, store, rfl, change, rfl⟩ := answer.change
  · exact Forum.versioning.refl _
  · cases change with
    | erase => exact absurd rfl (keeps _)
    | write current => exact Forum.versioning_of_write current positive fun _ => rfl
    | vote _ current => exact Forum.versioning_of_write current positive fun _ => rfl
    | report _ _ current => exact Forum.versioning_of_write current positive fun _ => rfl
    | remove => exact Forum.versioning_of_records positive fun _ => by simp
    | _ => exact Forum.versioning_of_records positive fun _ => by simp

/-- A write is carried out, or it leaves the forum as it is and is answered with an error, unless
replies are lost. -/
theorem of_record? {request : Request} {reply : Except StoreError request.Answer}
    {record : EngagementRecord}
    (answer : site.Answer conditions (.store request) forum reply after)
    (truthful : ¬conditions.loses) (h : request.record? = some record) :
    (∃ error, reply = .error error ∧ after = forum) ∨
      ∃ value, reply = .ok value ∧ request.stored? value = some record.written ∧
        forum.store.storedVersion record.key = record.version ∧
        ∀ key, after.store.record? key = (forum.store.withRecord record).record? key := by
  cases answer with
  | carriedOut hperform =>
    obtain ⟨hstored, current, hrecords⟩ := StoreState.written_of_perform h hperform
    exact .inr ⟨_, rfl, hstored, current, by simpa using hrecords⟩
  | lost loses => exact absurd loses truthful
  | skipped => cases h
  | _ => exact .inl ⟨_, rfl, rfl⟩

end Site.Answer

end HiveForum
