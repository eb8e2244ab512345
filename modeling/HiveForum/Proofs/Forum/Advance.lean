import HiveForum.Proofs.Forum.Sound
import HiveForum.Proofs.Program.Contract
import Mathlib.Data.List.Nodup

/-!
# Sound forums advance

Every effect that operations have keeps a forum sound, whatever may go wrong with it.

## Main definitions

* `Forum.contract`: the contract that every operation meets.

## Main results

* `Forum.Sound.advances`: a change of the store that is admitted keeps the forum sound.
* `Site.Answer.advances`: an admitted effect keeps the forum sound.
-/

namespace HiveForum

namespace Forum

variable {outlook : Outlook} {forum : Forum}

theorem Regular.eq_of_id {item other : ContentItem} (h : forum.Regular outlook)
    (hitem : item ∈ forum.created) (hother : other ∈ forum.created) (hid : item.id = other.id) :
    item = other :=
  List.inj_on_of_nodup_map h.ids hitem hother hid

theorem Places.mono {site : Site} {created later : List ContentItem} {item : ContentItem}
    (h : Places site created item) (hsub : created ⊆ later) : Places site later item := by
  rw [Places] at *
  split at h
  · exact h
  · obtain ⟨post, hpost, hrest⟩ := h
    exact ⟨post, hsub hpost, hrest⟩

namespace Sound

variable (sound : forum.Sound outlook)

include sound

theorem keyed (key : EngagementKey) (record : EngagementRecord)
    (h : forum.store.record? key = some record) : record.key = key :=
  (sound.records key record h).1

theorem asCreated_eq {key : ContentKey} {item other : ContentItem}
    (h : forum.store.item? key = some item) (hother : other ∈ forum.created)
    (hid : other.id = key.id) : item.asCreated = other := by
  obtain ⟨hkey, hcreated⟩ := sound.items key item h
  refine sound.eq_of_id hcreated hother ?_
  rw [hid, ← hkey]
  rfl

theorem record?_eq_none {key : EngagementKey}
    (h : ∀ item ∈ forum.created, item.id ≠ key.content) : forum.store.record? key = none := by
  cases hrecord : forum.store.record? key with
  | none => rfl
  | some record =>
    obtain ⟨-, ⟨item, hitem, hid⟩, -⟩ := sound.records key record hrecord
    exact absurd hid (h item hitem)

theorem tally_eq_zero {content : ContentId} (h : ∀ item ∈ forum.created, item.id ≠ content)
    (flagOf : EngagementRecord → Bool) : forum.store.tally content flagOf = 0 := by
  refine List.countP_eq_zero.2 fun record hrecord => ?_
  obtain ⟨key, hkey⟩ := StoreState.mem_records_iff.1 hrecord
  obtain ⟨rfl, ⟨item, hitem, hid⟩, -⟩ := sound.records key record hkey
  have hne : record.content ≠ content := fun heq => h item hitem (hid.trans heq)
  simp [hne]

theorem version_pos {item : ContentItem} (hspared : outlook.spared item) {key : EngagementKey}
    {record : EngagementRecord} (h : forum.store.record? key = some record) :
    0 < record.version.toInt :=
  (sound.range item hspared).versions record (StoreState.mem_records_iff.2 ⟨key, h⟩)

theorem storedVersion_nonneg {item : ContentItem} (hspared : outlook.spared item)
    (key : EngagementKey) : 0 ≤ (forum.store.storedVersion key).toInt := by
  cases hrecord : forum.store.record? key with
  | none => simp [StoreState.storedVersion, hrecord]
  | some record =>
    rw [StoreState.storedVersion_of_record? hrecord]
    exact Int.le_of_lt (sound.version_pos hspared hrecord)

theorem later_withRecord {record : EngagementRecord} {item : ContentItem}
    (current : forum.store.storedVersion record.key = record.version)
    (hspared : outlook.spared item)
    (positive : ∀ record' ∈ (forum.store.withRecord record).records, 0 < record'.version.toInt)
    (key : EngagementKey) :
    (forum.store.storedVersion key).toInt ≤
        ((forum.store.withRecord record).storedVersion key).toInt ∧
      (forum.store.storedVersion key = (forum.store.withRecord record).storedVersion key →
        forum.store.record? key = (forum.store.withRecord record).record? key) := by
  refine StoreState.storedVersion_withRecord current (sound.storedVersion_nonneg hspared _)
    (positive _ (StoreState.mem_records_iff.2 ⟨record.key, ?_⟩)) key
  rw [StoreState.record?_withRecord, if_pos rfl]

theorem items_putItem {key : ContentKey} {item item' : ContentItem}
    (found : forum.store.item? key = some item) (same : item'.asCreated = item.asCreated)
    {later : StoreState} (hlater : ∀ key, later.item? key = forum.store.item? key)
    (key' : ContentKey) (other : ContentItem)
    (h : (later.putItem key item').item? key' = some other) :
    other.key = key' ∧ other.asCreated ∈ forum.created := by
  rw [StoreState.item?_putItem] at h
  split at h
  · rename_i heq
    cases h
    obtain ⟨hkey, hcreated⟩ := sound.items key item found
    refine ⟨?_, same ▸ hcreated⟩
    rw [← ContentItem.asCreated_key, same, ContentItem.asCreated_key, hkey, heq]
  · exact sound.items key' other (hlater key' ▸ h)

theorem nonneg_putItem {key : ContentKey} {item' : ContentItem} (h : item'.Nonneg)
    {later : StoreState} (hlater : ∀ key, later.item? key = forum.store.item? key)
    (key' : ContentKey) (other : ContentItem)
    (hother : (later.putItem key item').item? key' = some other) : other.Nonneg := by
  rw [StoreState.item?_putItem] at hother
  split at hother
  · cases hother
    exact h
  · exact sound.nonneg key' other (hlater key' ▸ hother)

/-! ### A record is written -/

theorem records_withRecord {record : EngagementRecord} {up down reports : Int}
    (ready : forum.Ready outlook record up down reports) (key : EngagementKey)
    (other : EngagementRecord) (h : (forum.store.withRecord record).record? key = some other) :
    other.key = key ∧ (∃ item ∈ forum.created, item.id = key.content) ∧
      ¬(other.upVoted = true ∧ other.downVoted = true) := by
  rw [StoreState.record?_withRecord] at h
  split at h
  · rename_i heq
    cases h
    obtain ⟨item, hitem, hid⟩ := ready.created
    exact ⟨heq.symm, ⟨item, hitem, heq ▸ hid⟩, ready.oneVote⟩
  · exact sound.records key other h

theorem tally_of_ready {record : EngagementRecord} {up down reports : Int}
    (ready : forum.Ready outlook record up down reports)
    (current : forum.store.storedVersion record.key = record.version) {item : ContentItem}
    (hitem : item ∈ forum.created) (hspared : outlook.spared item)
    (hid : item.id = record.content) :
    ((forum.store.withRecord record).tally item.id (·.upVoted) : Int) =
        forum.store.tally item.id (·.upVoted) + up ∧
      ((forum.store.withRecord record).tally item.id (·.downVoted) : Int) =
        forum.store.tally item.id (·.downVoted) + down ∧
      ((forum.store.withRecord record).tally item.id (·.reported) : Int) =
        forum.store.tally item.id (·.reported) + reports := by
  obtain ⟨hup, hdown, hreports⟩ := (ready.current item hitem hspared hid).2 current.symm
  have hkeyed := sound.keyed record.key
  rw [hid]
  exact ⟨StoreState.tally_withRecord hkeyed rfl hup, StoreState.tally_withRecord hkeyed rfl hdown,
    StoreState.tally_withRecord hkeyed rfl hreports⟩

/-! ### Every change -/

omit sound in
theorem advances_of_records {later : Forum} (hlater : later.Sound outlook)
    (created : forum.created ⊆ later.created)
    (records : ∀ key, later.store.record? key = forum.store.record? key) :
    forum.Advances outlook later := by
  refine ⟨hlater, created, fun item _ _ key _ => ?_⟩
  simp [StoreState.storedVersion, records key]

omit sound in
theorem counts_putItem {key : ContentKey} {item item' : ContentItem}
    (same : item'.asCreated = item.asCreated)
    {later : StoreState} (hitems : ∀ key, later.item? key = forum.store.item? key)
    (edited : outlook.spared item.asCreated → item'.Agrees later)
    (others : ∀ key' other, key' ≠ key → forum.store.item? key' = some other →
      outlook.spared other.asCreated → other.Agrees later) (key' : ContentKey) (other : ContentItem)
    (h : (later.putItem key item').item? key' = some other)
    (hspared : outlook.spared other.asCreated) :
    other.Agrees (later.putItem key item') := by
  have hcongr : ∀ other : ContentItem,
      other.Agrees later → other.Agrees (later.putItem key item') :=
    fun other hother => hother.congr fun _ => rfl
  rw [StoreState.item?_putItem] at h
  split at h
  · cases h
    exact hcongr _ (edited (same ▸ hspared))
  · rename_i hne
    exact hcongr _ (others key' other hne (hitems key' ▸ h) hspared)

/-- The counts of the other items that are spared stay right when a record is written with an edit
of its item. -/
theorem counts_of_ne {record : EngagementRecord} {key : ContentKey} {item : ContentItem}
    (found : forum.store.item? key = some item) (hkey : key.id = record.content)
    (key' : ContentKey) (other : ContentItem) (hne : key' ≠ key)
    (hother : forum.store.item? key' = some other) (hspared : outlook.spared other.asCreated) :
    other.Agrees (forum.store.withRecord record) := by
  obtain ⟨hotherKey, hcreated⟩ := sound.items key' other hother
  have hid : other.id ≠ record.content := by
    intro heq
    have hsame := sound.asCreated_eq found hcreated (heq.trans hkey.symm)
    have hkeys : item.key = other.key := by
      rw [← ContentItem.asCreated_key, hsame, ContentItem.asCreated_key]
    rw [(sound.items key item found).1, hotherKey] at hkeys
    exact hne hkeys.symm
  exact (sound.counts key' other hother hspared).congr fun flagOf =>
    (StoreState.tally_withRecord_of_ne hid sound.keyed flagOf).symm

/-- A record written with an edit of its item keeps the forum sound. -/
theorem advances_commit {record : EngagementRecord} {up down reports : Int} {key : ContentKey}
    {item item' : ContentItem} (ready : forum.Ready outlook record up down reports)
    (found : forum.store.item? key = some item) (hkey : key.id = record.content)
    (current : forum.store.storedVersion record.key = record.version)
    (same : item'.asCreated = item.asCreated) (nonneg : item'.Nonneg)
    (regular : Regular outlook ⟨(forum.store.withRecord record).putItem key item', forum.created⟩)
    (edited : outlook.spared item.asCreated →
      ((forum.store.withRecord record).tally item.id (·.upVoted) : Int) =
          forum.store.tally item.id (·.upVoted) + up →
      ((forum.store.withRecord record).tally item.id (·.downVoted) : Int) =
          forum.store.tally item.id (·.downVoted) + down →
      ((forum.store.withRecord record).tally item.id (·.reported) : Int) =
          forum.store.tally item.id (·.reported) + reports →
      item'.Agrees (forum.store.withRecord record)) :
    forum.Advances outlook
      ⟨(forum.store.withRecord record).putItem key item', forum.created⟩ := by
  obtain ⟨hitemKey, hcreated⟩ := sound.items key item found
  have hid : item.asCreated.id = record.content := by
    rw [ContentItem.asCreated_id, ← hkey, ← hitemKey]
    rfl
  refine ⟨⟨regular, sound.places, StoreState.Compact.putItem sound.compact key item',
    sound.items_putItem found same fun _ => rfl, sound.nonneg_putItem nonneg fun _ => rfl,
    sound.records_withRecord ready, ?_⟩,
    List.Subset.refl _, fun item _ hspared key _ =>
      sound.later_withRecord current hspared (regular.range item hspared).versions key⟩
  refine counts_putItem same (fun _ => rfl) (fun hspared => ?_) (sound.counts_of_ne found hkey)
  obtain ⟨hup, hdown, hreports⟩ := sound.tally_of_ready ready current hcreated hspared hid
  exact edited hspared hup hdown hreports

/-- A record written alone keeps the forum sound. -/
theorem advances_write {record : EngagementRecord} (ready : forum.Ready outlook record 0 0 0)
    (current : forum.store.storedVersion record.key = record.version)
    (regular : Regular outlook ⟨forum.store.withRecord record, forum.created⟩) :
    forum.Advances outlook ⟨forum.store.withRecord record, forum.created⟩ := by
  refine ⟨⟨regular, sound.places, sound.compact, sound.items, sound.nonneg,
    sound.records_withRecord ready,
    fun key item hitem hspared => ?_⟩, List.Subset.refl _, fun item _ hspared key _ =>
      sound.later_withRecord current hspared (regular.range item hspared).versions key⟩
  have hagrees := sound.counts key item hitem hspared
  obtain ⟨-, hcreated⟩ := sound.items key item hitem
  by_cases hid : item.id = record.content
  · obtain ⟨hup, hdown, hreports⟩ := sound.tally_of_ready ready current hcreated hspared hid
    refine ⟨hagrees.upVotes.trans ?_, hagrees.downVotes.trans ?_, hagrees.reports.trans ?_,
      hagrees.obfuscated⟩
    · exact (hup.trans (Int.add_zero _)).symm
    · exact (hdown.trans (Int.add_zero _)).symm
    · exact (hreports.trans (Int.add_zero _)).symm
  · exact hagrees.congr fun flagOf =>
      (StoreState.tally_withRecord_of_ne hid sound.keyed flagOf).symm

/-- An edit of an item keeps the forum sound. -/
theorem advances_edit {request : Request} {key : ContentKey} {item item' : ContentItem}
    (edits : request.Edits key item item') (found : forum.store.item? key = some item)
    (admits : forum.Admits outlook (.store request))
    (regular : Regular outlook ⟨forum.store.putItem key item', forum.created⟩) :
    forum.Advances outlook ⟨forum.store.putItem key item', forum.created⟩ := by
  have same := edits.asCreated_eq
  refine advances_of_records ⟨regular, sound.places,
    StoreState.Compact.putItem sound.compact key item', sound.items_putItem found same fun _ => rfl,
    sound.nonneg_putItem (edits.nonneg (sound.nonneg key item found)) fun _ => rfl,
    sound.records, ?_⟩ (List.Subset.refl _) fun _ => rfl
  refine counts_putItem same (fun _ => rfl) (fun hspared => ?_) fun key' other _ hother =>
    sound.counts key' other hother
  have hagrees := sound.counts key item found hspared
  cases edits with
  | counts =>
    obtain ⟨hup, hdown, hreports⟩ := admits
    refine hagrees.applyTo ?_ ?_ rfl hreports (sound.range _ hspared).records
    · rw [hup, Int64.toInt_zero, Int.add_zero]
    · rw [hdown, Int64.toInt_zero, Int.add_zero]
  | touch => exact ⟨hagrees.upVotes, hagrees.downVotes, hagrees.reports, hagrees.obfuscated⟩
  | review => exact ⟨hagrees.upVotes, hagrees.downVotes, hagrees.reports, by simp⟩
  | pin => exact ⟨hagrees.upVotes, hagrees.downVotes, hagrees.reports, hagrees.obfuscated⟩

/-- A new item in its place keeps the forum sound. -/
theorem advances_put {item : ContentItem} (fresh : item.asCreated = item)
    (placed : Places outlook.site forum.created item)
    (regular : Regular outlook
      ⟨forum.store.putItem item.key item, forum.created ++ [item]⟩) :
    forum.Advances outlook
      ⟨forum.store.putItem item.key item, forum.created ++ [item]⟩ := by
  have hnew : ∀ other ∈ forum.created, other.id ≠ item.id := by
    intro other hother heq
    have hnodup := regular.ids
    rw [List.map_append, List.nodup_append] at hnodup
    exact hnodup.2.2 other.id (List.mem_map_of_mem hother) item.id (by simp) heq
  have hsub : forum.created ⊆ forum.created ++ [item] := List.subset_append_left _ _
  refine advances_of_records ⟨regular, ?_,
    StoreState.Compact.putItem sound.compact _ _, ?_,
    sound.nonneg_putItem (fresh ▸ item.nonneg_asCreated) fun _ => rfl, ?_, ?_⟩ hsub fun _ => rfl
  · intro other hother
    rcases List.mem_append.1 hother with hother | hother
    · exact (sound.places other hother).mono hsub
    · rw [List.mem_singleton.1 hother]
      exact placed.mono hsub
  · intro key other hother
    rw [StoreState.item?_putItem] at hother
    split at hother
    · rename_i heq
      cases hother
      exact ⟨heq.symm, by simp [fresh]⟩
    · obtain ⟨hkey, hcreated⟩ := sound.items key other hother
      exact ⟨hkey, hsub hcreated⟩
  · intro key record hrecord
    obtain ⟨hkey, ⟨other, hother, hid⟩, hvotes⟩ := sound.records key record hrecord
    exact ⟨hkey, ⟨other, hsub hother, hid⟩, hvotes⟩
  · intro key other hother hspared
    rw [StoreState.item?_putItem] at hother
    split at hother
    · cases hother
      have hzero := fun flagOf => sound.tally_eq_zero hnew flagOf
      have hcounts : item.upVotes = 0 ∧ item.downVotes = 0 ∧ item.reports = 0 ∧
          item.obfuscated = false := by
        rw [← fresh]
        exact ⟨rfl, rfl, rfl, rfl⟩
      obtain ⟨hup, hdown, hreports, hhidden⟩ := hcounts
      refine ⟨?_, ?_, ?_, ?_⟩
      · exact (congrArg Int64.toInt hup).trans (congrArg Nat.cast (hzero _)).symm
      · exact (congrArg Int64.toInt hdown).trans (congrArg Nat.cast (hzero _)).symm
      · exact (congrArg Int64.toInt hreports).trans (congrArg Nat.cast (hzero _)).symm
      · simp [hreports, hhidden]
    · exact (sound.counts key other hother hspared).congr fun _ => rfl

/-- Removing an item keeps the forum sound. -/
theorem advances_remove (key : ContentKey)
    (regular : Regular outlook ⟨forum.store.removeItem key, forum.created⟩) :
    forum.Advances outlook ⟨forum.store.removeItem key, forum.created⟩ := by
  have hrecords : ∀ key', (forum.store.removeItem key).record? key' = forum.store.record? key' :=
    forum.store.record?_removeItem key
  have hitems : ∀ key' item, (forum.store.removeItem key).item? key' = some item →
      forum.store.item? key' = some item := by
    intro key' item h
    rw [StoreState.item?_removeItem] at h
    split at h
    · cases h
    · exact h
  refine advances_of_records ⟨regular, sound.places, sound.compact.removeItem key,
    fun key' item h => sound.items key' item (hitems key' item h),
    fun key' item h => sound.nonneg key' item (hitems key' item h),
    fun key' record h => sound.records key' record (hrecords key' ▸ h),
    fun key' item h hspared => ?_⟩ (List.Subset.refl _) hrecords
  refine (sound.counts key' item (hitems key' item h) hspared).congr fun flagOf => ?_
  exact StoreState.tally_congr fun key' record _ => by rw [hrecords]

/-- Removing records on items that are not spared keeps the forum sound. -/
theorem advances_erase {keys : List EngagementKey}
    (others : ∀ key ∈ keys, ∀ item ∈ forum.created, outlook.spared item → item.id ≠ key.content)
    (regular : Regular outlook ⟨forum.store.removeRecords keys, forum.created⟩) :
    forum.Advances outlook ⟨forum.store.removeRecords keys, forum.created⟩ := by
  have hrecords : ∀ key record, (forum.store.removeRecords keys).record? key = some record →
      forum.store.record? key = some record := by
    intro key record h
    rw [StoreState.record?_removeRecords] at h
    split at h
    · cases h
    · exact h
  have hsame : ∀ item ∈ forum.created, outlook.spared item → ∀ key, key.content = item.id →
      (forum.store.removeRecords keys).record? key = forum.store.record? key := by
    intro item hitem hspared key hkey
    rw [StoreState.record?_removeRecords, if_neg]
    exact fun hmem => others key hmem item hitem hspared hkey.symm
  refine ⟨⟨regular, sound.places, sound.compact, sound.items, sound.nonneg,
    fun key record h => sound.records key record (hrecords key record h),
    fun key item h hspared => ?_⟩, List.Subset.refl _, fun item hitem hspared key hkey => ?_⟩
  · obtain ⟨-, hcreated⟩ := sound.items key item h
    refine (sound.counts key item h hspared).congr fun flagOf => ?_
    refine StoreState.tally_congr fun key' record hcontent => ?_
    -- on either side the record stands under its own key
    have hkeyed : ∀ h : forum.store.record? key' = some record, key'.content = item.id := by
      intro h
      rw [← sound.keyed key' record h]
      exact hcontent
    constructor
    · intro h
      rw [hsame _ hcreated hspared key' (hkeyed h)]
      exact h
    · exact hrecords key' record
  · simp [StoreState.storedVersion, hsame item hitem hspared key hkey]

/-- A change of the store that is admitted keeps the forum sound, as long as it remains regular. -/
theorem advances {request : Request} {later : StoreState}
    (change : forum.store.Change request later)
    (admits : forum.Admits outlook (.store request))
    (regular : Regular outlook (forum.after later request)) :
    forum.Advances outlook (forum.after later request) := by
  cases change with
  | read h =>
    cases request <;> first
      | exact advances_of_records sound (List.Subset.refl _) fun _ => rfl
      | cases h
  | put vacant => exact sound.advances_put admits.1 admits.2 regular
  | edit edits found =>
    have hadvances := sound.advances_edit edits found admits
    cases edits <;> exact hadvances regular
  | remove => exact sound.advances_remove _ regular
  | write current => exact sound.advances_write admits current regular
  | @vote record key change item found current =>
    obtain ⟨hkey, hreports, ready⟩ := admits
    refine sound.advances_commit ready found hkey current rfl (change.nonneg_applyTo item) regular
      fun hspared hup hdown hsame => ?_
    refine (sound.counts key item found hspared).applyTo hup hdown ?_ hreports
      (regular.range _ hspared).records
    rw [Int.add_zero] at hsame
    exact_mod_cast hsame
  | @report record key outcome item found hopen current =>
    obtain ⟨hkey, ready⟩ := admits
    refine sound.advances_commit ready found hkey current (by simp)
      (outcome.nonneg_applyTo (sound.nonneg key item found)) regular
      fun hspared hup hdown hreports => ?_
    rw [Int.add_zero] at hup hdown
    exact (sound.counts key item found hspared).report (by exact_mod_cast hup)
      (by exact_mod_cast hdown) hreports (regular.range _ hspared).records
  | erase part => exact sound.advances_erase (fun key hkey => admits key (part hkey)) regular

end Sound

/-! ### Runs -/

theorem Advances.refl (sound : forum.Sound outlook) : forum.Advances outlook forum :=
  ⟨sound, List.Subset.refl _, fun _ _ _ _ _ => ⟨Int.le_refl _, fun _ => rfl⟩⟩

/-- One advance after another. -/
theorem Advances.trans {later last : Forum} (h : forum.Advances outlook later)
    (h' : later.Advances outlook last) : forum.Advances outlook last := by
  refine ⟨h'.sound, fun _ hitem => h'.created (h.created hitem),
    fun item hitem hspared key hkey => ?_⟩
  obtain ⟨hle, hsame⟩ := h.records item hitem hspared key hkey
  obtain ⟨hle', hsame'⟩ := h'.records item (h.created hitem) hspared key hkey
  refine ⟨Int.le_trans hle hle', fun heq => ?_⟩
  -- the version between the two is neither less nor more
  have hbetween : forum.store.storedVersion key = later.store.storedVersion key := by
    rw [← Int64.toInt_inj]
    rw [← heq] at hle'
    omega
  rw [hsame hbetween, hsame' (hbetween ▸ heq)]

/-- A record that is ready to be written stays so. -/
theorem Ready.mono {record : EngagementRecord} {up down reports : Int} {later : Forum}
    (ready : forum.Ready outlook record up down reports) (h : forum.Advances outlook later) :
    later.Ready outlook record up down reports := by
  obtain ⟨item, hitem, hid⟩ := ready.created
  refine ⟨⟨item, h.created hitem, hid⟩, ready.oneVote, fun other hother hspared hotherId => ?_⟩
  obtain rfl : other = item :=
    h.sound.eq_of_id hother (h.created hitem) (hotherId.trans hid.symm)
  obtain ⟨hle, hflags⟩ := ready.current other hitem hspared hid
  obtain ⟨hle', hsame⟩ := h.records other hitem hspared record.key hid.symm
  refine ⟨Int.le_trans hle hle', fun heq => ?_⟩
  have hbetween : record.version = forum.store.storedVersion record.key := by
    rw [← Int64.toInt_inj]
    rw [← heq] at hle'
    omega
  have hrecord := hsame (hbetween ▸ heq)
  simp only [StoreState.flag, ← hrecord]
  exact hflags hbetween

end Forum

/-- An admitted effect keeps the forum sound, whatever may go wrong with it. -/
theorem Site.Answer.advances {outlook : Outlook} {conditions : Conditions}
    {effect : Effect} {forum after : Forum} {reply : effect.Reply}
    (answer : outlook.site.Answer conditions effect forum reply after)
    (sound : forum.Sound outlook) (admits : forum.Admits outlook effect)
    (regular : after.Regular outlook) : forum.Advances outlook after := by
  cases answer with
  | carriedOut h => exact sound.advances (StoreState.change_of_perform h) admits regular
  | lost _ _ h => exact sound.advances (StoreState.change_of_perform h) admits regular
  | skipped _ _ split =>
    refine sound.advances_erase (fun key hkey => admits key ?_) regular
    exact split.mem_iff.2 (List.mem_append_left _ hkey)
  | _ => exact .refl sound

end HiveForum
