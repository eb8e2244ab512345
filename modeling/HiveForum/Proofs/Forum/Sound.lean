import HiveForum.Proofs.Forum.Environment
import HiveForum.Proofs.Store.Change
import HiveForum.Proofs.Store.Tally

/-!
# Sound forums

In a sound forum every item is as it was stored first but for its counts, flags and time of
activity, it lives in a hive or under a post of one, and every record belongs to an item that was
stored. The items that are spared from deletion have the counts that their records give.

The counts can be right only as long as no record is written from an outdated one. The version of a
record tells: on an item that is spared, versions only grow, and while the version stays the record
does. A record that is *ready* to be written was changed, as its counts say, from the record of that
version.

## Main definitions

* `Outlook`: the items that are spared from deletion in a run, and what else is fixed about it.
* `ContentItem.Agrees`: the counts of an item are those of the records on it.
* `Forum.Sound`: the invariant of every run.
* `Forum.Advances`: what a run may change.
* `Forum.Ready`: a record may be written with a change of counts.
* `Forum.Admits`: an effect is one that operations may have at this point.

## Main results

* `Site.Answer.advances`: an admitted effect keeps the forum sound.
-/

namespace HiveForum

/-- The item as it was stored first. -/
def ContentItem.asCreated (item : ContentItem) : ContentItem :=
  { item with
    lastActivityAt := item.createdAt, upVotes := 0, downVotes := 0, comments := 0, reports := 0
    obfuscated := false, reviewed := false, pinned := false }

/-- The counts of an item are the numbers of the records on it, and the item is hidden exactly while
it is reported and not reviewed. -/
structure ContentItem.Agrees (item : ContentItem) (store : StoreState) : Prop where
  upVotes : item.upVotes.toInt = store.tally item.id (·.upVoted)
  downVotes : item.downVotes.toInt = store.tally item.id (·.downVoted)
  reports : item.reports.toInt = store.tally item.id (·.reported)
  obfuscated : item.obfuscated = true ↔ 0 < item.reports ∧ item.reviewed = false

/-- No count of the item is negative. -/
structure ContentItem.Nonneg (item : ContentItem) : Prop where
  upVotes : 0 ≤ item.upVotes.toInt
  downVotes : 0 ≤ item.downVotes.toInt
  comments : 0 ≤ item.comments.toInt
  reports : 0 ≤ item.reports.toInt

/-- What is fixed beforehand about a run: its surroundings, the items that will have been stored by
its end, and those of them that are spared from deletion. -/
structure Outlook where
  site : Site
  items : List ContentItem
  /-- The items that are spared. -/
  spared : ContentItem → Prop

/-- The number of records is below the largest word, and the number of writes of no record has run
over it. -/
structure StoreState.InRange (store : StoreState) : Prop where
  records : store.records.length < 9223372036854775807
  versions : ∀ record ∈ store.records, 0 < record.version.toInt

/-- The number that an outcome adds to the reports of an item. -/
def ReportOutcome.delta : ReportOutcome → Int
  | .added => 1
  | .removed => -1

@[simp]
theorem ReportOutcome.delta_added : ReportOutcome.added.delta = 1 := rfl

@[simp]
theorem ReportOutcome.delta_removed : ReportOutcome.removed.delta = -1 := rfl

namespace Forum

/-- A new item has its place: a post in a hive, a comment under a post of its hive. -/
def Places (site : Site) (created : List ContentItem) (item : ContentItem) : Prop :=
  match item.kind with
  | .post => item.scope = item.hive ∧ (site.directory.hives.get? item.hive).isSome
  | .comment =>
    ∃ post ∈ created, post.kind = .post ∧ post.hive = item.hive ∧ post.id.asScope = item.scope

/-- Identifiers are given out once, and while any item is spared the numbers of records and of
writes are in range. -/
structure Regular (outlook : Outlook) (forum : Forum) : Prop where
  ids : (forum.created.map (·.id)).Nodup
  known : forum.created ⊆ outlook.items
  range : ∀ item, outlook.spared item → forum.store.InRange

/-- Every item and every record is in order, and the counts of the items that are spared are those
of their records. -/
structure Sound (outlook : Outlook) (forum : Forum) : Prop extends Regular outlook forum where
  places : ∀ item ∈ forum.created, Places outlook.site forum.created item
  compact : forum.store.Compact
  items : ∀ key item, forum.store.item? key = some item →
    item.key = key ∧ item.asCreated ∈ forum.created
  nonneg : ∀ key item, forum.store.item? key = some item → item.Nonneg
  records : ∀ key record, forum.store.record? key = some record →
    record.key = key ∧ (∃ item ∈ forum.created, item.id = key.content) ∧
      ¬(record.upVoted = true ∧ record.downVoted = true)
  counts : ∀ key item, forum.store.item? key = some item → outlook.spared item.asCreated →
    item.Agrees forum.store

/-- A later forum: it is sound, no item that was stored is forgotten, and on the items that are
spared a record is the same as long as its version is, and versions only grow. -/
structure Advances (outlook : Outlook) (forum later : Forum) : Prop where
  sound : later.Sound outlook
  created : forum.created ⊆ later.created
  records : ∀ item ∈ forum.created, outlook.spared item → ∀ key, key.content = item.id →
    (forum.store.storedVersion key).toInt ≤ (later.store.storedVersion key).toInt ∧
      (forum.store.storedVersion key = later.store.storedVersion key →
        forum.store.record? key = later.store.record? key)

/-- A record may be written with a change of the counts of its item. If the item is spared, the
stored record has a later version, or the flags differ from those of the stored record as the counts
are changed. -/
structure Ready (outlook : Outlook) (forum : Forum) (record : EngagementRecord)
    (up down reports : Int) : Prop where
  created : ∃ item ∈ forum.created, item.id = record.content
  oneVote : ¬(record.upVoted = true ∧ record.downVoted = true)
  current : ∀ item ∈ forum.created, outlook.spared item → item.id = record.content →
    record.version.toInt ≤ (forum.store.storedVersion record.key).toInt ∧
      (record.version = forum.store.storedVersion record.key →
        record.upVoted.toInt = (forum.store.flag record.key (·.upVoted)).toInt + up ∧
          record.downVoted.toInt = (forum.store.flag record.key (·.downVoted)).toInt + down ∧
            record.reported.toInt = (forum.store.flag record.key (·.reported)).toInt + reports)

/-- What operations ask of the store: they store items in their places, write records that are
ready, and remove no record on an item that is spared. -/
def Admits (outlook : Outlook) (forum : Forum) : Effect → Prop
  | .store (.putContent item) =>
    item.asCreated = item ∧ Places outlook.site forum.created item
  | .store (.adjustCounts _ change) =>
    change.upVotes = 0 ∧ change.downVotes = 0 ∧ change.reports = 0
  | .store (.putEngagement record) => forum.Ready outlook record 0 0 0
  | .store (.commitVote record key change) =>
    key.id = record.content ∧ change.reports = 0 ∧
      forum.Ready outlook record change.upVotes.toInt change.downVotes.toInt 0
  | .store (.commitReport record key outcome) =>
    key.id = record.content ∧ forum.Ready outlook record 0 0 outcome.delta
  | .store (.deleteEngagements keys) =>
    ∀ key ∈ keys, ∀ item ∈ forum.created, outlook.spared item → item.id ≠ key.content
  | _ => True

end Forum

/-! ### Edits of items -/

@[simp]
theorem ContentItem.asCreated_key (item : ContentItem) : item.asCreated.key = item.key := rfl

@[simp]
theorem ContentItem.asCreated_id (item : ContentItem) : item.asCreated.id = item.id := rfl

@[simp]
theorem CountChange.asCreated_applyTo (change : CountChange) (item : ContentItem) :
    (change.applyTo item).asCreated = item.asCreated := rfl

@[simp]
theorem ReportOutcome.asCreated_applyTo (outcome : ReportOutcome) (item : ContentItem) :
    (outcome.applyTo item).asCreated = item.asCreated := by
  cases outcome <;> rfl

theorem Request.Edits.asCreated_eq {request : Request} {key : ContentKey}
    {item item' : ContentItem} (h : request.Edits key item item') :
    item'.asCreated = item.asCreated := by
  cases h <;> rfl

theorem ContentItem.nonneg_asCreated (item : ContentItem) : item.asCreated.Nonneg :=
  ⟨Int.le_refl 0, Int.le_refl 0, Int.le_refl 0, Int.le_refl 0⟩

theorem CountChange.nonneg_applyTo (change : CountChange) (item : ContentItem) :
    (change.applyTo item).Nonneg := by
  have hfloor : ∀ count delta : Int64, 0 ≤ (floorAdd count delta).toInt := by
    intro count delta
    rw [toInt_floorAdd]
    omega
  exact ⟨hfloor _ _, hfloor _ _, hfloor _ _, hfloor _ _⟩

theorem ReportOutcome.nonneg_applyTo (outcome : ReportOutcome) {item : ContentItem}
    (h : item.Nonneg) : (outcome.applyTo item).Nonneg := by
  have hreports := h.reports
  refine ⟨?_, ?_, ?_, ?_⟩
  · cases outcome <;> exact h.upVotes
  · cases outcome <;> exact h.downVotes
  · cases outcome <;> exact h.comments
  · cases outcome with
    | added =>
      change 0 ≤ (Saturating.add item.reports 1).toInt
      rw [Saturating.toInt_add, Int64.toInt_one]
      rw [Saturating.clamp]
      omega
    | removed =>
      change 0 ≤ (max (Saturating.sub item.reports 1) 0).toInt
      rw [CountChange.toInt_max_zero]
      omega

theorem Request.Edits.nonneg {request : Request} {key : ContentKey} {item item' : ContentItem}
    (edits : request.Edits key item item') (h : item.Nonneg) : item'.Nonneg := by
  cases edits with
  | counts => exact CountChange.nonneg_applyTo _ _
  | _ => exact ⟨h.upVotes, h.downVotes, h.comments, h.reports⟩

theorem CountChange.floorAdd_zero {count : Int64} (h : 0 ≤ count.toInt) :
    (floorAdd count 0).toInt = count.toInt := by
  have hlt := count.toInt_lt
  rw [toInt_floorAdd]
  simp only [Int64.toInt_zero]
  omega

/-- The counts of an item agree with the records still, as long as the numbers of records with each
flag are what they were. -/
theorem ContentItem.Agrees.congr {item : ContentItem} {store later : StoreState}
    (h : item.Agrees store) (tally : ∀ flagOf, store.tally item.id flagOf =
      later.tally item.id flagOf) : item.Agrees later where
  upVotes := by rw [h.upVotes, tally]
  downVotes := by rw [h.downVotes, tally]
  reports := by rw [h.reports, tally]
  obfuscated := h.obfuscated

/-- The number of records with a flag after a write: a write moves it by the difference that the
record makes to the flag of its key. -/
theorem StoreState.tally_withRecord {store : StoreState} {record : EngagementRecord}
    (keyed : ∀ old, store.record? record.key = some old → old.key = record.key)
    {flagOf : EngagementRecord → Bool} (hflag : flagOf record.written = flagOf record) {delta : Int}
    (hdelta : (flagOf record).toInt = (store.flag record.key flagOf).toInt + delta) :
    ((store.withRecord record).tally record.content flagOf : Int) =
      store.tally record.content flagOf + delta := by
  have hinsert := @tally_insert store record.written keyed flagOf
  rw [hflag] at hinsert
  have hnat : ∀ b : Bool, (b.toNat : Int) = b.toInt := by decide
  have hcast := congrArg (Nat.cast : Nat → Int) hinsert
  push_cast at hcast
  rw [hnat, hnat, hdelta] at hcast
  change ((store.withRecord record).tally record.content flagOf : Int) + _ = _ at hcast
  change _ + (store.flag record.key flagOf).toInt = store.tally record.content flagOf + _ at hcast
  omega

/-- A write does not change the numbers of records on other items. -/
theorem StoreState.tally_withRecord_of_ne {store : StoreState} {record : EngagementRecord}
    {content : ContentId} (hne : content ≠ record.content)
    (keyed : ∀ key old, store.record? key = some old → old.key = key)
    (flagOf : EngagementRecord → Bool) :
    (store.withRecord record).tally content flagOf = store.tally content flagOf := by
  refine tally_congr fun key other hother => ?_
  rw [record?_withRecord]
  split
  · rename_i hkey
    constructor
    · rintro heq
      cases heq
      exact absurd hother.symm hne
    · intro heq
      have hcontent : other.content = record.content :=
        congrArg EngagementKey.content ((keyed key other heq).trans hkey)
      exact absurd (hother.symm.trans hcontent) hne
  · rfl

theorem Int64.zero_lt_iff (n : Int64) : 0 < n ↔ 0 < n.toInt := by
  rw [Int64.lt_iff_toInt_lt, Int64.toInt_zero]

/-- The counts of an item are right after a vote if they are changed as the numbers of records
are. -/
theorem ContentItem.Agrees.applyTo {item : ContentItem} {store later : StoreState}
    {change : CountChange} (h : item.Agrees store)
    (up : (later.tally item.id (·.upVoted) : Int) =
      store.tally item.id (·.upVoted) + change.upVotes.toInt)
    (down : (later.tally item.id (·.downVoted) : Int) =
      store.tally item.id (·.downVoted) + change.downVotes.toInt)
    (reports : later.tally item.id (·.reported) = store.tally item.id (·.reported))
    (noReports : change.reports = 0) (range : later.records.length < 9223372036854775807) :
    (change.applyTo item).Agrees later := by
  have hrange := fun flagOf => Nat.lt_of_le_of_lt (later.tally_le_length item.id flagOf) range
  have hup := hrange (·.upVoted)
  have hdown := hrange (·.downVoted)
  have hreports : (CountChange.floorAdd item.reports change.reports).toInt =
      item.reports.toInt := by
    rw [noReports]
    exact CountChange.floorAdd_zero (by rw [h.reports]; omega)
  refine ⟨?_, ?_, ?_, ?_⟩
  · change (CountChange.floorAdd item.upVotes change.upVotes).toInt = later.tally item.id _
    rw [CountChange.toInt_floorAdd, h.upVotes]
    omega
  · change (CountChange.floorAdd item.downVotes change.downVotes).toInt = later.tally item.id _
    rw [CountChange.toInt_floorAdd, h.downVotes]
    omega
  · change (CountChange.floorAdd item.reports change.reports).toInt = later.tally item.id _
    rw [hreports, h.reports, reports]
  · change item.obfuscated = true ↔ 0 < CountChange.floorAdd item.reports change.reports ∧ _
    rw [Int64.zero_lt_iff, hreports, ← Int64.zero_lt_iff]
    exact h.obfuscated

/-- The count of reports is right after a report, and the item is hidden if it has to be. -/
theorem ContentItem.Agrees.report {item : ContentItem} {store later : StoreState}
    {outcome : ReportOutcome} (h : item.Agrees store)
    (up : later.tally item.id (·.upVoted) = store.tally item.id (·.upVoted))
    (down : later.tally item.id (·.downVoted) = store.tally item.id (·.downVoted))
    (reports : (later.tally item.id (·.reported) : Int) =
      store.tally item.id (·.reported) + outcome.delta)
    (range : later.records.length < 9223372036854775807) :
    (outcome.applyTo item).Agrees later := by
  have hrange := Nat.lt_of_le_of_lt (later.tally_le_length item.id (·.reported)) range
  have hstored := h.reports
  have hhidden := h.obfuscated
  rw [Int64.zero_lt_iff] at hhidden
  cases outcome with
  | added =>
    rw [ReportOutcome.delta_added] at reports
    have hcount : (Saturating.add item.reports 1).toInt = later.tally item.id (·.reported) := by
      rw [Saturating.toInt_add, Int64.toInt_one, hstored]
      rw [Saturating.clamp]
      omega
    refine ⟨h.upVotes.trans (by rw [← up]; rfl), h.downVotes.trans (by rw [← down]; rfl),
      hcount, ?_⟩
    change (if item.reviewed = true then item.obfuscated else true) = true ↔
      0 < Saturating.add item.reports 1 ∧ item.reviewed = false
    rw [Int64.zero_lt_iff, hcount, reports]
    cases hreviewed : item.reviewed with
    | true => simp [hhidden, hreviewed]
    | false =>
      simp only [Bool.false_eq_true, ↓reduceIte, and_true, true_iff]
      omega
  | removed =>
    rw [ReportOutcome.delta_removed] at reports
    have hcount : (max (Saturating.sub item.reports 1) 0).toInt =
        later.tally item.id (·.reported) := by
      rw [CountChange.toInt_max_zero, Saturating.toInt_sub, Int64.toInt_one, hstored]
      rw [Saturating.clamp]
      omega
    have hnone : max (Saturating.sub item.reports 1) 0 = 0 ↔
        (later.tally item.id (·.reported) : Int) = 0 := by
      rw [← Int64.toInt_inj, hcount, Int64.toInt_zero]
    refine ⟨h.upVotes.trans (by rw [← up]; rfl), h.downVotes.trans (by rw [← down]; rfl),
      hcount, ?_⟩
    change (if max (Saturating.sub item.reports 1) 0 = 0 ∧ ¬item.reviewed = true then false
      else item.obfuscated) = true ↔ 0 < max (Saturating.sub item.reports 1) 0 ∧
        item.reviewed = false
    rw [Int64.zero_lt_iff, hcount]
    simp only [hnone]
    cases hreviewed : item.reviewed with
    | true => simp [hhidden, hreviewed]
    | false =>
      simp only [hreviewed, and_true] at hhidden
      by_cases hleft : (later.tally item.id (·.reported) : Int) = 0
      · simp [hleft]
      · simp only [hleft, false_and, ↓reduceIte, hhidden, and_true]
        omega

end HiveForum
