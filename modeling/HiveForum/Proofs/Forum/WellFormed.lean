import HiveForum.Proofs.Deletion.Clearing
import HiveForum.Proofs.Engagement.Writes
import HiveForum.Proofs.Forum.Lineage

/-!
# Well-formed stores

The store does not know what its items and records mean. That a comment is stored under a post of
its hive, that a record belongs to an item that is there, that texts are within their limits and
flags agree with counts: all this is up to the operations. As long as they take turns, they see to
it at every moment, also in the middle of a deletion that is given up.

## Main definitions

* `ContentItem.WellFormed`, `EngagementRecord.WellFormed`: what holds of a single item and record.
* `StoreState.Houses`, `StoreState.Backs`: an item has its place, a record has its item.
* `StoreState.WellFormed`: what holds of a store.

## Main results

* `StoreState.WellFormed.putItem`, `StoreState.WellFormed.removeItem`,
  `StoreState.WellFormed.withRecord` and others: the changes that keep a store well-formed.
* `Operation.Amends.wellFormed`: the changes that an operation makes are among them.
-/

namespace HiveForum

open Relation

/-- The text and the tags of an item are within their limits, no count is negative, the item was
active when it was created or later, and it is hidden exactly while it is reported and not
reviewed. -/
structure ContentItem.WellFormed (item : ContentItem) : Prop where
  body : ∃ c ∈ item.body.toList, Blank.isBlank c = false
  length : item.body.toList.length ≤ Limit.body
  tags : item.tags.size ≤ Limit.itemTags
  counts : item.Nonneg
  active : item.createdAt ≤ item.lastActivityAt
  hidden : item.obfuscated = true ↔ 0 < item.reports ∧ item.reviewed = false

/-- A record is no vote for and against, a vote has its time, and a reason is one of a report and
within its limit. -/
structure EngagementRecord.WellFormed (record : EngagementRecord) : Prop where
  oneVote : ¬(record.upVoted = true ∧ record.downVoted = true)
  voted : record.upVoted = true ∨ record.downVoted = true → record.votedAt.isSome
  reason : ∀ reason, record.reason = some reason →
    record.reported = true ∧ reason.toList.length ≤ Limit.reason

namespace StoreState

/-- An item has its place: a post in its hive, a comment under a post of its hive that is stored. -/
def Houses (store : StoreState) (item : ContentItem) : Prop :=
  match item.kind with
  | .post => item.scope = item.hive
  | .comment => ∃ post, store.item? ⟨item.hive, post.id⟩ = some post ∧ post.kind = .post ∧
    post.hive = item.hive ∧ post.id.asScope = item.scope

/-- The item that a record is about is stored in the scope and the hive of the record. -/
def Backs (store : StoreState) (record : EngagementRecord) : Prop :=
  ∃ item, store.item? ⟨record.scope, record.content⟩ = some item ∧ item.hive = record.hive

/-- No scope is kept without items. Every item stands under its own key and every record under its
own, each is well-formed, and items and records belong together. -/
structure WellFormed (store : StoreState) : Prop where
  compact : store.Compact
  items : ∀ key item, store.item? key = some item →
    item.key = key ∧ item.WellFormed ∧ store.Houses item
  records : ∀ key record, store.record? key = some record →
    record.key = key ∧ record.WellFormed ∧ store.Backs record

end StoreState

/-! ### Items -/

theorem Int64.le_max (a b : Int64) : a ≤ max a b := by
  change a ≤ if a ≤ b then b else a
  split
  · assumption
  · exact Int64.le_refl a

namespace ContentItem

variable {item : ContentItem}

theorem wellFormed_of_fresh (fresh : item.asCreated = item) (body : checkBody item.body = .ok ())
    (tags : item.tags.size ≤ Limit.itemTags) : item.WellFormed where
  body := (checkBody_eq_ok_iff.1 body).1
  length := (checkBody_eq_ok_iff.1 body).2
  tags := tags
  counts := fresh ▸ item.nonneg_asCreated
  active := by rw [← fresh]; exact Int64.le_refl _
  hidden := by
    have hnone : ¬(0 : Int64) < 0 := by decide
    rw [← fresh]
    exact ⟨(fun h => by cases h), fun h => absurd h.1 hnone⟩

variable (h : item.WellFormed)

include h

theorem WellFormed.applyTo {change : CountChange} (noReports : change.reports = 0) :
    (change.applyTo item).WellFormed := by
  have hreports : (change.applyTo item).reports = item.reports := by
    refine Int64.toInt_inj.1 ?_
    change (CountChange.floorAdd item.reports change.reports).toInt = _
    rw [noReports]
    exact CountChange.floorAdd_zero h.counts.reports
  refine { h with counts := change.nonneg_applyTo item, hidden := ?_ }
  rw [hreports]
  exact h.hidden

theorem WellFormed.touch (time : Int64) :
    { item with lastActivityAt := max item.lastActivityAt time }.WellFormed :=
  ⟨h.body, h.length, h.tags, ⟨h.counts.1, h.counts.2, h.counts.3, h.counts.4⟩,
    Int64.le_trans h.active (Int64.le_max _ _), h.hidden⟩

theorem WellFormed.review :
    { item with reviewed := true, obfuscated := false }.WellFormed :=
  ⟨h.body, h.length, h.tags, ⟨h.counts.1, h.counts.2, h.counts.3, h.counts.4⟩, h.active, by simp⟩

theorem WellFormed.pin (pinned : Bool) : { item with pinned := pinned }.WellFormed :=
  ⟨h.body, h.length, h.tags, ⟨h.counts.1, h.counts.2, h.counts.3, h.counts.4⟩, h.active, h.hidden⟩

/-- A report is added to an item that is not reviewed, or removed. -/
theorem WellFormed.report {outcome : ReportOutcome}
    (open_ : outcome = .added → item.reviewed = false) : (outcome.applyTo item).WellFormed := by
  have counts := outcome.nonneg_applyTo h.counts
  have hlow := h.counts.reports
  have hhidden := h.hidden
  rw [Int64.zero_lt_iff] at hhidden
  cases outcome with
  | added =>
    have hreviewed := open_ rfl
    refine ⟨h.body, h.length, h.tags, counts, h.active, ?_⟩
    change (if item.reviewed = true then item.obfuscated else true) = true ↔
      0 < Saturating.add item.reports 1 ∧ item.reviewed = false
    have hcount : 0 < (Saturating.add item.reports 1).toInt := by
      rw [Saturating.toInt_add, Int64.toInt_one, Saturating.clamp]
      omega
    simp [hreviewed, Int64.zero_lt_iff, hcount]
  | removed =>
    refine ⟨h.body, h.length, h.tags, counts, h.active, ?_⟩
    have hleft : (max (Saturating.sub item.reports 1) 0).toInt =
        max (item.reports.toInt - 1) 0 := by
      have hhigh := item.reports.toInt_lt
      rw [CountChange.toInt_max_zero, Saturating.toInt_sub, Int64.toInt_one, Saturating.clamp]
      omega
    have hnone : max (Saturating.sub item.reports 1) 0 = 0 ↔ item.reports.toInt ≤ 1 := by
      rw [← Int64.toInt_inj, hleft, Int64.toInt_zero]
      omega
    change (if max (Saturating.sub item.reports 1) 0 = 0 ∧ ¬item.reviewed = true then false
      else item.obfuscated) = true ↔ 0 < max (Saturating.sub item.reports 1) 0 ∧
        item.reviewed = false
    rw [Int64.zero_lt_iff, hleft]
    simp only [hnone]
    cases hreviewed : item.reviewed with
    | true => simp [hhidden, hreviewed]
    | false =>
      simp only [hreviewed, and_true] at hhidden
      by_cases hlast : item.reports.toInt ≤ 1
      · simp [hlast]
      · simp only [hlast, false_and, ↓reduceIte, hhidden, and_true]
        omega

end ContentItem

/-! ### Records -/

namespace EngagementRecord

variable {record changed : EngagementRecord}

/-- A record takes the place of another one: it is of the same user on the same item, and it is
well-formed. -/
structure Succeeds (record changed : EngagementRecord) : Prop where
  key : changed.key = record.key
  scope : changed.scope = record.scope
  hive : changed.hive = record.hive
  formed : changed.WellFormed

theorem wellFormed_neutral (user : UserId) (content : ContentKey) (hive : ScopeId) :
    (neutral user content hive).WellFormed :=
  ⟨by simp [neutral], by simp [neutral], by simp [neutral]⟩

theorem WellFormed.written (h : record.WellFormed) : record.written.WellFormed :=
  ⟨h.oneVote, h.voted, h.reason⟩

theorem WellFormed.succeeds_vote (h : record.WellFormed) {request : VoteRequest} {time : Int64}
    {change : VoteChange} (takes : record.vote request time = .apply (changed, change)) :
    record.Succeeds changed := by
  have changes := changes_vote h.oneVote takes
  rw [vote] at takes
  split at takes
  · cases takes
    obtain ⟨side, add⟩ := request
    cases side <;> cases add <;>
      exact ⟨rfl, rfl, rfl, changes.oneVote, fun _ => rfl, h.reason⟩
  · cases takes

theorem WellFormed.succeeds_setSaved (h : record.WellFormed) {saved : Bool}
    (takes : record.setSaved saved = .apply changed) : record.Succeeds changed := by
  rw [setSaved] at takes
  split at takes
  · cases takes
  · cases takes
    exact ⟨rfl, rfl, rfl, h.oneVote, h.voted, h.reason⟩

/-- The reason of a report has to be within the limit. -/
theorem WellFormed.succeeds_report (h : record.WellFormed) {action : ReportAction}
    {reviewed : Bool} {outcome : ReportOutcome}
    (fits : ∀ reason, action = .report reason → checkReason reason = .ok ())
    (takes : record.report action reviewed = .ok (.apply (changed, outcome))) :
    record.Succeeds changed := by
  rw [report] at takes
  split at takes
  · cases takes
  · cases takes
  · cases takes
    cases outcome with
    | removed => exact ⟨rfl, rfl, rfl, h.oneVote, h.voted, fun _ h => by cases h⟩
    | added =>
      refine ⟨rfl, rfl, rfl, h.oneVote, h.voted, fun reason given => ⟨rfl, ?_⟩⟩
      cases action with
      | withdraw => cases given
      | report asked =>
        obtain rfl : asked = some reason := given
        have hfits := fits _ rfl
        rw [checkReason] at hfits
        split at hfits
        · cases hfits
        · omega

end EngagementRecord

/-! ### Stores -/

namespace StoreState

variable {store : StoreState}

theorem wellFormed_empty : empty.WellFormed where
  compact := fun _ _ h => by cases h
  items := fun _ _ h => by cases h
  records := fun _ _ h => by cases h

/-- An item still has its place if the posts are still there. -/
theorem Houses.mono {later : StoreState} {item : ContentItem} (h : store.Houses item)
    (posts : ∀ key post, store.item? key = some post → post.kind = .post →
      post.id.asScope = item.scope →
      ∃ now, later.item? key = some now ∧ now.asCreated = post.asCreated) :
    later.Houses item := by
  unfold Houses at h ⊢
  split
  · simpa only [*] using h
  · rename_i hkind
    simp only [hkind] at h
    obtain ⟨post, found, kind, owned, scope⟩ := h
    obtain ⟨now, hnow, same⟩ := posts _ post found kind scope
    have hid : now.id = post.id := ContentItem.field_eq same ContentItem.id fun _ => rfl
    refine ⟨now, hid.symm ▸ hnow, ?_, ?_, hid.symm ▸ scope⟩
    · rw [← kind]
      exact ContentItem.field_eq same ContentItem.kind fun _ => rfl
    · rw [← owned]
      exact ContentItem.field_eq same ContentItem.hive fun _ => rfl

theorem Houses.congr {item item' : ContentItem} (h : store.Houses item)
    (same : item'.asCreated = item.asCreated) : store.Houses item' := by
  have hkind : item'.kind = item.kind := ContentItem.field_eq same ContentItem.kind fun _ => rfl
  have hscope : item'.scope = item.scope := ContentItem.field_eq same ContentItem.scope fun _ => rfl
  have hhive : item'.hive = item.hive := ContentItem.field_eq same ContentItem.hive fun _ => rfl
  unfold Houses
  rw [hkind, hscope, hhive]
  exact h

theorem Backs.mono {later : StoreState} {record : EngagementRecord} (h : store.Backs record)
    (items : ∀ key item, store.item? key = some item → key.id = record.content →
      ∃ now, later.item? key = some now ∧ now.asCreated = item.asCreated) :
    later.Backs record := by
  obtain ⟨item, found, owned⟩ := h
  obtain ⟨now, hnow, same⟩ := items _ item found rfl
  refine ⟨now, hnow, ?_⟩
  rw [← owned]
  exact ContentItem.field_eq same ContentItem.hive fun _ => rfl

namespace WellFormed

variable (h : store.WellFormed)

include h

/-- A well-formed item is stored that has its place, where there was none or the same one. -/
theorem putItem {key : ContentKey} {item : ContentItem} (own : item.key = key)
    (formed : item.WellFormed) (housed : store.Houses item)
    (same : ∀ before, store.item? key = some before → item.asCreated = before.asCreated) :
    (store.putItem key item).WellFormed := by
  have stays : ∀ other before, store.item? other = some before →
      ∃ now, (store.putItem key item).item? other = some now ∧
        now.asCreated = before.asCreated := by
    intro other before found
    rw [item?_putItem]
    split
    · rename_i hkey
      exact ⟨item, rfl, same before (hkey ▸ found)⟩
    · exact ⟨before, found, rfl⟩
  refine ⟨h.compact.putItem key item, fun other found hfound => ?_, fun other record hrecord => ?_⟩
  · rw [item?_putItem] at hfound
    split at hfound
    · rename_i hkey
      obtain rfl := Option.some.inj hfound
      exact ⟨own.trans hkey.symm, formed,
        housed.mono fun key post hpost _ _ => stays key post hpost⟩
    · obtain ⟨hkey, hformed, hhoused⟩ := h.items other found hfound
      exact ⟨hkey, hformed, hhoused.mono fun key post hpost _ _ => stays key post hpost⟩
  · obtain ⟨hkey, hformed, hbacked⟩ := h.records other record hrecord
    exact ⟨hkey, hformed, hbacked.mono fun key item hitem _ => stays key item hitem⟩

theorem editItem {key : ContentKey} {item item' : ContentItem}
    (found : store.item? key = some item) (same : item'.asCreated = item.asCreated)
    (formed : item'.WellFormed) : (store.putItem key item').WellFormed := by
  obtain ⟨hkey, -, housed⟩ := h.items key item found
  refine h.putItem ?_ formed (housed.congr same) fun before hbefore => ?_
  · rw [← hkey]
    exact ContentItem.field_eq same ContentItem.key fun _ => rfl
  · rw [found] at hbefore
    exact Option.some.inj hbefore ▸ same

/-- An item is removed below which nothing is left. -/
theorem removeItem {key : ContentKey} (bare : (store.removeItem key).Bare key.id) :
    (store.removeItem key).WellFormed := by
  have stays : ∀ {other : ContentKey} {item : ContentItem}, other ≠ key →
      store.item? other = some item →
        ∃ now, (store.removeItem key).item? other = some now ∧ now.asCreated = item.asCreated := by
    intro other item hne found
    exact ⟨item, by rw [item?_removeItem, if_neg hne, found], rfl⟩
  refine ⟨h.compact.removeItem key, fun other item hitem => ?_, fun other record hrecord => ?_⟩
  · have hstored : store.item? other = some item := by
      rw [item?_removeItem] at hitem
      split at hitem
      · cases hitem
      · exact hitem
    obtain ⟨hkey, formed, housed⟩ := h.items other item hstored
    refine ⟨hkey, formed, housed.mono fun above post hpost _ hscope => stays ?_ hpost⟩
    rintro rfl
    have hpost := congrArg ContentKey.id (h.items _ post hpost).1
    have hnone := bare.items other (by rw [← hkey, ← hpost]; exact hscope.symm)
    rw [hitem] at hnone
    cases hnone
  · have hstored := hrecord
    rw [record?_removeItem] at hstored
    obtain ⟨hkey, formed, backed⟩ := h.records other record hstored
    refine ⟨hkey, formed, backed.mono fun place item hitem hplace => stays ?_ hitem⟩
    rintro rfl
    have hnone := bare.records other (by rw [← hkey]; exact hplace.symm)
    rw [hrecord] at hnone
    cases hnone

/-- A well-formed record is written whose item is stored. -/
theorem withRecord {record : EngagementRecord} (formed : record.WellFormed)
    (backed : store.Backs record) : (store.withRecord record).WellFormed := by
  refine ⟨h.compact, h.items, fun key stored hstored => ?_⟩
  rw [record?_withRecord] at hstored
  split at hstored
  · rename_i hkey
    obtain rfl := Option.some.inj hstored
    exact ⟨hkey.symm, formed.written, backed⟩
  · exact h.records key stored hstored

theorem removeRecords (keys : List EngagementKey) : (store.removeRecords keys).WellFormed := by
  refine ⟨h.compact, h.items, fun key record hrecord => ?_⟩
  rw [record?_removeRecords] at hrecord
  split at hrecord
  · cases hrecord
  · exact h.records key record hrecord

end WellFormed

end StoreState

/-! ### Operations -/

namespace Forum

variable {forum : Forum} {caller : Caller} {target : Target} {item : ContentItem}

/-- The record that a user has on an item that is stored is well-formed, and the item is stored
where the record says. -/
theorem wellFormed_recordOf (h : forum.store.WellFormed)
    (found : forum.store.item? target.content = some item) (owned : item.hive = target.hive)
    (user : UserId) :
    (forum.recordOf user target.content target.hive).WellFormed ∧
      forum.store.Backs (forum.recordOf user target.content target.hive) := by
  rw [recordOf]
  cases hrecord : forum.store.record? ⟨user, target.content.id⟩ with
  | none => exact ⟨EngagementRecord.wellFormed_neutral _ _ _, item, found, owned⟩
  | some record => exact (h.records _ record hrecord).2

theorem wellFormed_withRecord (h : forum.store.WellFormed)
    (found : forum.store.item? target.content = some item) (owned : item.hive = target.hive)
    {user : UserId} {record : EngagementRecord}
    (succeeds : (forum.recordOf user target.content target.hive).WellFormed →
      (forum.recordOf user target.content target.hive).Succeeds record) :
    (forum.store.withRecord record).WellFormed := by
  obtain ⟨formed, backed⟩ := wellFormed_recordOf h found owned user
  obtain ⟨key, scope, hive, hformed⟩ := succeeds formed
  refine h.withRecord hformed ?_
  have hcontent : record.content = _ := congrArg EngagementKey.content key
  rw [StoreState.Backs, scope, hive, hcontent]
  exact backed

end Forum

/-- What an operation issues keeps the store well-formed. -/
theorem Operation.Issues.wellFormed {site : Site} {forum : Forum} {op : Operation}
    {request : Request} {store : StoreState} (issues : op.Issues site forum request)
    (change : forum.store.Change request store) (h : forum.store.WellFormed) :
    store.WellFormed := by
  have formed : ∀ {key : ContentKey} {item : ContentItem}, forum.store.item? key = some item →
      item.WellFormed := fun found => (h.items _ _ found).2.1
  cases issues with
  | post bodyFits tagsFit =>
    cases change with
    | read hread => cases hread
    | edit edits => cases edits
    | put vacant =>
      refine h.putItem rfl (ContentItem.wellFormed_of_fresh rfl bodyFits ?_) rfl fun _ hbefore => ?_
      · refine Nat.le_trans (SortedSet.size_ofList_le _) ?_
        rw [checkTagCount] at tagsFit
        split at tagsFit
        · cases tagsFit
        · omega
      · rw [vacant] at hbefore
        cases hbefore
  | comment bodyFits found owned kind =>
    cases change with
    | read hread => cases hread
    | edit edits => cases edits
    | put vacant =>
      obtain rfl := congrArg ContentKey.id (h.items _ _ found).1
      refine h.putItem rfl (ContentItem.wellFormed_of_fresh rfl bodyFits (Nat.zero_le _))
        ⟨_, found, kind, owned, rfl⟩ fun _ hbefore => ?_
      rw [vacant] at hbefore
      cases hbefore
  | count =>
    cases change with
    | read hread => cases hread
    | edit edits found =>
      cases edits
      exact h.editItem found rfl ((formed found).applyTo rfl)
  | touch =>
    cases change with
    | read hread => cases hread
    | edit edits found =>
      cases edits
      exact h.editItem found rfl ((formed found).touch _)
  | review =>
    cases change with
    | read hread => cases hread
    | edit edits found =>
      cases edits
      exact h.editItem found rfl (formed found).review
  | pin =>
    cases change with
    | read hread => cases hread
    | edit edits found =>
      cases edits
      exact h.editItem found rfl ((formed found).pin _)
  | vote found owned takes =>
    have written :=
      Forum.wellFormed_withRecord h found owned fun formed => formed.succeeds_vote takes
    cases change with
    | read hread => cases hread
    | edit edits => cases edits
    | vote found => exact written.editItem found rfl ((formed found).applyTo rfl)
  | save found owned takes =>
    have written := Forum.wellFormed_withRecord h found owned fun formed =>
      formed.succeeds_setSaved takes
    cases change with
    | read hread => cases hread
    | edit edits => cases edits
    | write => exact written
  | report reasonFits found owned takes =>
    have written := Forum.wellFormed_withRecord h found owned fun formed =>
      formed.succeeds_report (fun reason heq => by cases heq; exact reasonFits) takes
    cases change with
    | read hread => cases hread
    | edit edits => cases edits
    | report found open_ =>
      exact written.editItem found (ReportOutcome.asCreated_applyTo _ _)
        ((formed found).report open_)
  | withdraw found owned takes =>
    have written := Forum.wellFormed_withRecord h found owned fun formed =>
      formed.succeeds_report (fun reason heq => by cases heq) takes
    cases change with
    | read hread => cases hread
    | edit edits => cases edits
    | report found open_ =>
      exact written.editItem found (ReportOutcome.asCreated_applyTo _ _)
        ((formed found).report open_)

/-- So does a deletion, whatever it has come to. -/
theorem Forum.Clears.wellFormed {root : ContentItem} {forum later : Forum}
    (clears : Clears root forum later) (h : forum.store.WellFormed) : later.store.WellFormed := by
  cases clears with
  | erases keys => exact h.removeRecords keys
  | @removes key gone =>
    cases hitem : forum.store.item? key with
    | some item => exact h.removeItem (gone item hitem).2
    | none =>
      have hsame : forum.store.removeItem key = forum.store := by
        refine StoreState.ext_of_lookups (h.compact.removeItem key) h.compact (fun other => ?_)
          fun other => StoreState.record?_removeItem _ _ _
        rw [StoreState.item?_removeItem]
        split
        · rename_i hkey
          rw [hkey, hitem]
        · rfl
      exact hsame.symm ▸ h
  | uncounts found => exact h.editItem found rfl ((h.items _ _ found).2.1.applyTo rfl)

/-- Every change that an operation makes keeps the store well-formed. -/
theorem Operation.Amends.wellFormed {site : Site} {start forum later : Forum} {op : Operation}
    (amends : op.Amends site start forum later) (h : forum.store.WellFormed) :
    later.store.WellFormed := by
  cases amends with
  | @issues _ _ request store issues change =>
    rw [Forum.after_store]
    exact issues.wellFormed change h
  | clears _ _ _ clears => exact clears.wellFormed h

/-- However far the operation of a turn gets, the store remains well-formed. -/
theorem Turn.Runs.wellFormed {site : Site} {turn : Turn} {state after : Forum × Journal}
    {thread : Thread turn.invocation.operation.Result} (run : turn.Runs site state thread after)
    (fits : turn.Fits site) (reachable : state.1.Reachable site) (h : state.1.store.WellFormed) :
    after.1.store.WellFormed := by
  have keeps : ∀ {later : Forum}, ReflTransGen
      (turn.invocation.operation.Amends (turn.place site) state.1) state.1 later →
        later.store.WellFormed := by
    intro later amends
    induction amends with
    | refl => exact h
    | tail _ step ih => exact step.wellFormed ih
  exact keeps (run.amends fits reachable)

/-- Whatever operations have been run in turn, and however far they got, the store is well-formed,
and the version of a record is the number of its writes since it was last absent. -/
theorem Chronicle.store_wellFormed {site : Site} {forum : Forum} {journal : Journal}
    (h : Chronicle site (forum, journal)) :
    forum.store.WellFormed ∧ ∀ key record, forum.store.record? key = some record →
      1 ≤ journal.writes key ∧ record.version = .ofNat (journal.writes key) := by
  have formed : ∀ {state : Forum × Journal}, Chronicle site state → state.1.store.WellFormed := by
    intro state h
    induction h with
    | blank => exact StoreState.wellFormed_empty
    | turn chronicle fits run ih => exact run.wellFormed fits chronicle.reachable ih
  refine ⟨formed h, fun key record hrecord => ?_⟩
  have hkey := h.counts key
  rw [hrecord] at hkey
  exact hkey

namespace Sample

/-- The member writes the post, and then votes for it. -/
theorem votedForum_wellFormed : ∃ journal,
    Chronicle site (votedForum, journal) ∧
      votedForum.store.record? voted.key = some voted.written ∧ votedForum.store.WellFormed ∧
        ∀ key record, votedForum.store.record? key = some record →
          1 ≤ journal.writes key ∧ record.version = .ofNat (journal.writes key) := by
  let posting : Turn := ⟨site.directory, .calm, {}, 0, .createPost caller post.hive "body" []⟩
  let voting : Turn := ⟨site.directory, .calm, {}, 0, .vote caller ⟨post.hive, post.key⟩ .addUp⟩
  have distinct : ∀ store, Forum.DistinctIds site ⟨store, [post]⟩ :=
    fun _ => ⟨List.nodup_singleton _, fun item hitem => List.mem_singleton.1 hitem ▸ rfl⟩
  have member : site.directory.checkMember caller post.hive = .ok .owner := rfl
  obtain ⟨journal, run⟩ := (@createPost_steps site .calm _ .blank caller post.hive "body" [] _ 0 _
    member rfl rfl rfl ⟨.nil, fun _ h => by cases h⟩ (distinct _)).exists_journal []
  have posted : Chronicle site (forum, journal) :=
    @Chronicle.turn site _ _ posting _ .blank ⟨Conditions.honest_calm, fun _ => id⟩ run
  obtain ⟨journal', run'⟩ :=
    (@vote_steps .calm _ (distinct forum.store) (distinct votedForum.store)).exists_journal journal
  have chronicle : Chronicle site (votedForum, journal') :=
    @Chronicle.turn site _ _ voting _ posted ⟨Conditions.honest_calm, fun _ => id⟩ run'
  exact ⟨journal', chronicle, rfl, Chronicle.store_wellFormed chronicle⟩

end Sample

end HiveForum
