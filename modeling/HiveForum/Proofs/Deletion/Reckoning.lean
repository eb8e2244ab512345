import HiveForum.Proofs.Deletion.Removal
import HiveForum.Proofs.Forum.Alone
import HiveForum.Proofs.Store.Census

/-!
# Counts after deletions that fail

A deletion that fails half-way leaves its item in place, though records and comments below it have
gone already; the counts of the item still include them. In a run of operations one after another
every count is the number of what is stored and of what deletions have removed below the item.

## Main definitions

* `Deletion`: a deletion that was tried, with the number of records and comments that it removed.
* `Forum.History`: operations run one after another, and any deletion may fail at any point.
* `ContentItem.Reckons`: the counts of an item include what deletions have removed.

## Main results

* `Forum.Reckoned.becomes`, `Forum.Reckoned.deletes`: what an operation and a deletion make of the
  counts.
* `Forum.counts_reckoned`: every count is the number of what is stored and what has been removed.
* `Sample.counted_twice`: a vote that is cast again after a deletion that failed counts twice.
-/

namespace HiveForum

open Program

/-- A deletion that was tried: the contents of the store before and after it. -/
structure Deletion where
  before : StoreState
  after : StoreState

namespace Deletion

/-- The number of records on an item with a flag that deletions have removed. -/
def tally (deletions : List Deletion) (content : ContentId) (flagOf : EngagementRecord → Bool) :
    Nat :=
  (deletions.map fun deletion => deletion.before.records.countP fun record =>
    (decide (record.content = content) && flagOf record) &&
      (deletion.after.record? record.key).isNone).sum

/-- The number of comments in a scope that deletions have removed while the post above them stayed
as it was. -/
def comments (deletions : List Deletion) (scope : ScopeId) : Nat :=
  (deletions.map fun deletion => (deletion.before.scopeItems scope).countP fun comment =>
    (deletion.after.item? comment.key).isNone &&
      decide (deletion.after.item? comment.parentKey =
        deletion.before.item? comment.parentKey)).sum

theorem tally_singleton (before after : StoreState) (content : ContentId)
    (flagOf : EngagementRecord → Bool) : tally [⟨before, after⟩] content flagOf =
      before.records.countP fun record => (decide (record.content = content) && flagOf record) &&
        (after.record? record.key).isNone := Nat.add_zero _

theorem comments_singleton (before after : StoreState) (scope : ScopeId) :
    comments [⟨before, after⟩] scope = (before.scopeItems scope).countP fun comment =>
      (after.item? comment.key).isNone &&
        decide (after.item? comment.parentKey = before.item? comment.parentKey) := Nat.add_zero _

variable (deletions : List Deletion) (deletion : Deletion)

@[simp]
theorem tally_nil (content : ContentId) (flagOf : EngagementRecord → Bool) :
    tally [] content flagOf = 0 := rfl

@[simp]
theorem comments_nil (scope : ScopeId) : comments [] scope = 0 := rfl

theorem tally_append (content : ContentId) (flagOf : EngagementRecord → Bool) :
    tally (deletions ++ [deletion]) content flagOf =
      tally deletions content flagOf + tally [deletion] content flagOf := by
  simp [tally]

theorem comments_append (scope : ScopeId) :
    comments (deletions ++ [deletion]) scope =
      comments deletions scope + comments [deletion] scope := by
  simp [comments]

end Deletion

/-- The counts of an item are the numbers of the records on it with each flag, those included that
deletions have removed; so is the count of comments of a post. -/
structure ContentItem.Reckons (item : ContentItem) (store : StoreState)
    (deletions : List Deletion) : Prop where
  upVotes : item.upVotes.toInt =
    store.tally item.id (·.upVoted) + Deletion.tally deletions item.id (·.upVoted)
  downVotes : item.downVotes.toInt =
    store.tally item.id (·.downVoted) + Deletion.tally deletions item.id (·.downVoted)
  reports : item.reports.toInt =
    store.tally item.id (·.reported) + Deletion.tally deletions item.id (·.reported)
  comments : item.kind = .post → item.comments.toInt =
    (store.scopeItems item.id.asScope).length + Deletion.comments deletions item.id.asScope

/-- No count of the item is larger than a number. -/
structure ContentItem.AtMost (item : ContentItem) (bound : Nat) : Prop where
  upVotes : item.upVotes.toInt ≤ bound
  downVotes : item.downVotes.toInt ≤ bound
  comments : item.comments.toInt ≤ bound
  reports : item.reports.toInt ≤ bound

namespace Forum

/-- Operations have been run one after another on the empty forum, and deletions have been tried:
their number and the deletions are recorded. An operation that does not delete meets no call that
fails, or it fails itself. A deletion may meet anything: calls that are refused, batches that are
left half done, and the end of its time. -/
inductive History (site : Site) : List Deletion → Nat → Forum → Prop where
  | blank : History site [] 0 .blank
  | acts {deletions : List Deletion} {turns : Nat} {forum after : Forum} {invocation : Invocation}
      {thread : Thread invocation.operation.Result}
      {result : Except OperationError invocation.operation.Result}
      (history : History site deletions turns forum)
      (other : invocation.operation.isDeletion = false)
      (steps : Thread.Steps ((site.responses .calm).within (DistinctIds site))
        invocation.thread.2 forum thread after)
      (ended : thread.result? = some result) : History site deletions (turns + 1) after
  | fails {deletions : List Deletion} {turns : Nat} {forum after : Forum} {invocation : Invocation}
      {conditions : Conditions} {error : OperationError}
      (history : History site deletions turns forum)
      (other : invocation.operation.isDeletion = false) (honest : conditions.Honest)
      (steps : Thread.Steps ((site.responses conditions).within (DistinctIds site))
        invocation.thread.2 forum (.running (.fail error)) after) :
      History site deletions (turns + 1) after
  /-- A deletion is tried; it ends well or fails. -/
  | deletes {deletions : List Deletion} {turns : Nat} {forum after : Forum} {settings : Settings}
      {horizon : Nat} {caller : Caller} {target : Target} {conditions : Conditions}
      {thread : Thread Unit} {result : Except OperationError Unit}
      (history : History site deletions turns forum) (honest : conditions.Honest)
      (steps : Thread.Steps ((site.responses conditions).within (DistinctIds site))
        (.running (deleteContent settings horizon caller target)) forum thread after)
      (ended : thread.result? = some result) :
      History site (deletions ++ [⟨forum.store, after.store⟩]) (turns + 1) after

/-- The identifier has not been given out. -/
structure Unused (site : Site) (forum : Forum) (id : ContentId) : Prop where
  items : ∀ item ∈ forum.created, item.id ≠ id
  hives : site.directory.hives.get? id.asScope = none

/-- The counts of all items include what deletions have removed, and none is larger than the number
of operations. Nothing has been removed below an item that is still to come. -/
structure Reckoned (site : Site) (deletions : List Deletion) (turns : Nat) (forum : Forum) :
    Prop where
  items : ∀ key item, forum.store.item? key = some item →
    item.Reckons forum.store deletions ∧ item.AtMost turns
  unused : ∀ id, forum.Unused site id →
    (∀ flagOf, Deletion.tally deletions id flagOf = 0) ∧ Deletion.comments deletions id.asScope = 0

end Forum

/-! ### One item -/

namespace ContentItem

variable {item item' : ContentItem} {store later : StoreState} {deletions : List Deletion}
  {turns : Nat} {up down comments reports : Int}

theorem AtMost.mono (h : item.AtMost turns) : item.AtMost (turns + 1) := by
  obtain ⟨hup, hdown, hcomments, hreports⟩ := h
  constructor <;> omega

theorem Reckons.congr (h : item.Reckons store deletions)
    (tally : ∀ flagOf, later.tally item.id flagOf = store.tally item.id flagOf)
    (scope : item.kind = .post →
      (later.scopeItems item.id.asScope).length = (store.scopeItems item.id.asScope).length) :
    item.Reckons later deletions where
  upVotes := by rw [h.upVotes, tally]
  downVotes := by rw [h.downVotes, tally]
  reports := by rw [h.reports, tally]
  comments hkind := by rw [h.comments hkind, scope hkind]

/-- The counts of an item are right when they are moved as the numbers are. -/
theorem Reckons.moves (h : item.Reckons store deletions) (bound : item.AtMost turns)
    (room : turns + 1 < 9223372036854775808) (moves : item.Moves item' up down comments reports)
    (small : up ≤ 1 ∧ down ≤ 1 ∧ comments ≤ 1 ∧ reports ≤ 1)
    (hup : (later.tally item.id (·.upVoted) : Int) = store.tally item.id (·.upVoted) + up)
    (hdown : (later.tally item.id (·.downVoted) : Int) = store.tally item.id (·.downVoted) + down)
    (hreports : (later.tally item.id (·.reported) : Int) =
      store.tally item.id (·.reported) + reports)
    (hcomments : item.kind = .post → ((later.scopeItems item.id.asScope).length : Int) =
      (store.scopeItems item.id.asScope).length + comments) :
    item'.Reckons later deletions ∧ item'.AtMost (turns + 1) := by
  obtain ⟨hup₀, hdown₀, hreports₀, hcomments₀⟩ := h
  obtain ⟨hupLe, hdownLe, hcommentsLe, hreportsLe⟩ := bound
  have hid : item'.id = item.id := congrArg ContentKey.id moves.key
  obtain ⟨-, hkind, hup', hdown', hcomments', hreports'⟩ := moves
  refine ⟨⟨?_, ?_, ?_, fun hpost => ?_⟩, ?_, ?_, ?_, ?_⟩
  · rw [hid, hup']; omega
  · rw [hid, hdown']; omega
  · rw [hid, hreports']; omega
  · rw [hkind] at hpost
    have hcomments₀ := hcomments₀ hpost
    have hcomments := hcomments hpost
    rw [hid, hcomments']
    omega
  · rw [hup']; omega
  · rw [hdown']; omega
  · rw [hcomments']; omega
  · rw [hreports']; omega

/-- A new item has no votes, no comments and no reports. -/
theorem Reckons.of_new (fresh : item.asCreated = item)
    (tally : ∀ flagOf, store.tally item.id flagOf = 0)
    (scope : item.kind = .post → store.scopeItems item.id.asScope = [])
    (removed : (∀ flagOf, Deletion.tally deletions item.id flagOf = 0) ∧
      Deletion.comments deletions item.id.asScope = 0) :
    item.Reckons store deletions ∧ item.AtMost turns := by
  have hzero : ∀ count : ContentItem → Int64, count item.asCreated = 0 →
      (count item).toInt = 0 := by
    intro count hcount
    rw [← fresh, hcount]
    rfl
  have hup := hzero (·.upVotes) rfl
  have hdown := hzero (·.downVotes) rfl
  have hcomments := hzero (·.comments) rfl
  have hreports := hzero (·.reports) rfl
  refine ⟨⟨?_, ?_, ?_, fun hpost => ?_⟩, ?_, ?_, ?_, ?_⟩
  · rw [hup, tally, removed.1]; rfl
  · rw [hdown, tally, removed.1]; rfl
  · rw [hreports, tally, removed.1]; rfl
  · rw [hcomments, scope hpost, removed.2]; rfl
  · rw [hup]; omega
  · rw [hdown]; omega
  · rw [hcomments]; omega
  · rw [hreports]; omega

/-- An item that stays as it is while records and comments disappear reckons with them. -/
theorem Reckons.removed (h : item.Reckons store deletions)
    (records : ∀ flagOf, store.tally item.id flagOf =
      later.tally item.id flagOf + Deletion.tally [⟨store, later⟩] item.id flagOf)
    (scope : item.kind = .post → (store.scopeItems item.id.asScope).length =
      (later.scopeItems item.id.asScope).length +
        Deletion.comments [⟨store, later⟩] item.id.asScope) :
    item.Reckons later (deletions ++ [⟨store, later⟩]) where
  upVotes := by
    rw [h.upVotes, Deletion.tally_append, records]
    push_cast
    omega
  downVotes := by
    rw [h.downVotes, Deletion.tally_append, records]
    push_cast
    omega
  reports := by
    rw [h.reports, Deletion.tally_append, records]
    push_cast
    omega
  comments hkind := by
    rw [h.comments hkind, Deletion.comments_append, scope hkind]
    push_cast
    omega

theorem Reckons.append {deletion : Deletion} (h : item.Reckons store deletions)
    (tally : ∀ flagOf, Deletion.tally [deletion] item.id flagOf = 0)
    (comments : Deletion.comments [deletion] item.id.asScope = 0) :
    item.Reckons store (deletions ++ [deletion]) where
  upVotes := by rw [h.upVotes, Deletion.tally_append, tally, Nat.add_zero]
  downVotes := by rw [h.downVotes, Deletion.tally_append, tally, Nat.add_zero]
  reports := by rw [h.reports, Deletion.tally_append, tally, Nat.add_zero]
  comments hkind := by rw [h.comments hkind, Deletion.comments_append, comments, Nat.add_zero]

end ContentItem

theorem StoreState.item?_withoutTree_eq (store : StoreState) (root : ContentItem)
    (key : ContentKey) : (store.withoutTree root).item? key = store.item? key ∨
      (store.withoutTree root).item? key = none := by
  rw [item?_withoutTree]
  split
  · exact .inr rfl
  · exact .inl rfl

theorem StoreState.record?_withoutTree_eq (store : StoreState) (root : ContentItem)
    (key : EngagementKey) : (store.withoutTree root).record? key = store.record? key ∨
      (store.withoutTree root).record? key = none := by
  rw [record?_withoutTree]
  split
  · exact .inr rfl
  · exact .inl rfl

theorem StoreState.Flips.tally {store : StoreState} {record : EngagementRecord}
    {up down reports : Int} (flips : store.Flips record up down reports)
    (keyed : ∀ key old, store.record? key = some old → old.key = key) :
    ((store.withRecord record).tally record.content (·.upVoted) : Int) =
        store.tally record.content (·.upVoted) + up ∧
      ((store.withRecord record).tally record.content (·.downVoted) : Int) =
        store.tally record.content (·.downVoted) + down ∧
      ((store.withRecord record).tally record.content (·.reported) : Int) =
        store.tally record.content (·.reported) + reports :=
  ⟨tally_withRecord (keyed _) rfl flips.upVoted, tally_withRecord (keyed _) rfl flips.downVoted,
    tally_withRecord (keyed _) rfl flips.reported⟩

theorem StoreState.Flips.small {store : StoreState} {record : EngagementRecord}
    {up down reports : Int} (flips : store.Flips record up down reports) :
    up ≤ 1 ∧ down ≤ 1 ∧ (0 : Int) ≤ 1 ∧ reports ≤ 1 := by
  have hflag : ∀ flag : Bool, 0 ≤ flag.toInt ∧ flag.toInt ≤ 1 := by decide
  have hmove : ∀ {flag stored : Bool} {move : Int}, flag.toInt = stored.toInt + move →
      move ≤ 1 := by
    intro flag stored move heq
    have hle := (hflag flag).2
    have hnonneg := (hflag stored).1
    omega
  exact ⟨hmove flips.upVoted, hmove flips.downVoted, by decide, hmove flips.reported⟩

namespace Forum

variable {site : Site} {outlook : Outlook} {forum later : Forum} {deletions : List Deletion}
  {turns : Nat}

/-! ### Identifiers -/

theorem Unused.of_subset {id : ContentId} (h : later.Unused site id)
    (subset : forum.created ⊆ later.created) : forum.Unused site id :=
  ⟨fun item hitem => h.items item (subset hitem), h.hives⟩

/-- There is nothing in the scope of an identifier that has not been given out. -/
theorem Sound.scopeItems_eq_nil (sound : forum.Sound outlook) {id : ContentId}
    (h : forum.Unused outlook.site id) : forum.store.scopeItems id.asScope = [] := by
  refine StoreState.scopeItems_eq_nil fun other => ?_
  cases hitem : forum.store.item? ⟨id.asScope, other⟩ with
  | none => rfl
  | some item =>
    obtain ⟨hkey, hcreated⟩ := sound.items _ item hitem
    have hscope : item.scope = id.asScope := congrArg ContentKey.scope hkey
    have hplace := sound.places item.asCreated hcreated
    rw [Places] at hplace
    split at hplace
    · obtain ⟨hhive, hknown⟩ := hplace
      rw [← hhive, show item.asCreated.scope = item.scope from rfl, hscope, h.hives] at hknown
      cases hknown
    · obtain ⟨post, hpost, -, -, hpostScope⟩ := hplace
      have hid : post.id = id :=
        congrArg (fun scope : ScopeId => scope.asContent) (hpostScope.trans hscope)
      exact absurd hid (h.items post hpost)

theorem Becomes.created_subset (h : forum.Becomes later) : forum.created ⊆ later.created := by
  cases h with
  | posted => exact List.subset_append_left _ _
  | commented => exact List.subset_append_left _ _
  | _ => exact List.Subset.refl _

theorem DistinctIds.unused_last {store : StoreState} {item : ContentItem}
    (h : DistinctIds site ⟨store, forum.created ++ [item]⟩) : forum.Unused site item.id := by
  have hlast : item ∈ forum.created ++ [item] := List.mem_append_right _ List.mem_cons_self
  refine ⟨fun other hother heq => ?_, h.notHive item hlast⟩
  have hnodup := h.nodup
  simp only [List.map_append, List.nodup_append] at hnodup
  exact hnodup.2.2 other.id (List.mem_map_of_mem hother) item.id (by simp) heq

/-! ### Operations that do not delete -/


section

variable (h : forum.Reckoned site deletions turns) (room : turns + 1 < 9223372036854775808)
  (sound : forum.Sound ⟨site, forum.created, fun _ => False⟩)

include h

/-- A post is stored. -/
theorem Reckoned.posted {post item : ContentItem} {key : ContentKey}
    (sound : forum.Sound ⟨site, forum.created, fun _ => False⟩)
    (after : Sound ⟨site, forum.created ++ [post], fun _ => False⟩
      ⟨forum.store.putItem post.key post, forum.created ++ [post]⟩)
    (distinct : DistinctIds site ⟨forum.store.putItem post.key post, forum.created ++ [post]⟩)
    (kind : post.kind = .post) (fresh : post.asCreated = post)
    (hitem : (forum.store.putItem post.key post).item? key = some item) :
    item.Reckons (forum.store.putItem post.key post) deletions ∧ item.AtMost (turns + 1) := by
  have hlast : post ∈ forum.created ++ [post] := List.mem_append_right _ List.mem_cons_self
  have hcreated : item.asCreated ∈ forum.created ++ [post] := (after.items key item hitem).2
  have hscope : item.asCreated.id.asScope ≠ post.scope :=
    after.post_scope_ne distinct hlast kind hcreated
  rw [StoreState.item?_putItem] at hitem
  split at hitem
  · obtain rfl := Option.some.inj hitem
    have hunused := distinct.unused_last
    refine ContentItem.Reckons.of_new fresh (fun flagOf => ?_) (fun _ => ?_) (h.unused _ hunused)
    · rw [StoreState.tally_putItem]
      exact sound.tally_eq_zero hunused.items flagOf
    · rw [StoreState.scopeItems_putItem_of_ne hscope, sound.scopeItems_eq_nil hunused]
  · obtain ⟨hreckons, hmost⟩ := h.items key item hitem
    refine ⟨hreckons.congr (fun _ => rfl) fun _ => ?_, hmost.mono⟩
    rw [StoreState.scopeItems_putItem_of_ne hscope]

include room sound

/-- A comment is stored, and the post above it counts it. -/
theorem Reckoned.commented {post post' comment item : ContentItem} {key key' : ContentKey}
    (unused : forum.Unused site comment.id)
    (found : forum.store.item? key = some post) (kind : comment.kind = .comment)
    (fresh : comment.asCreated = comment)
    (scope : comment.scope = post.id.asScope) (vacant : forum.store.item? comment.key = none)
    (moves : post.Moves post' 0 0 1 0)
    (hitem : ((forum.store.putItem comment.key comment).putItem key post').item? key' =
      some item) :
    item.Reckons ((forum.store.putItem comment.key comment).putItem key post') deletions ∧
      item.AtMost (turns + 1) := by
  have hne : key ≠ comment.key := by
    rintro rfl
    rw [vacant] at found
    cases found
  have hfound : (forum.store.putItem comment.key comment).item? key = some post := by
    rw [StoreState.item?_putItem, if_neg hne, found]
  have hedit := StoreState.length_scopeItems_edit hfound post'
  rw [StoreState.item?_putItem] at hitem
  split at hitem
  · obtain rfl := Option.some.inj hitem
    obtain ⟨hreckons, hmost⟩ := h.items key post found
    refine hreckons.moves hmost room moves (by decide) ?_ ?_ ?_ fun _ => ?_
    · simp
    · simp
    · simp
    · have hput := forum.store.length_scopeItems_putItem comment.key comment
      rw [vacant, show comment.key.scope = post.id.asScope from scope] at hput
      rw [hedit, ← Int.natCast_succ]
      exact congrArg _ hput
  · rw [StoreState.item?_putItem] at hitem
    split at hitem
    · obtain rfl := Option.some.inj hitem
      refine ContentItem.Reckons.of_new fresh (fun flagOf => ?_) (fun hpost => ?_)
        (h.unused _ unused)
      · rw [StoreState.tally_putItem, StoreState.tally_putItem]
        exact sound.tally_eq_zero unused.items flagOf
      · rw [kind] at hpost
        cases hpost
    · rename_i hkey _
      obtain ⟨hreckons, hmost⟩ := h.items key' item hitem
      refine ⟨hreckons.congr (fun _ => rfl) fun _ => ?_, hmost.mono⟩
      rw [hedit, StoreState.scopeItems_putItem_of_ne]
      intro heq
      have hid : item.id = post.id :=
        congrArg (fun scope : ScopeId => scope.asContent) (heq.trans scope)
      exact hkey (sound.key_eq hitem found hid)

/-- A record is written, and the counts of its item are moved as its flags are. -/
theorem Reckoned.engaged {item item' other : ContentItem} {record : EngagementRecord}
    {key key' : ContentKey} {up down reports : Int}
    (found : forum.store.item? key = some item) (content : record.content = key.id)
    (flips : forum.store.Flips record up down reports)
    (moves : item.Moves item' up down 0 reports)
    (hother : ((forum.store.withRecord record).putItem key item').item? key' = some other) :
    other.Reckons ((forum.store.withRecord record).putItem key item') deletions ∧
      other.AtMost (turns + 1) := by
  have hfound : (forum.store.withRecord record).item? key = some item := found
  have hedit := StoreState.length_scopeItems_edit hfound item'
  have hid : item.id = record.content := by
    rw [content, ← (sound.items key item found).1]
    rfl
  rw [StoreState.item?_putItem] at hother
  split at hother
  · obtain rfl := Option.some.inj hother
    obtain ⟨hreckons, hmost⟩ := h.items key item found
    obtain ⟨hup, hdown, hreports⟩ := flips.tally sound.keyed
    refine hreckons.moves hmost room moves flips.small ?_ ?_ ?_ fun _ => ?_
    · rw [hid]; exact hup
    · rw [hid]; exact hdown
    · rw [hid]; exact hreports
    · rw [hedit, StoreState.scopeItems_withRecord, Int.add_zero]
  · rename_i hkey
    obtain ⟨hreckons, hmost⟩ := h.items key' other hother
    refine ⟨hreckons.congr (fun flagOf => ?_) fun _ => ?_, hmost.mono⟩
    · refine StoreState.tally_withRecord_of_ne (fun heq => hkey ?_) sound.keyed flagOf
      exact sound.key_eq hother found (heq.trans hid.symm)
    · rw [hedit, StoreState.scopeItems_withRecord]

omit room in
/-- A record is written, and its flags are those that are counted already. -/
theorem Reckoned.marked {item : ContentItem} {record : EngagementRecord} {key : ContentKey}
    (flips : forum.store.Flips record 0 0 0) (hitem : forum.store.item? key = some item) :
    item.Reckons (forum.store.withRecord record) deletions ∧ item.AtMost (turns + 1) := by
  obtain ⟨hreckons, hmost⟩ := h.items key item hitem
  obtain ⟨hup, hdown, hreports⟩ := flips.tally sound.keyed
  refine ⟨?_, hmost.mono⟩
  by_cases hid : item.id = record.content
  · obtain ⟨hup₀, hdown₀, hreports₀, hcomments₀⟩ := hreckons
    refine ⟨?_, ?_, ?_, hcomments₀⟩
    · rw [hup₀, hid, hup, Int.add_zero]
    · rw [hdown₀, hid, hdown, Int.add_zero]
    · rw [hreports₀, hid, hreports, Int.add_zero]
  · exact hreckons.congr (fun flagOf => StoreState.tally_withRecord_of_ne hid sound.keyed flagOf)
      fun _ => rfl

omit sound in
/-- An item is edited, and its counts are what they were. -/
theorem Reckoned.edited {item item' other : ContentItem} {key key' : ContentKey}
    (found : forum.store.item? key = some item) (moves : item.Moves item' 0 0 0 0)
    (hother : (forum.store.putItem key item').item? key' = some other) :
    other.Reckons (forum.store.putItem key item') deletions ∧ other.AtMost (turns + 1) := by
  have hedit := StoreState.length_scopeItems_edit found item'
  rw [StoreState.item?_putItem] at hother
  split at hother
  · obtain rfl := Option.some.inj hother
    obtain ⟨hreckons, hmost⟩ := h.items key item found
    refine hreckons.moves hmost room moves (by decide) ?_ ?_ ?_ fun _ => ?_
    · simp
    · simp
    · simp
    · rw [hedit, Int.add_zero]
  · obtain ⟨hreckons, hmost⟩ := h.items key' other hother
    exact ⟨hreckons.congr (fun _ => rfl) fun _ => hedit _, hmost.mono⟩

/-- The counts are right after an operation that does not delete. -/
theorem Reckoned.becomes (after : later.Sound ⟨site, later.created, fun _ => False⟩)
    (distinct : later.DistinctIds site) (becomes : forum.Becomes later) :
    later.Reckoned site deletions (turns + 1) := by
  refine ⟨fun key other hother => ?_,
    fun id hid => h.unused id (hid.of_subset becomes.created_subset)⟩
  cases becomes with
  | same => exact ⟨(h.items key other hother).1, (h.items key other hother).2.mono⟩
  | posted kind fresh vacant => exact h.posted sound after distinct kind fresh hother
  | commented found _ kind fresh scope vacant moves =>
    exact h.commented room sound distinct.unused_last found kind fresh scope vacant moves hother
  | engaged found content flips moves =>
    exact h.engaged room sound found content flips moves hother
  | marked flips => exact h.marked sound flips hother
  | edited found moves => exact h.edited room found moves hother

end

/-! ### Deletions -/

/-- The post above a comment is still stored without the tree of the comment, and there is one item
less in its scope. -/
theorem Sound.withoutTree_parent (sound : forum.Sound outlook)
    (distinct : forum.DistinctIds outlook.site) {root post : ContentItem}
    (stored : forum.store.item? root.key = some root) (kind : root.kind = .comment)
    (found : forum.store.item? root.parentKey = some post) :
    post.kind = .post ∧ root.id ≠ post.id ∧
      (forum.store.withoutTree root).item? root.parentKey = some post ∧
      ((forum.store.withoutTree root).scopeItems post.id.asScope).length + 1 =
        (forum.store.scopeItems post.id.asScope).length := by
  have hkey := (sound.items _ post found).1
  have hscope : post.id.asScope = root.scope := congrArg (fun key => key.id.asScope) hkey
  have hpost : post.kind = .post := (sound.parentKey_eq distinct found stored hscope.symm).2.1
  have hid : root.id ≠ post.id := by
    intro hid
    rw [sound.key_eq stored found hid, found] at stored
    rw [Option.some.inj stored, kind] at hpost
    cases hpost
  refine ⟨hpost, hid, ?_, ?_⟩
  · rw [StoreState.item?_withoutTree, if_neg, found]
    rintro (heq | ⟨hkind, -⟩)
    · exact hid (congrArg ContentKey.id (heq.symm.trans hkey.symm))
    · rw [kind] at hkind
      cases hkind
  · have hremoved := StoreState.length_scopeItems_removeItem stored
    rw [show root.key.scope = post.id.asScope from hscope.symm] at hremoved
    rw [← hremoved]
    refine congrArg (List.length · + 1) (StoreState.scopeItems_congr fun id => ?_)
    rw [StoreState.item?_withoutTree, StoreState.item?_removeItem]
    simp [ContentItem.Covers, kind]

section

variable (h : forum.Reckoned site deletions turns)
  (sound : forum.Sound ⟨site, forum.created, fun _ => False⟩)

include h sound

theorem Reckoned.unused_append {store : StoreState}
    (thins : ∀ key, store.record? key = forum.store.record? key ∨ store.record? key = none)
    {id : ContentId} (hid : forum.Unused site id) :
    (∀ flagOf, Deletion.tally (deletions ++ [⟨forum.store, store⟩]) id flagOf = 0) ∧
      Deletion.comments (deletions ++ [⟨forum.store, store⟩]) id.asScope = 0 := by
  obtain ⟨htally, hcomments⟩ := h.unused id hid
  refine ⟨fun flagOf => ?_, ?_⟩
  · have hadd := StoreState.tally_eq_add sound.isKeyed thins id flagOf
    rw [sound.tally_eq_zero hid.items flagOf] at hadd
    rw [Deletion.tally_append, htally, Deletion.tally_singleton]
    omega
  · rw [Deletion.comments_append, hcomments, Deletion.comments_singleton,
      sound.scopeItems_eq_nil hid]
    rfl

variable (distinct : forum.DistinctIds site)

include distinct

/-- An item that stays as it is while records and comments disappear reckons with them. -/
theorem Reckoned.kept {store : StoreState} {key : ContentKey} {item : ContentItem}
    (before : forum.store.item? key = some item) (after : store.item? key = some item)
    (records : ∀ key, store.record? key = forum.store.record? key ∨ store.record? key = none)
    (items : ∀ id, store.item? ⟨item.id.asScope, id⟩ = forum.store.item? ⟨item.id.asScope, id⟩ ∨
      store.item? ⟨item.id.asScope, id⟩ = none) :
    item.Reckons store (deletions ++ [⟨forum.store, store⟩]) ∧ item.AtMost (turns + 1) := by
  obtain ⟨hreckons, hmost⟩ := h.items key item before
  refine ⟨hreckons.removed (fun flagOf => ?_) (fun _ => ?_), hmost.mono⟩
  · rw [StoreState.tally_eq_add sound.isKeyed records, Deletion.tally_singleton]
  · rw [StoreState.length_scopeItems_eq_add sound.isKeyed items, Deletion.comments_singleton]
    refine congrArg _ (List.countP_congr fun child hchild => ?_)
    obtain ⟨id, hid⟩ := StoreState.mem_scopeItems_iff.1 hchild
    have hscope : child.scope = item.id.asScope :=
      congrArg ContentKey.scope (sound.items _ child hid).1
    obtain ⟨-, -, hparent⟩ := sound.parentKey_eq distinct before hid hscope
    simp [hparent, before, after]

theorem Reckoned.thins (created : later.created = forum.created)
    (items : ∀ key, later.store.item? key = forum.store.item? key ∨ later.store.item? key = none)
    (records : ∀ key, later.store.record? key = forum.store.record? key ∨
      later.store.record? key = none) :
    later.Reckoned site (deletions ++ [⟨forum.store, later.store⟩]) (turns + 1) := by
  refine ⟨fun key item hitem => ?_, fun id hid => ?_⟩
  · have hbefore : forum.store.item? key = some item := by
      obtain hsame | hnone := items key
      · rw [← hsame, hitem]
      · rw [hnone] at hitem
        cases hitem
    exact h.kept sound distinct hbefore hitem records fun id => items _
  · exact h.unused_append sound records (hid.of_subset (created ▸ List.Subset.refl _))

/-- The post above a comment still counts what is stored and what has been removed when the comment
has gone and its count is one comment less. -/
theorem Reckoned.post_uncounted (room : turns + 1 < 9223372036854775808)
    {root post post' : ContentItem} (stored : forum.store.item? root.key = some root)
    (kind : root.kind = .comment) (found : forum.store.item? root.parentKey = some post)
    (moves : post.Moves post' 0 0 (-1) 0) :
    post'.Reckons ((forum.store.withoutTree root).putItem root.parentKey post')
        (deletions ++
          [⟨forum.store, (forum.store.withoutTree root).putItem root.parentKey post'⟩]) ∧
      post'.AtMost (turns + 1) := by
  obtain ⟨hreckons, hmost⟩ := h.items _ post found
  obtain ⟨hpost, hid, hfound, hlength⟩ := sound.withoutTree_parent distinct stored kind found
  -- no record on the post has gone
  have htally : ∀ flagOf, (forum.store.withoutTree root).tally post.id flagOf =
      forum.store.tally post.id flagOf := by
    refine fun flagOf => (StoreState.tally_congr fun key record hcontent => ?_).symm
    rw [StoreState.record?_withoutTree]
    split
    · rename_i howns
      obtain hroot | ⟨hkind, -⟩ := howns
      · refine iff_of_false (fun hrecord => hid ?_) (by simp)
        rw [← hroot, ← hcontent, ← sound.keyed key record hrecord]
        rfl
      · rw [kind] at hkind
        cases hkind
    · rfl
  have hcomments := hreckons.comments hpost
  have hrecords : ∀ key,
      ((forum.store.withoutTree root).putItem root.parentKey post').record? key =
        forum.store.record? key ∨
      ((forum.store.withoutTree root).putItem root.parentKey post').record? key = none :=
    forum.store.record?_withoutTree_eq root
  obtain ⟨hreckons', hmost'⟩ := @ContentItem.Reckons.moves _ _ _
    ((forum.store.withoutTree root).putItem root.parentKey post') _ _ _ _ _ _ hreckons hmost room
    moves (by decide) (by simp [htally]) (by simp [htally]) (by simp [htally]) fun _ => by
      rw [StoreState.length_scopeItems_edit hfound, ← hlength]
      omega
  refine ⟨hreckons'.append (fun flagOf => ?_) ?_, hmost'⟩
  · have hadd := StoreState.tally_eq_add sound.isKeyed hrecords post.id flagOf
    rw [StoreState.tally_putItem, htally] at hadd
    rw [show post'.id = post.id from congrArg ContentKey.id moves.key, Deletion.tally_singleton]
    omega
  · -- the comment is counted off: the post is not as it was
    have hchanged : post' ≠ post := by
      rintro rfl
      have hcount := moves.comments
      omega
    rw [show post'.id = post.id from congrArg ContentKey.id moves.key, Deletion.comments_singleton]
    refine List.countP_eq_zero.2 fun child hchild => ?_
    obtain ⟨id, hstored⟩ := StoreState.mem_scopeItems_iff.1 hchild
    have hchildScope : child.scope = post.id.asScope :=
      congrArg ContentKey.scope (sound.items _ child hstored).1
    have hparent := (sound.parentKey_eq distinct found hstored hchildScope).2.2
    simp [hparent, StoreState.item?_putItem, found, hchanged]

/-- The tree of a comment has gone, and the post above it counts one comment less. -/
theorem Reckoned.uncounted (room : turns + 1 < 9223372036854775808) {root post post' : ContentItem}
    (stored : forum.store.item? root.key = some root) (kind : root.kind = .comment)
    (found : forum.store.item? root.parentKey = some post)
    (moves : post.Moves post' 0 0 (-1) 0) :
    Reckoned site
      (deletions ++ [⟨forum.store, (forum.store.withoutTree root).putItem root.parentKey post'⟩])
      (turns + 1)
      ⟨(forum.store.withoutTree root).putItem root.parentKey post', forum.created⟩ := by
  have hrecords : ∀ key,
      ((forum.store.withoutTree root).putItem root.parentKey post').record? key =
        forum.store.record? key ∨
      ((forum.store.withoutTree root).putItem root.parentKey post').record? key = none :=
    forum.store.record?_withoutTree_eq root
  refine ⟨fun key item hitem => ?_, fun id hid => h.unused_append sound hrecords ⟨hid.1, hid.2⟩⟩
  have hafter := hitem
  rw [StoreState.item?_putItem] at hitem
  split at hitem
  · obtain rfl := Option.some.inj hitem
    exact h.post_uncounted sound distinct room stored kind found moves
  · rename_i hkey
    have hbefore : forum.store.item? key = some item := by
      obtain hsame | hnone := forum.store.item?_withoutTree_eq root key
      · rw [← hsame, hitem]
      · rw [hnone] at hitem
        cases hitem
    refine h.kept sound distinct hbefore hafter hrecords fun id => ?_
    have hpostKey := (sound.items _ post found).1
    have hpost : post.kind = .post := (sound.parentKey_eq distinct found stored
      (congrArg (fun key => key.id.asScope) hpostKey).symm).2.1
    have hne : item.asCreated.id.asScope ≠ post.asCreated.scope :=
      sound.post_scope_ne distinct (sound.items _ post found).2 hpost
        (sound.items _ item hbefore).2
    rw [StoreState.item?_putItem, if_neg]
    · exact forum.store.item?_withoutTree_eq root _
    · intro heq
      exact hne (congrArg ContentKey.scope (heq.trans hpostKey.symm))

end

/-- A deletion of what is not there leaves the forum as it is. -/
theorem meets_deleteContent_absent {conditions : Conditions} (honest : conditions.Honest)
    {settings : Settings} {horizon : Nat} {caller : Caller} {target : Target}
    (absent : ∀ item, forum.store.item? target.content = some item → item.hive ≠ target.hive) :
    (deleteContent settings horizon caller target).Meets (site.responses conditions) forum.alone
      none (fun _ later => later = forum) forum := by
  have hload : (loadTarget target).Meets (site.responses conditions)
      (forum.alone.withFailing fun _ later => later = forum) none (fun _ _ => False) forum := by
    rintro _ reply after rfl answer
    refine ⟨trivial, ?_⟩
    cases reply with
    | ok item =>
      obtain ⟨hitem, rfl⟩ := answer.getContent
      simp only [Program.ofExcept, done_bind, absent item hitem, if_false]
      exact fun _ hlast => hlast
    | error error =>
      obtain ⟨rfl, -⟩ := answer.of_error honest
      exact fun _ hlast => hlast
  rw [deleteContent]
  rintro _ reply after rfl answer
  obtain rfl := answer.eq_of_isQuiet rfl
  refine ⟨trivial, ?_⟩
  cases reply with
  | error error => exact fun _ hlast => hlast
  | ok role =>
    refine Meets.unlessNotFound hload (fun _ middle _ h => (h middle rfl).elim) ?_
      fun _ _ _ h => h
    rintro middle - hmiddle last rfl -
    exact hmiddle last rfl

/-- Once a deletion has ended well, all of the tree of its item has gone, and the post above may
count one comment less; once it has failed, parts of the tree have. -/
theorem deletes_of_steps {conditions : Conditions} (honest : conditions.Honest)
    (sound : forum.Sound outlook) (distinct : forum.DistinctIds outlook.site)
    {settings : Settings} {horizon : Nat} {caller : Caller} {target : Target}
    {thread : Thread Unit} {result : Except OperationError Unit}
    (steps : Thread.Steps (site.responses conditions)
      (.running (deleteContent settings horizon caller target)) forum thread later)
    (ended : thread.result? = some result) :
    later = forum ∨ ∃ root, forum.store.item? root.key = some root ∧
      ((∃ error, result = .error error) ∧ forum.Prunes root forum later ∨
        forum.Deleted conditions root later) := by
  by_cases hstored : ∃ item, forum.store.item? target.content = some item ∧
      item.hive = target.hive
  · obtain ⟨root, hroot, owned⟩ := hstored
    have located : target.content = root.key := (sound.items _ root hroot).1.symm
    rw [located] at hroot
    have meets := @meets_deleteContent site conditions False True forum root honest
      (sound.tiered distinct) hroot settings horizon caller target located owned (.inl trivial)
    obtain ⟨hok, herror⟩ := ((Site.steps_serving steps).meets (.running meets)).1.of_result?
    refine .inr ⟨root, hroot, ?_⟩
    cases result with
    | ok value => exact .inr (hok value ended trivial).2
    | error error => exact .inl ⟨⟨error, rfl⟩, (herror error ended).1⟩
  · have meets := @meets_deleteContent_absent site forum conditions honest settings horizon caller
      target fun item hitem hhive => hstored ⟨item, hitem, hhive⟩
    obtain ⟨hok, herror⟩ := (steps.meets (.running meets)).1.of_result?
    cases result with
    | ok value => exact .inl (hok value ended trivial)
    | error error => exact .inl (herror error ended)

/-- The counts are right after a deletion that has ended, well or not. -/
theorem Reckoned.deletes {conditions : Conditions} (h : forum.Reckoned site deletions turns)
    (room : turns + 1 < 9223372036854775808)
    (sound : forum.Sound ⟨site, forum.created, fun _ => False⟩) (distinct : forum.DistinctIds site)
    (deleted : later = forum ∨ ∃ root, forum.store.item? root.key = some root ∧
      (forum.Prunes root forum later ∨ forum.Deleted conditions root later)) :
    later.Reckoned site (deletions ++ [⟨forum.store, later.store⟩]) (turns + 1) := by
  obtain rfl | ⟨root, hroot, hprunes | rfl | ⟨-, rfl⟩⟩ := deleted
  · exact h.thins sound distinct rfl (fun _ => .inl rfl) fun _ => .inl rfl
  · exact h.thins sound distinct hprunes.created
      (fun key => (hprunes.items key).imp_right fun hgone => hgone.2.1)
      fun key => (hprunes.records key).imp_right And.right
  · have hthins := @Reckoned.thins site forum ⟨forum.store.withoutTree root, forum.created⟩
      deletions turns h sound distinct rfl (forum.store.item?_withoutTree_eq root)
      (forum.store.record?_withoutTree_eq root)
    by_cases hcounted : ∃ post, root.kind = .comment ∧
        (forum.store.withoutTree root).item? root.parentKey = some post
    · obtain ⟨post, hkind, hpost⟩ := hcounted
      have hbefore : forum.store.item? root.parentKey = some post := by
        obtain hsame | hnone := forum.store.item?_withoutTree_eq root root.parentKey
        · rw [← hsame, hpost]
        · rw [hnone] at hpost
          cases hpost
      rw [StoreState.uncounted_of_comment (sound.nonneg _ post hbefore) hkind hpost]
      exact h.uncounted sound distinct room hroot hkind hbefore
        ((CountChange.ofComments (-1)).moves post)
    · rw [StoreState.uncounted_eq_self fun hkind => Option.eq_none_iff_forall_ne_some.2
        fun post hpost => hcounted ⟨post, hkind, hpost⟩]
      exact hthins
  · exact h.thins sound distinct rfl (forum.store.item?_withoutTree_eq root)
      (forum.store.record?_withoutTree_eq root)

/-! ### Histories -/

/-- A forum with a history can be reached. -/
theorem History.reachable (history : History site deletions turns forum) :
    forum.Reachable site := by
  have himp : ∀ {conditions : Conditions} {effect : Effect} {forum after : Forum}
      {reply : effect.Reply},
      ((site.responses conditions).within (DistinctIds site)).Answers effect forum reply after →
        ((site.responses .wild).within (DistinctIds site)).Answers effect forum reply after :=
    fun answer => ⟨answer.1.wild, answer.2⟩
  induction history with
  | blank => exact @Reachable.run site [] _ _ .none
  | acts _ _ steps _ ih => exact ih.steps (steps.imp himp)
  | fails _ _ _ steps ih => exact ih.steps (steps.imp himp)
  | @deletes _ _ forum _ settings horizon caller target _ _ _ _ _ steps _ ih =>
    let invocation : Invocation := ⟨settings, horizon, .deleteContent caller target⟩
    exact @Reachable.steps site forum _ invocation _ ih (steps.imp himp)

/-- The counts are right all along a history. -/
theorem History.reckoned (history : History site deletions turns forum)
    (room : turns < 9223372036854775808) : forum.Reckoned site deletions turns := by
  induction history with
  | blank =>
    refine ⟨fun _ _ hitem => (by cases hitem), fun _ _ => ⟨fun _ => rfl, rfl⟩⟩
  | acts history other steps ended ih =>
    obtain ⟨sound, -⟩ := history.reachable.sound
    obtain ⟨sound', distinct'⟩ := (History.acts history other steps ended).reachable.sound
    exact (ih (by omega)).becomes room sound sound' distinct'
      (becomes_of_steps sound other (steps.imp And.left) ended)
  | fails history other honest steps ih =>
    obtain rfl := eq_of_failing_steps honest other (steps.imp And.left)
    obtain ⟨sound, distinct⟩ := history.reachable.sound
    exact (ih (by omega)).becomes room sound sound distinct .same
  | deletes history honest steps ended ih =>
    obtain ⟨sound, distinct⟩ := history.reachable.sound
    exact (ih (by omega)).deletes room sound distinct
      ((deletes_of_steps honest sound distinct (steps.imp And.left) ended).imp_right
        fun ⟨root, hroot, hgone⟩ => ⟨root, hroot, hgone.imp_left And.right⟩)

/-- Operations are run one after another on the empty forum, and any deletion may fail at any point.
The counts of every item that is stored are then the numbers of records on it with each flag that
are stored, and of those that deletions have removed; and the count of comments of a post is the
number of comments that are stored under it, and of those that deletions have removed while the post
stayed as it was. -/
theorem counts_reckoned (history : History site deletions turns forum)
    (room : turns < 9223372036854775808) {key : ContentKey} {item : ContentItem}
    (stored : forum.store.item? key = some item) : item.Reckons forum.store deletions :=
  ((history.reckoned room).items key item stored).1

end Forum

namespace Sample

/-- The store after the deletion of the post has removed the vote and has failed. -/
def emptied : StoreState := votedForum.store.removeRecords [voted.key]

/-- The post after the second vote of the member. -/
def recountedPost : ContentItem := { post with upVotes := 2 }

/-- The forum after the second vote. -/
def recounted : Forum := ⟨(emptied.withRecord voted).putItem post.key recountedPost, [post]⟩

theorem distinct_post (store : StoreState) : Forum.DistinctIds site ⟨store, [post]⟩ := by
  have nodup : ([post].map (·.id)).Nodup := by decide
  have notHive : ∀ item ∈ [post], site.directory.hives.get? item.id.asScope = none := by decide
  exact ⟨nodup, notHive⟩

/-- The post is deleted, and the store is out of reach after the vote has been removed. -/
theorem abort_steps :
    Thread.Steps ((site.responses .unsteady).within (Forum.DistinctIds site))
      (.running (deleteContent {} 2 caller ⟨post.hive, post.key⟩)) votedForum
      (.running (.fail (.storeUnavailable (.store .unavailable)))) ⟨emptied, [post]⟩ := by
  let responses := (site.responses .unsteady).within (Forum.DistinctIds site)
  have distinct := distinct_post
  have asked : responses.Answers (.membership caller post.hive) votedForum (.ok .owner)
      votedForum := ⟨.role caller post.hive votedForum, distinct _⟩
  have found : votedForum.store.perform site.limits (.getContent post.key) =
      .ok (votedPost, votedForum.store) := rfl
  have childless : votedForum.store.perform site.limits
      (.queryContent ((Scan.children post.id.asScope none).query {} none)) =
      .ok (⟨[], none⟩, votedForum.store) := by
    have hempty : votedForum.store.scopeItems post.id.asScope = [] := rfl
    simp [StoreState.perform, StoreState.queryContent, StoreState.itemsAfter, Scan.query,
      Scan.children, Scan.roundSize, Scan.pageSize, Limit.batchWrite, hempty, ContentItem.sort]
    rfl
  have children : responses.Answers
      (.store (.queryContent ((Scan.children post.id.asScope none).query {} none))) votedForum
      (.ok ⟨[], none⟩) votedForum := ⟨.carriedOut childless, distinct _⟩
  have pass : ∀ unit, Thread.Step responses
      (.running ((spawnChildren {} 2 post.id.asScope unit 2 none).bind fun _ =>
        spawnRecords {} post.id 2 none)) votedForum
      (.running (spawnRecords {} post.id 2 none)) votedForum := by
    intro unit
    obtain ⟨next, hprogram, hnext⟩ : ∃ next, spawnChildren {} 2 post.id.asScope unit 2 none =
        .perform (.store (.queryContent ((Scan.children post.id.asScope none).query {} none)))
          next ∧ next (.ok ⟨[], none⟩) = .done () := by
      refine ⟨_, rfl, ?_⟩
      simp only [Program.ofExcept, done_bind, ContentItem.sort, List.nil_append, List.mergeSort_nil]
      rfl
    have step := @Thread.Step.perform _ responses _ _
      (fun reply => (next reply).bind fun _ => spawnRecords {} post.id 2 none) _ _ _ children
    rw [hnext] at step
    rw [hprogram]
    exact step
  have listed : votedForum.store.perform site.limits
      (.queryEngagement ⟨post.id, Limit.batchWrite, none⟩) =
      .ok (⟨[voted.written], none⟩, votedForum.store) := rfl
  have records : responses.Answers
      (.store (.queryEngagement ⟨post.id, Limit.batchWrite, none⟩)) votedForum
      (.ok ⟨[voted.written], none⟩) votedForum := ⟨.carriedOut listed, distinct _⟩
  have erased : votedForum.store.perform site.limits (.deleteEngagements [voted.key]) =
      .ok ([], emptied) := rfl
  have erase : responses.Answers (.store (.deleteEngagements [voted.key])) votedForum (.ok [])
      ⟨emptied, [post]⟩ := ⟨.carriedOut erased, distinct _⟩
  have batch : Thread.Step responses (.running (deleteBatch {} [voted.written.key])) votedForum
      (.running (.done ())) ⟨emptied, [post]⟩ := by
    rw [deleteBatch, deleteBatchFrom]
    exact .perform erase
  have refused : responses.Answers (.store (.deleteContent post.key)) ⟨emptied, [post]⟩
      (.error .unavailable) ⟨emptied, [post]⟩ := ⟨.refused rfl, distinct _⟩
  exact .perform asked <| .perform ⟨.carriedOut found, distinct _⟩ <| .head .gather <|
    .head (.spawner (pass _)) <| .head (.spawner (.perform records)) <| .head .spawn <|
      .head (@Thread.Step.start _ _ _ _ _ _ [] _ _ _ _ (by decide)) <|
        .head (@Thread.Step.unit _ _ _ _ _ _ _ _ [] _ _ _ _ _ batch) <|
          .head (@Thread.Step.finish _ _ _ _ _ _ [] _ _ _ _) <| .head (.join rfl) <|
            .perform refused .none

/-- The member votes for the post once more. -/
theorem revote_steps :
    Thread.Steps ((site.responses .calm).within (Forum.DistinctIds site))
      (.running (vote {} caller ⟨post.hive, post.key⟩ .addUp)) ⟨emptied, [post]⟩
      (.running (.done voted.written)) recounted := by
  have distinct := distinct_post
  have asked : (site.responses .calm).Answers (.membership caller post.hive) ⟨emptied, [post]⟩
      (.ok .owner) ⟨emptied, [post]⟩ := .role caller post.hive ⟨emptied, [post]⟩
  have read : emptied.perform site.limits (.getContent post.key) = .ok (votedPost, emptied) := rfl
  have missing : emptied.perform site.limits (.getEngagement caller.user post.id) =
      .error .recordNotFound := rfl
  have commit : emptied.perform site.limits (.commitVote voted post.key { upVotes := 1 }) =
      .ok ((voted.written, recountedPost), recounted.store) := rfl
  exact .perform ⟨asked, distinct _⟩ <| .perform ⟨.carriedOut read, distinct _⟩ <|
    .perform ⟨.stamp _ 0, distinct _⟩ <| .perform ⟨.failed missing, distinct _⟩ <|
      .perform ⟨.carriedOut commit, distinct _⟩ .none

/-- A member writes a post and votes for it; the deletion of the post fails after the vote has been
removed, and the member votes again. -/
theorem recounted_history :
    Forum.History site [⟨votedForum.store, emptied⟩] 4 recounted := by
  let write : Invocation := ⟨{}, 0, .createPost caller ⟨.ofNat 1⟩ "body" []⟩
  let engage : Invocation := ⟨{}, 0, .vote caller ⟨post.hive, post.key⟩ .addUp⟩
  have posted : Thread.Steps ((site.responses .calm).within (Forum.DistinctIds site))
      write.thread.2 .blank (.running (.done post)) forum :=
    createPost_steps 0 rfl rfl rfl rfl ⟨.nil, fun _ h => by cases h⟩ (distinct_post _)
  have voted : Thread.Steps ((site.responses .calm).within (Forum.DistinctIds site))
      engage.thread.2 forum (.running (.done voted.written)) votedForum :=
    vote_steps (distinct_post _) (distinct_post _)
  have first := @Forum.History.acts site _ _ _ _ write _ _ .blank rfl posted rfl
  have second := @Forum.History.acts site _ _ _ _ engage _ _ first rfl voted rfl
  have third := Forum.History.deletes second Conditions.honest_unsteady abort_steps rfl
  exact @Forum.History.acts site _ _ _ _ engage _ _ third rfl revote_steps rfl

/-- After the second vote the post counts two votes, one of which has been removed. -/
theorem recounted_reckoned :
    Forum.History site [⟨votedForum.store, emptied⟩] 4 recounted ∧ 4 < 9223372036854775808 ∧
      recounted.store.item? post.key = some recountedPost ∧
      recountedPost.Reckons recounted.store [⟨votedForum.store, emptied⟩] :=
  ⟨recounted_history, by decide, rfl,
    @Forum.counts_reckoned _ _ _ _ recounted_history (by decide) post.key _ rfl⟩

/-- The counts are not those of what is stored: a member who votes again after a deletion that
failed is counted twice. -/
theorem counted_twice : ¬∀ (site : Site) (deletions : List Deletion) (turns : Nat) (forum : Forum),
    Forum.History site deletions turns forum → turns < 9223372036854775808 →
      ∀ key item, forum.store.item? key = some item →
        item.upVotes.toInt = forum.store.tally item.id (·.upVoted) := by
  intro h
  have heq : recountedPost.upVotes.toInt = _ :=
    h site _ 4 recounted recounted_history (by decide) post.key recountedPost rfl
  exact absurd heq (by decide)

end Sample

end HiveForum
