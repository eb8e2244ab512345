import HiveForum.Proofs.Forum.Answers
import HiveForum.Proofs.Deletion.Pruning
import Mathlib.Data.List.Perm.Subperm

/-!
# Enumerating a tree while it is being deleted

The comments and the records of a tree are enumerated page by page while units that were spawned for
earlier pages delete from the same collections. Nothing is missed: whatever is still stored and is
not in the charge of a unit lies after the position from which the enumeration goes on. It comes to
an end, since there is less and less after these positions in the store that it began with.

## Main definitions

* `StoreState.childrenAfter`: the items of a scope after a position.
* `Forum.Lists`, `Forum.Shows`: a page of comments, or of records, shows what there is after a
  position.

## Main results

* `Forum.Lists.left`, `Forum.Shows.left`: once what a page shows is gone, the rest lies after it.
* `Forum.meets_deleteBatch`: a batch of records goes.
* `Forum.meets_spawnRecords`: once the units have ended no record of an item is left.
* `Forum.meets_spawnChildren`: once the units have ended no comment is left.
-/

namespace HiveForum

open Program Std

private theorem length_lt_of_subset {α : Type} {list larger : List α} (nodup : list.Nodup)
    (subset : list ⊆ larger) {x : α} (hx : x ∈ larger) (hnot : x ∉ list) :
    list.length < larger.length := by
  have hcons : (x :: list).Nodup := List.nodup_cons.2 ⟨hnot, nodup⟩
  exact (List.subperm_of_subset hcons (List.cons_subset.2 ⟨hx, subset⟩)).length_le

namespace StoreState

variable {store : StoreState}

/-- The items of a scope after a position in the order of creation. -/
def childrenAfter (store : StoreState) (scope : ScopeId) (startAfter : Option IndexKey) :
    List ContentItem :=
  (store.scopeItems scope).filter fun item =>
    Direction.ascending.isPast startAfter (item.indexKey .created)

theorem mem_childrenAfter_iff (keyed : store.Keyed) {scope : ScopeId}
    {startAfter : Option IndexKey} {item : ContentItem} :
    item ∈ store.childrenAfter scope startAfter ↔
      store.item? item.key = some item ∧ item.scope = scope ∧
        Direction.ascending.isPast startAfter (item.indexKey .created) = true := by
  rw [childrenAfter, List.mem_filter, Filed.mem_scopeItems_iff keyed.items, and_assoc]

theorem eq_of_indexKey (keyed : store.Keyed) {scope : ScopeId} {startAfter : Option IndexKey}
    {a b : ContentItem} (ha : a ∈ store.childrenAfter scope startAfter)
    (hb : b ∈ store.childrenAfter scope startAfter)
    (h : a.indexKey .created = b.indexKey .created) : a = b := by
  obtain ⟨hstored, hscope, -⟩ := (mem_childrenAfter_iff keyed).1 ha
  obtain ⟨hstored', hscope', -⟩ := (mem_childrenAfter_iff keyed).1 hb
  have hid : a.id = b.id := congrArg IndexKey.id h
  have hkey : a.key = b.key := by
    unfold ContentItem.key
    rw [hscope, hscope', hid]
  rw [hkey, hstored'] at hstored
  exact (Option.some.inj hstored).symm

theorem mem_itemsAfter_children {settings : Settings} {scope : ScopeId}
    {startAfter reached : Option IndexKey} {item : ContentItem} :
    item ∈ store.itemsAfter ((Scan.children scope startAfter).query settings reached) ↔
      item ∈ store.childrenAfter scope reached := by
  rw [childrenAfter, List.mem_filter]
  exact mem_itemsAfter_iff

theorem childrenAfter_subset {scope : ScopeId} {startAfter : Option IndexKey} {item : ContentItem}
    (hitem : item ∈ store.childrenAfter scope startAfter) :
    store.childrenAfter scope (some (item.indexKey .created)) ⊆
      store.childrenAfter scope startAfter := by
  intro other hother
  obtain ⟨-, hpast⟩ := List.mem_filter.1 hitem
  obtain ⟨hscope, hafter⟩ := List.mem_filter.1 hother
  exact List.mem_filter.2 ⟨hscope, Direction.isPast_trans hpast hafter⟩

theorem length_childrenAfter_le (store : StoreState) (scope : ScopeId)
    (startAfter : Option IndexKey) :
    (store.childrenAfter scope startAfter).length ≤ (store.childrenAfter scope none).length := by
  have hall : store.childrenAfter scope none = store.scopeItems scope :=
    List.filter_eq_self.2 fun _ _ => rfl
  rw [hall]
  exact List.length_filter_le _ _

theorem length_childrenAfter_lt (keyed : store.Keyed) {scope : ScopeId}
    {startAfter : Option IndexKey} {item : ContentItem}
    (hitem : item ∈ store.childrenAfter scope startAfter) :
    (store.childrenAfter scope (some (item.indexKey .created))).length <
      (store.childrenAfter scope startAfter).length := by
  refine length_lt_of_subset ?_ (childrenAfter_subset hitem) hitem fun hself => ?_
  · exact ((scopeItems_pairwise keyed.items scope).imp fun hne heq => hne (congrArg _ heq)).filter _
  · obtain ⟨-, hafter⟩ := List.mem_filter.1 hself
    exact absurd hafter (by simp [Direction.isPast, Direction.isAfter_self])

theorem recordsAfter_subset (keyed : store.Keyed) {content : ContentId}
    {startAfter : Option UserId} {record : EngagementRecord}
    (hrecord : record ∈ store.recordsAfter content startAfter) :
    store.recordsAfter content (some record.user) ⊆ store.recordsAfter content startAfter := by
  intro other hother
  rw [mem_recordsAfter_iff keyed] at hrecord hother ⊢
  obtain ⟨-, -, hafter⟩ := hrecord
  obtain ⟨hstored, hcontent, hpast⟩ := hother
  exact ⟨hstored, hcontent, fun user huser =>
    TransCmp.lt_trans (hafter user huser) (hpast record.user rfl)⟩

theorem length_recordsAfter_lt (keyed : store.Keyed) {content : ContentId}
    {startAfter : Option UserId} {record : EngagementRecord}
    (hrecord : record ∈ store.recordsAfter content startAfter) :
    (store.recordsAfter content (some record.user)).length <
      (store.recordsAfter content startAfter).length := by
  refine length_lt_of_subset ?_ (recordsAfter_subset keyed hrecord) hrecord fun hself => ?_
  · refine (recordsAfter_pairwise keyed content _).imp fun {a b} hlt heq => ?_
    rw [heq] at hlt
    exact absurd hlt (by simp [ReflCmp.compare_self])
  · obtain ⟨-, -, hlt⟩ := (mem_recordsAfter_iff keyed).1 hself
    exact absurd (hlt record.user rfl) (by simp [ReflCmp.compare_self])

end StoreState

namespace Forum

/-- A page of items shows what there is after a position, and says where to go on. -/
structure Lists (start later : Forum) (scope : ScopeId) (startAfter : Option IndexKey)
    (collected : Collected) : Prop where
  items : ∀ item ∈ collected.items, item ∈ start.store.childrenAfter scope startAfter
  rest : ∀ item ∈ later.store.childrenAfter scope startAfter, item ∈ collected.items ∨
    ∃ position, collected.next = some position ∧
      item ∈ later.store.childrenAfter scope (some position)
  next : ∀ position, collected.next = some position →
    ∃ item ∈ collected.items, item.indexKey .created = position

/-- Between two rounds of a page the items after its start are held, or lie after the position that
has been reached. -/
structure Holds (start forum : Forum) (scope : ScopeId) (startAfter reached : Option IndexKey)
    (held : List ContentItem) : Prop where
  items : held ⊆ start.store.childrenAfter scope startAfter
  beyond : start.store.childrenAfter scope reached ⊆ start.store.childrenAfter scope startAfter
  passed : ∀ item ∈ held, ∃ position, reached = some position ∧
    Direction.ascending.isAfter (item.indexKey .created) position = false
  rest : ∀ item ∈ forum.store.childrenAfter scope startAfter,
    item ∈ held ∨ item ∈ forum.store.childrenAfter scope reached

/-- A page of records shows what there is after a position, and says where to go on. -/
structure Shows (start later : Forum) (content : ContentId) (startAfter : Option UserId)
    (page : EngagementPage) : Prop where
  size : page.records.length ≤ Limit.batchWrite
  records : ∀ record ∈ page.records, record ∈ start.store.recordsAfter content startAfter
  rest : ∀ record ∈ later.store.recordsAfter content startAfter, record ∈ page.records ∨
    ∃ user, page.lastEvaluated = some user ∧ record ∈ later.store.recordsAfter content (some user)
  next : ∀ user, page.lastEvaluated = some user → ∃ record ∈ page.records, record.user = user

section

variable {site : Site} {conditions : Conditions} {whole short : Prop} {start forum : Forum}
  {root : ContentItem} {α : Type}

/-- A unit of a deletion meets its contract. -/
abbrev Deletes (site : Site) (conditions : Conditions) (whole short : Prop) (start : Forum)
    (root : ContentItem) (pledge : Pledge Forum) (p : Program α) (claim : α → Forum → Prop)
    (forum : Forum) : Prop :=
  p.Meets (site.serving conditions whole)
    (start.pruning root (conditions.Troubled whole) short) pledge claim forum

/-- A page is read, or there is trouble; what is paged through is never denied. -/
abbrev Reads (site : Site) (conditions : Conditions) (whole short : Prop) (start : Forum)
    (root : ContentItem) (p : Program α) (claim : α → Forum → Prop) (forum : Forum) : Prop :=
  p.Meets (site.serving conditions whole)
    ((start.pruning root (conditions.Troubled whole) short).withFailing fun error _ =>
      (error = .notFound → False) ∧ (error ≠ .notFound → conditions.Troubled whole))
    none claim forum

theorem prunes_of_moves {trouble : Prop} {later : Forum}
    (moves : (start.pruning root trouble short).Moves forum later) :
    start.Prunes root forum later := by
  induction moves with
  | refl => exact .refl start root forum
  | tail _ change ih => exact ih.trans (change.elim id id)

theorem Prunes.recordsAfter_subset {later : Forum} (h : start.Prunes root forum later)
    (keyed : forum.store.Keyed) (content : ContentId) (startAfter : Option UserId) :
    later.store.recordsAfter content startAfter ⊆ forum.store.recordsAfter content startAfter := by
  intro record hrecord
  obtain ⟨hstored, hpast⟩ := (StoreState.mem_recordsAfter_iff (h.keyed keyed)).1 hrecord
  exact (StoreState.mem_recordsAfter_iff keyed).2 ⟨h.record?_eq hstored, hpast⟩

/-! ### Batches of records -/

variable (honest : conditions.Honest)

include honest

/-- A call for a batch removes records of the tree only. Unless there is trouble nothing remains to
be done after it; what does remain is part of the batch, and the rest of the batch is gone. -/
theorem prunes_of_batch {keys pending : List EngagementKey} {after : Forum}
    {reply : Except StoreError (List EngagementKey)}
    (owned : ∀ key ∈ keys, start.store.Owns root key.content) (part : pending ⊆ keys)
    (size : pending.length ≤ Limit.batchWrite)
    (gone : ∀ key ∈ keys, key ∉ pending → forum.store.record? key = none)
    (answer : (site.serving conditions whole).Answers (.store (.deleteEngagements pending)) forum
      reply after) :
    start.Prunes root forum after ∧ (reply ≠ .ok [] → conditions.Troubled whole) ∧
      ∀ rest, remainingKeys pending reply = .ok rest →
        rest ⊆ keys ∧ rest.length ≤ Limit.batchWrite ∧
          ∀ key ∈ keys, key ∉ rest → after.store.record? key = none := by
  obtain ⟨answer, completes⟩ := answer
  rcases answer.of_batch honest size with ⟨done, left, rfl, hsplit, rfl⟩ |
    ⟨error, rfl, rfl, refused⟩
  · have hmem : ∀ key, key ∈ pending ↔ key ∈ done ∨ key ∈ left :=
      fun key => hsplit.mem_iff.trans List.mem_append
    have hdone : ∀ key ∈ done, start.store.Owns root key.content :=
      fun key hkey => owned key (part ((hmem key).2 (.inl hkey)))
    refine ⟨prunes_removeRecords hdone, fun hleft => .inr (.inr fun hwhole => ?_), ?_⟩
    · exact hleft (congrArg _ (completes hwhole left rfl))
    · rintro rest heq
      cases heq
      have hlength := hsplit.length_eq
      rw [List.length_append] at hlength
      refine ⟨fun key hkey => part ((hmem key).2 (.inr hkey)), by omega, fun key hkey hnot => ?_⟩
      rw [StoreState.record?_removeRecords]
      split
      · rfl
      · rename_i hnotDone
        exact gone key hkey fun hpending => ((hmem key).1 hpending).elim hnotDone hnot
  · refine ⟨.refl start root after, fun _ => .inl ⟨error, refused⟩, fun rest heq => ?_⟩
    unfold remainingKeys at heq
    dsimp only at heq
    split at heq
    · cases heq
      exact ⟨part, size, gone⟩
    · cases heq

/-- A batch is retried until nothing of it is left, or there is trouble. -/
theorem meets_deleteBatchFrom {settings : BackoffSettings} {keys : List EngagementKey}
    (owned : ∀ key ∈ keys, start.store.Owns root key.content) (left : Nat)
    {pending : List EngagementKey} (part : pending ⊆ keys)
    (size : pending.length ≤ Limit.batchWrite)
    (gone : ∀ key ∈ keys, key ∉ pending → forum.store.record? key = none) :
    Deletes site conditions whole short start root none (deleteBatchFrom settings left pending)
      (fun _ later => ∀ key ∈ keys, later.store.record? key = none) forum := by
  induction left generalizing forum pending with
  | zero =>
    rw [deleteBatchFrom]
    intro later reply after hlater answer
    obtain ⟨hprunes, trouble, hrest⟩ := prunes_of_batch honest owned part size
      (fun key hkey hnot => Prunes.record?_eq_none hlater (gone key hkey hnot)) answer
    refine ⟨hprunes, ?_⟩
    simp only [done_bind]
    split
    · obtain ⟨-, -, hgone⟩ := hrest [] rfl
      exact fun last hlast _ key hkey =>
        Prunes.record?_eq_none hlast (hgone key hkey List.not_mem_nil)
    · rename_i hleft
      cases remainingKeys pending reply with
      | ok rest => exact fun _ _ => trouble hleft
      | error error => exact fun _ _ => trouble hleft
  | succ left ih =>
    rw [deleteBatchFrom]
    intro later reply after hlater answer
    obtain ⟨hprunes, trouble, hrest⟩ := prunes_of_batch honest owned part size
      (fun key hkey hnot => Prunes.record?_eq_none hlater (gone key hkey hnot)) answer
    refine ⟨hprunes, ?_⟩
    simp only [done_bind]
    split
    · obtain ⟨-, -, hgone⟩ := hrest [] rfl
      exact fun last hlast _ key hkey =>
        Prunes.record?_eq_none hlast (hgone key hkey List.not_mem_nil)
    · rename_i hleft
      cases hremaining : remainingKeys pending reply with
      | error error => exact fun _ _ => trouble hleft
      | ok rest =>
        obtain ⟨hpart, hsize, hgone⟩ := hrest rest hremaining
        intro second word third hsecond hword
        obtain ⟨_ | _, -⟩ := hword
        refine ⟨.refl start root second, ?_⟩
        intro third paused last hthird hpaused
        obtain ⟨hpaused, -⟩ := hpaused
        cases hpaused with
        | passed =>
          refine ⟨.refl start root third, ih hpart hsize fun key hkey hnot => ?_⟩
          exact Prunes.record?_eq_none (Prunes.trans hsecond hthird) (hgone key hkey hnot)
        | expired => exact ⟨.refl start root third, fun _ _ => trouble hleft⟩

/-- A batch of records goes, or there is trouble. -/
theorem meets_deleteBatch {settings : BackoffSettings} {keys : List EngagementKey}
    (owned : ∀ key ∈ keys, start.store.Owns root key.content)
    (size : keys.length ≤ Limit.batchWrite) :
    Deletes site conditions whole short start root none (deleteBatch settings keys)
      (fun _ later => ∀ key ∈ keys, later.store.record? key = none) forum :=
  meets_deleteBatchFrom honest owned _ (List.Subset.refl keys) size
    fun _ hkey hnot => absurd hkey hnot

/-! ### Records -/

variable (tiered : start.store.Tiered) (started : start.Prunes root start forum)

include tiered started

omit honest in
/-- A page of records that is read shows what there is, then and later. -/
theorem shows_of_queryEngagement {limits : QueryLimits} {content : ContentId}
    {startAfter : Option UserId} {page : EngagementPage}
    (h : forum.store.queryEngagement limits ⟨content, Limit.batchWrite, startAfter⟩ = .ok page)
    {later : Forum} (hlater : start.Prunes root forum later) :
    start.Shows later content startAfter page := by
  have keyed := started.keyed tiered.keyed
  obtain ⟨-, hrecords, hlast⟩ := StoreState.queryEngagement_eq_ok h
  dsimp only at hrecords hlast
  have hshown : ∀ record ∈ page.records, record ∈ forum.store.recordsAfter content startAfter := by
    intro record hrecord
    rw [hrecords] at hrecord
    exact List.mem_of_mem_take hrecord
  refine ⟨?_, fun record hrecord => ?_, fun record hrecord => ?_, fun user huser => ?_⟩
  · rw [hrecords, List.length_take]
    omega
  · exact started.recordsAfter_subset tiered.keyed _ _ (hshown record hrecord)
  · have hbefore := hlater.recordsAfter_subset keyed _ _ hrecord
    refine (StoreState.mem_or_after_of_queryEngagement keyed h hbefore).imp_right ?_
    rintro ⟨user, huser, hafter⟩
    have hkeyed := hlater.keyed keyed
    obtain ⟨hstored, hcontent, -⟩ := (StoreState.mem_recordsAfter_iff hkeyed).1 hrecord
    refine ⟨user, huser, (StoreState.mem_recordsAfter_iff hkeyed).2 ⟨hstored, hcontent, ?_⟩⟩
    rintro _ ⟨⟩
    exact hafter
  · rw [hlast] at huser
    split at huser
    · cases huser
    · obtain ⟨record, hrecord, rfl⟩ := Option.map_eq_some_iff.1 huser
      rw [hrecords]
      exact ⟨record, List.mem_of_getLast? hrecord, rfl⟩

/-- A page of records is read, unless there is trouble. -/
theorem meets_queryEngagement {content : ContentId} {startAfter : Option UserId} :
    Reads site conditions whole short start root
      (call (.queryEngagement ⟨content, Limit.batchWrite, startAfter⟩))
      (fun page later => start.Shows later content startAfter page) forum := by
  intro later reply after hlater answer
  obtain ⟨answer, -⟩ := answer
  cases reply with
  | ok page =>
    obtain ⟨hpage, rfl⟩ := answer.queryEngagement
    refine ⟨.refl start root after, fun last hlast _ => ?_⟩
    exact shows_of_queryEngagement tiered (started.trans hlater) hpage hlast
  | error error =>
    have limit : 0 < Limit.batchWrite := by decide
    obtain ⟨rfl, hfound, hrefused⟩ := answer.of_queryEngagement honest limit
    exact ⟨.refl start root after, fun _ _ =>
      ⟨StoreError.ofStore_ne_notFound hfound, fun _ => .inl ⟨error, hrefused⟩⟩⟩

omit honest tiered started in
/-- Once the records that a page shows are gone, what is left lies after the page. -/
theorem Shows.left {later : Forum} {content : ContentId} {startAfter : Option UserId}
    {page : EngagementPage} (h : start.Shows later content startAfter page)
    (keyed : later.store.Keyed)
    (covered : later.store.recordsAfter content none ⊆ later.store.recordsAfter content startAfter)
    (gone : ∀ key ∈ page.records.map (·.key), later.store.record? key = none) :
    ∀ record ∈ later.store.recordsAfter content none, ∃ user, page.lastEvaluated = some user ∧
      record ∈ later.store.recordsAfter content (some user) := by
  intro record hrecord
  refine (h.rest record (covered hrecord)).resolve_left fun hshown => ?_
  obtain ⟨hstored, -⟩ := (StoreState.mem_recordsAfter_iff keyed).1 hrecord
  rw [gone _ (List.mem_map_of_mem hshown)] at hstored
  cases hstored

omit started in
theorem meets_deletePage (settings : BackoffSettings) {content : ContentId}
    {startAfter : Option UserId} {page : EngagementPage} (owns : start.store.Owns root content)
    (h : start.Shows forum content startAfter page) :
    Deletes site conditions whole short start root none
      (deleteBatch settings (page.records.map (·.key)))
      (fun _ later => ∀ key ∈ page.records.map (·.key), later.store.record? key = none) forum := by
  refine meets_deleteBatch honest (fun key hkey => ?_) (by rw [List.length_map]; exact h.size)
  obtain ⟨record, hrecord, rfl⟩ := List.mem_map.1 hkey
  obtain ⟨-, hcontent, -⟩ :=
    (StoreState.mem_recordsAfter_iff tiered.keyed).1 (h.records record hrecord)
  rwa [← hcontent] at owns

/-- Once the units that an enumeration of records spawns have ended, no record of the item is left,
if the units spawned before take care of all records before the position that it starts from. -/
theorem meets_spawnRecords {settings : Settings} {content : ContentId}
    (owns : start.store.Owns root content) (pages : Nat) {startAfter : Option UserId}
    {pledged extra : Forum → Prop}
    (hextra : ∀ later, start.Prunes root forum later → pledged later → extra later)
    (covered : ∀ later, start.Prunes root forum later → pledged later →
      later.store.recordsAfter content none ⊆ later.store.recordsAfter content startAfter)
    (bound : short ∨ (start.store.recordsAfter content startAfter).length < pages) :
    Deletes site conditions whole short start root (some pledged)
      (spawnRecords settings content pages startAfter)
      (fun _ later => extra later ∧ later.store.recordsAfter content none = []) forum := by
  induction pages generalizing forum startAfter pledged with
  | zero => exact bound.resolve_right (Nat.not_lt_zero _)
  | succ pages ih =>
    rw [spawnRecords]
    dsimp only
    refine Meets.unlessNotFound (meets_queryEngagement honest tiered started)
      (fun page middle moves hpage => ?_)
      (fun middle _ hmissing => ((hmissing middle (.refl ..)).1 rfl).elim)
      fun _ _ hfound h => h.2 hfound
    have hmiddle := prunes_of_moves moves
    have hshows : ∀ later, start.Prunes root middle later →
        start.Shows later content startAfter page := hpage
    have hbatch : Deletes site conditions whole short start root none _ _ middle :=
      meets_deletePage honest tiered settings.backoff owns (hshows middle (.refl ..))
    -- what is still there is in the charge of no unit, and lies ahead
    have hleft : ∀ later, start.Prunes root middle later → pledged later →
        (∀ key ∈ page.records.map (·.key), later.store.record? key = none) →
        ∀ record ∈ later.store.recordsAfter content none, ∃ user, page.lastEvaluated = some user ∧
          record ∈ later.store.recordsAfter content (some user) :=
      fun later hlater hpledged => (hshows later hlater).left
        ((started.trans (hmiddle.trans hlater)).keyed tiered.keyed)
        (covered later (hmiddle.trans hlater) hpledged)
    dsimp only
    cases hlast : page.lastEvaluated with
    | none =>
      have hdone : ∀ later, start.Prunes root middle later → pledged later →
          (∀ key ∈ page.records.map (·.key), later.store.record? key = none) →
          extra later ∧ later.store.recordsAfter content none = [] := by
        intro later hlater hpledged hgone
        refine ⟨hextra later (hmiddle.trans hlater) hpledged, ?_⟩
        refine List.eq_nil_iff_forall_not_mem.2 fun record hrecord => ?_
        obtain ⟨user, huser, -⟩ := hleft later hlater hpledged hgone record hrecord
        rw [hlast] at huser
        cases huser
      split
      · exact ⟨pledged, _, rfl, hbatch, fun later hlater h => hdone later hlater h.1 h.2⟩
      · rename_i hpage
        exact fun later hlater h =>
          hdone later hlater h (EngagementPage.forall_key_of_isEmpty hpage)
    | some user =>
      have hmore : ∀ made : Forum → Prop,
          (∀ later, made later → pledged later ∧
            ∀ key ∈ page.records.map (·.key), later.store.record? key = none) →
          Deletes site conditions whole short start root (some made)
            (spawnRecords settings content pages (some user))
            (fun _ later => extra later ∧ later.store.recordsAfter content none = []) middle := by
        intro made hmade
        refine ih (started.trans hmiddle) ?_ ?_ ?_
        · exact fun later hlater h => hextra later (hmiddle.trans hlater) (hmade later h).1
        · intro later hlater h record hrecord
          obtain ⟨hpledged, hgone⟩ := hmade later h
          obtain ⟨other, hother, hafter⟩ := hleft later hlater hpledged hgone record hrecord
          rw [hlast] at hother
          cases hother
          exact hafter
        · refine bound.imp_right fun hlength => ?_
          have hshow := hshows middle (.refl start root middle)
          obtain ⟨record, hrecord, rfl⟩ := hshow.next user hlast
          have hlt := StoreState.length_recordsAfter_lt tiered.keyed (hshow.records record hrecord)
          omega
      split
      · exact ⟨pledged, _, rfl, hbatch, hmore _ fun later h => h⟩
      · rename_i hpage
        exact hmore pledged fun later h => ⟨h, EngagementPage.forall_key_of_isEmpty hpage⟩

/-! ### Comments -/

omit honest tiered started in
theorem Prunes.childrenAfter_subset {later : Forum} (h : start.Prunes root forum later)
    (scope : ScopeId) (startAfter : Option IndexKey) :
    later.store.childrenAfter scope startAfter ⊆ forum.store.childrenAfter scope startAfter := by
  intro item hitem
  obtain ⟨hscope, hpast⟩ := List.mem_filter.1 hitem
  obtain ⟨id, hstored⟩ := StoreState.mem_scopeItems_iff.1 hscope
  exact List.mem_filter.2 ⟨StoreState.mem_scopeItems_iff.2 ⟨id, h.item?_eq hstored⟩, hpast⟩

omit honest tiered started in
theorem Holds.later {scope : ScopeId} {startAfter reached : Option IndexKey}
    {held : List ContentItem} (h : start.Holds forum scope startAfter reached held) {later : Forum}
    (hlater : start.Prunes root forum later) : start.Holds later scope startAfter reached held where
  items := h.items
  beyond := h.beyond
  passed := h.passed
  rest item hitem := by
    refine (h.rest item (hlater.childrenAfter_subset _ _ hitem)).imp_right fun hahead => ?_
    obtain ⟨-, hpast⟩ := List.mem_filter.1 hahead
    obtain ⟨hscope, -⟩ := List.mem_filter.1 hitem
    exact List.mem_filter.2 ⟨hscope, hpast⟩

omit honest tiered started in
theorem Holds.perm {scope : ScopeId} {startAfter reached : Option IndexKey}
    {held held' : List ContentItem} (h : start.Holds forum scope startAfter reached held)
    (perm : held'.Perm held) : start.Holds forum scope startAfter reached held' where
  items := List.Subset.trans perm.subset h.items
  beyond := h.beyond
  passed item hitem := h.passed item (perm.mem_iff.1 hitem)
  rest item hitem := (h.rest item hitem).imp_left perm.mem_iff.2

omit honest in
/-- After a round the page holds more, and all that it does not hold lies after the position that
has been reached. There is less after that position than before. -/
theorem Holds.round {settings : Settings} {limits : QueryLimits} {scope : ScopeId}
    {startAfter reached : Option IndexKey} {held : List ContentItem} {page : ContentPage}
    (h : start.Holds forum scope startAfter reached held)
    (hpage : forum.store.queryContent limits
      ((Scan.children scope startAfter).query settings reached) = .ok page) :
    held ++ page.items ⊆ start.store.childrenAfter scope startAfter ∧
      (page.lastEvaluated = none →
        forum.store.childrenAfter scope startAfter ⊆ held ++ page.items) ∧
      ∀ position, page.lastEvaluated = some position →
        start.Holds forum scope startAfter (some position) (held ++ page.items) ∧
          (start.store.childrenAfter scope (some position)).length <
            (start.store.childrenAfter scope reached).length := by
  have keyed := started.keyed tiered.keyed
  have hitems : held ++ page.items ⊆ start.store.childrenAfter scope startAfter := by
    refine List.append_subset.2 ⟨h.items, fun item hitem => h.beyond ?_⟩
    have hahead := StoreState.mem_scope_of_queryContent hpage hitem
    exact started.childrenAfter_subset _ _
      (StoreState.mem_itemsAfter_children.1 (StoreState.mem_itemsAfter_iff.2 hahead))
  have hrest : ∀ item ∈ forum.store.childrenAfter scope startAfter, item ∈ held ++ page.items ∨
      ∃ position, page.lastEvaluated = some position ∧
        item ∈ forum.store.childrenAfter scope (some position) := by
    intro item hitem
    rcases h.rest item hitem with hheld | hnext
    · exact .inl (List.mem_append_left _ hheld)
    · obtain ⟨hscope, hpast⟩ := List.mem_filter.1 hnext
      refine (StoreState.mem_or_after_of_queryContent keyed.items hpage hscope hpast rfl).imp
        (List.mem_append_right _) ?_
      rintro ⟨position, hposition, hafter⟩
      exact ⟨position, hposition, List.mem_filter.2 ⟨hscope, hafter⟩⟩
  refine ⟨hitems, fun hlast item hitem => (hrest item hitem).resolve_right ?_, ?_⟩
  · rintro ⟨position, hposition, -⟩
    rw [hlast] at hposition
    cases hposition
  · intro position hposition
    obtain ⟨⟨last, hmem, rfl⟩, hnotAfter⟩ :=
      StoreState.lastEvaluated_of_queryContent keyed.items hpage hposition
    have hlast := started.childrenAfter_subset _ _ (StoreState.mem_itemsAfter_children.1 hmem)
    refine ⟨⟨hitems, fun item hitem => h.beyond (StoreState.childrenAfter_subset hlast hitem),
      fun item hitem => ⟨_, rfl, ?_⟩, fun item hitem => ?_⟩,
      StoreState.length_childrenAfter_lt tiered.keyed hlast⟩
    · rcases List.mem_append.1 hitem with hheld | hshown
      · obtain ⟨start, rfl, hbefore⟩ := h.passed item hheld
        obtain ⟨-, hpast⟩ := List.mem_filter.1 hlast
        refine Bool.eq_false_iff.2 fun hafter => ?_
        rw [Direction.isAfter_trans hpast hafter] at hbefore
        cases hbefore
      · exact hnotAfter item hshown
    · refine (hrest item hitem).imp_right ?_
      rintro ⟨other, hother, hafter⟩
      rw [hposition] at hother
      cases hother
      exact hafter

omit honest started in
/-- A page that is cut from what is held lists the items after its start, if those that are not held
come after a full page. -/
theorem lists_ofHeld {later : Forum} {scope : ScopeId} {startAfter : Option IndexKey}
    {exhausted : Bool} {held : List ContentItem}
    (sorted : held.Pairwise fun a b => ContentItem.precedes .created .ascending a b = true)
    (items : held ⊆ start.store.childrenAfter scope startAfter)
    (rest : ∀ item ∈ later.store.childrenAfter scope startAfter, item ∈ held ∨
      exhausted = false ∧ Limit.batchWrite ≤ held.length ∧ ∀ other ∈ held,
        Direction.ascending.isAfter (item.indexKey .created) (other.indexKey .created) = true) :
    start.Lists later scope startAfter
      (.ofHeld (Scan.children scope startAfter) exhausted held) := by
  have hsize : (Scan.children scope startAfter).pageSize = Limit.batchWrite := rfl
  have hpos : 0 < Limit.batchWrite := by decide
  rw [Collected.ofHeld]
  simp only [hsize]
  refine ⟨fun item hitem => items (List.mem_of_mem_take hitem), fun item hitem => ?_,
    fun position hposition => ?_⟩
  · have hscope := (List.mem_filter.1 hitem).1
    -- what is not on the page follows the last item on it
    suffices h : item ∈ held.take Limit.batchWrite ∨
        (Limit.batchWrite < held.length ∨ held.length = Limit.batchWrite ∧ ¬exhausted) ∧
          ∃ last, (held.take Limit.batchWrite).getLast? = some last ∧
            Direction.ascending.isAfter (item.indexKey .created) (last.indexKey .created) = true by
      refine h.imp_right ?_
      rintro ⟨hfull, last, hlast, hafter⟩
      refine ⟨last.indexKey .created, ?_, List.mem_filter.2 ⟨hscope, hafter⟩⟩
      rw [hlast]
      rcases hfull with hlong | hfull
      · simp [hlong, Scan.children]
      · simp [hfull, Scan.children]
    rcases rest item hitem with hheld | ⟨rfl, hfull, hafter⟩
    · by_cases hlong : Limit.batchWrite < held.length
      · rcases List.mem_take_or_getLast? sorted hpos hheld with hshown | ⟨last, hlast, hle⟩
        · exact .inl hshown
        · by_cases heq : last.indexKey .created = item.indexKey .created
          · have hmem := List.mem_of_getLast? hlast
            rw [← StoreState.eq_of_indexKey tiered.keyed (items (List.mem_of_mem_take hmem))
              (items hheld) heq]
            exact .inl hmem
          · exact .inr ⟨.inl hlong, last, hlast, ContentItem.isAfter_of_precedes hle heq⟩
      · rw [List.take_of_length_le (by omega)]
        exact .inl hheld
    · have hne : held.take Limit.batchWrite ≠ [] := by
        rw [Ne, List.take_eq_nil_iff, ← List.length_eq_zero_iff]
        omega
      have hlast := List.mem_of_mem_take (List.getLast_mem hne)
      refine .inr ⟨?_, _, List.getLast?_eq_some_getLast hne, hafter _ hlast⟩
      rcases Nat.lt_or_eq_of_le hfull with hlong | hfull
      · exact .inl hlong
      · exact .inr ⟨hfull.symm, by simp⟩
  · have hlast : ((held.take Limit.batchWrite).getLast?.map (·.indexKey .created)) =
        some position := by
      change (if _ then _ else if _ then _ else none) = some position at hposition
      split at hposition
      · exact hposition
      · split at hposition
        · exact hposition
        · cases hposition
    obtain ⟨last, hmem, rfl⟩ := Option.map_eq_some_iff.1 hlast
    exact ⟨last, List.mem_of_getLast? hmem, rfl⟩

/-- The rounds of a page hold more and more, until the page is full or there is nothing more. -/
theorem meets_collectFrom {settings : Settings} {scope : ScopeId} {startAfter : Option IndexKey}
    (rounds : Nat) {reached : Option IndexKey} {held : List ContentItem}
    (holds : start.Holds forum scope startAfter reached held)
    (bound : short ∨ (start.store.childrenAfter scope reached).length < rounds) :
    Reads site conditions whole short start root
      (collectFrom settings (.children scope startAfter) rounds reached held)
      (fun collected later => start.Lists later scope startAfter collected) forum := by
  induction rounds generalizing forum reached held with
  | zero => exact bound.resolve_right (Nat.not_lt_zero _)
  | succ rounds ih =>
    rw [collectFrom]
    intro later reply after hlater answer
    obtain ⟨answer, -⟩ := answer
    cases reply with
    | error error =>
      obtain ⟨rfl, hfound, hrefused⟩ := answer.of_queryContent honest (Scan.query_limit_pos ..)
      exact ⟨.refl start root after, fun _ _ =>
        ⟨StoreError.ofStore_ne_notFound hfound, fun _ => .inl ⟨error, hrefused⟩⟩⟩
    | ok page =>
      obtain ⟨hpage, rfl⟩ := answer.queryContent
      refine ⟨.refl start root after, ?_⟩
      obtain ⟨hitems, hexhausted, hmore⟩ :=
        (holds.later hlater).round tiered (started.trans hlater) hpage
      have hperm := ContentItem.sort_perm .created .ascending (held ++ page.items)
      have hsorted := ContentItem.sort_pairwise .created .ascending (held ++ page.items)
      have hsub := List.Subset.trans hperm.subset hitems
      simp only [Program.ofExcept, done_bind]
      cases hlast : page.lastEvaluated with
      | none =>
        refine fun last hrely _ => lists_ofHeld tiered hsorted hsub fun item hitem => .inl ?_
        exact hperm.mem_iff.2 (hexhausted hlast (Prunes.childrenAfter_subset hrely _ _ hitem))
      | some position =>
        obtain ⟨hholds, hlt⟩ := hmore position hlast
        have hholds := hholds.perm hperm
        dsimp only
        split
        · exact ih (started.trans hlater) hholds (bound.imp_right fun hlength => by omega)
        · rename_i hfull
          refine fun last hrely _ => lists_ofHeld tiered hsorted hsub fun item hitem => ?_
          refine ((hholds.later hrely).rest item hitem).imp_right fun hahead => ?_
          refine ⟨rfl, Nat.le_of_not_lt hfull, fun other hother => ?_⟩
          obtain ⟨_, ⟨⟩, hpassed⟩ := hholds.passed other hother
          exact Direction.isAfter_of_not_isAfter hpassed (List.mem_filter.1 hahead).2

omit honest tiered started in
/-- Once the comments on a page are gone, what is left lies after the page. -/
theorem Lists.left {later : Forum} {scope : ScopeId} {startAfter : Option IndexKey}
    {collected : Collected} (h : start.Lists later scope startAfter collected)
    (keyed : later.store.Keyed)
    (covered : later.store.childrenAfter scope none ⊆ later.store.childrenAfter scope startAfter)
    (gone : ∀ item ∈ collected.items, later.store.item? item.key = none) :
    ∀ item ∈ later.store.childrenAfter scope none, ∃ position, collected.next = some position ∧
      item ∈ later.store.childrenAfter scope (some position) := by
  intro item hitem
  refine (h.rest item (covered hitem)).resolve_left fun hlisted => ?_
  obtain ⟨hstored, -⟩ := (StoreState.mem_childrenAfter_iff keyed).1 hitem
  rw [gone item hlisted] at hstored
  cases hstored

/-- Once the units that an enumeration of comments spawns have ended, no comment is left, if each
unit removes its comment and the units spawned before take care of all comments before the position
that it starts from. -/
theorem meets_spawnChildren {settings : Settings} {rounds : Nat} {scope : ScopeId}
    {unit : ContentItem → Program Unit}
    (hunit : ∀ later, start.Prunes root forum later →
      ∀ item ∈ start.store.childrenAfter scope none,
        Deletes site conditions whole short start root none (unit item)
          (fun _ last => last.store.item? item.key = none) later)
    (enough : short ∨ (start.store.childrenAfter scope none).length < rounds) (pages : Nat)
    {startAfter : Option IndexKey} {pledged : Forum → Prop}
    (covered : ∀ later, start.Prunes root forum later → pledged later →
      later.store.childrenAfter scope none ⊆ later.store.childrenAfter scope startAfter)
    (bound : short ∨ (start.store.childrenAfter scope startAfter).length < pages) :
    Deletes site conditions whole short start root (some pledged)
      (spawnChildren settings rounds scope unit pages startAfter)
      (fun _ later => later.store.childrenAfter scope none = []) forum := by
  induction pages generalizing forum startAfter pledged with
  | zero => exact bound.resolve_right (Nat.not_lt_zero _)
  | succ pages ih =>
    rw [spawnChildren]
    have hcollect : Reads site conditions whole short start root
        (collect settings rounds (.children scope startAfter))
        (fun collected later => start.Lists later scope startAfter collected) forum := by
      refine meets_collectFrom honest tiered started rounds ?_ (enough.imp_right fun hlength => ?_)
      · exact ⟨List.nil_subset _, List.Subset.refl _, fun _ h => (by cases h), fun _ h => .inr h⟩
      · exact Nat.lt_of_le_of_lt (start.store.length_childrenAfter_le scope startAfter) hlength
    refine Meets.unlessNotFound hcollect (fun collected middle moves hcollected => ?_)
      (fun middle _ hmissing => ((hmissing middle (.refl ..)).1 rfl).elim)
      fun _ _ hfound h => h.2 hfound
    have hmiddle := prunes_of_moves moves
    have hlists : ∀ later, start.Prunes root middle later →
        start.Lists later scope startAfter collected := hcollected
    have hlist := hlists middle (.refl start root middle)
    have hstart : ∀ item ∈ collected.items, item ∈ start.store.childrenAfter scope none := by
      intro item hitem
      obtain ⟨hscope, -⟩ := List.mem_filter.1 (hlist.items item hitem)
      exact List.mem_filter.2 ⟨hscope, rfl⟩
    refine Meets.forkAll (fun item hitem => hunit middle hmiddle item (hstart item hitem))
      fun made hmade => ?_
    -- what is still there is in the charge of no unit, and lies ahead
    have hleft : ∀ later, start.Prunes root middle later → made later →
        ∀ item ∈ later.store.childrenAfter scope none, ∃ position, collected.next = some position ∧
          item ∈ later.store.childrenAfter scope (some position) := by
      intro later hlater h
      obtain ⟨hpledged, hgone⟩ := hmade later h
      exact (hlists later hlater).left ((started.trans (hmiddle.trans hlater)).keyed tiered.keyed)
        (covered later (hmiddle.trans hlater) hpledged) hgone
    cases hnext : collected.next with
    | none =>
      intro later hlater h
      refine List.eq_nil_iff_forall_not_mem.2 fun item hitem => ?_
      obtain ⟨position, hposition, -⟩ := hleft later hlater h item hitem
      rw [hnext] at hposition
      cases hposition
    | some position =>
      refine ih (started.trans hmiddle) (fun later hlater => hunit later (hmiddle.trans hlater))
        ?_ ?_
      · intro later hlater h item hitem
        obtain ⟨other, hother, hahead⟩ := hleft later hlater h item hitem
        rw [hnext] at hother
        cases hother
        exact hahead
      · refine bound.imp_right fun hlength => ?_
        obtain ⟨item, hitem, rfl⟩ := hlist.next position hnext
        have hlt := StoreState.length_childrenAfter_lt tiered.keyed (hlist.items item hitem)
        omega

end

end Forum

end HiveForum
