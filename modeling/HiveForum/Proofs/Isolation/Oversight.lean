import HiveForum.Proofs.Forum.Lineage
import HiveForum.Proofs.Isolation.Confinement
import Mathlib.Data.List.Nodup

/-!
# What belongs to a hive

Under one key there is only ever one item, and the hive of an item never changes. So the identifiers
given out so far tell the hive of whatever is stored: an item is of the hive that its identifier was
given out in, its scope is that of this hive or of a post in it, and a record is of the hive of its
item. Whoever keeps to a hive keeps this order, and leaves all other hives as they are.

## Main definitions

* `StoreState.AgreesWhere`: two stores have the same items and records of some hives.
* `View.Oversees`: a view tells of whatever is stored whether it is of the hive.
* `Forum.home?`, `Forum.view`: the hive that an identifier belongs to, and the view that goes by it.

## Main results

* `View.Oversees.vouches`: the replies of a store that is overseen are in accordance with the view.
* `View.Oversees.maintained`: a store remains overseen if what is stored can be told.
* `View.Oversees.spares`: an admitted effect leaves all other hives as they are.
-/

namespace HiveForum

/-- The stores have the same items and the same records of certain hives. -/
structure StoreState.AgreesWhere (store : StoreState) (hives : ScopeId → Prop)
    (other : StoreState) : Prop where
  items : ∀ key item, hives item.hive → (store.item? key = some item ↔ other.item? key = some item)
  records : ∀ key record, hives record.hive →
    (store.record? key = some record ↔ other.record? key = some record)

namespace StoreState.AgreesWhere

variable {hives : ScopeId → Prop} {store other third : StoreState}

theorem refl : store.AgreesWhere hives store :=
  ⟨fun _ _ _ => Iff.rfl, fun _ _ _ => Iff.rfl⟩

theorem symm (h : store.AgreesWhere hives other) : other.AgreesWhere hives store :=
  ⟨fun key item hhive => (h.items key item hhive).symm,
    fun key record hhive => (h.records key record hhive).symm⟩

theorem trans (h : store.AgreesWhere hives other) (h' : other.AgreesWhere hives third) :
    store.AgreesWhere hives third :=
  ⟨fun key item hhive => (h.items key item hhive).trans (h'.items key item hhive),
    fun key record hhive => (h.records key record hhive).trans (h'.records key record hhive)⟩

theorem mono {fewer : ScopeId → Prop} (h : store.AgreesWhere hives other)
    (imp : ∀ hive, fewer hive → hives hive) : store.AgreesWhere fewer other :=
  ⟨fun key item hhive => h.items key item (imp _ hhive),
    fun key record hhive => h.records key record (imp _ hhive)⟩

end StoreState.AgreesWhere

namespace View

/-- Whatever is stored is stored under its own key, and the view tells whether it is of the hive. -/
structure Oversees (view : View) (store : StoreState) : Prop where
  items : ∀ key item, store.item? key = some item → item.key = key ∧ view.TellsItem item
  records : ∀ key record, store.record? key = some record →
    record.key = key ∧ view.TellsRecord record

variable {view : View}

theorem TellsItem.of_asCreated {item other : ContentItem} (tells : view.TellsItem other)
    (same : item.asCreated = other.asCreated) : view.TellsItem item := by
  have hid := ContentItem.field_eq same ContentItem.id fun _ => rfl
  have hscope := ContentItem.field_eq same ContentItem.scope fun _ => rfl
  have hhive := ContentItem.field_eq same ContentItem.hive fun _ => rfl
  exact ⟨by rw [hid, hhive]; exact tells.id, by rw [hscope, hhive]; exact tells.scope⟩

theorem Admits.ownsRecord {request : Request} {record : EngagementRecord}
    (admitted : view.Admits (.store request)) (h : request.record? = some record) :
    view.OwnsRecord record := by
  cases request with
  | putEngagement => exact Option.some.inj h ▸ admitted
  | commitReport => exact Option.some.inj h ▸ admitted.1
  | commitVote => exact Option.some.inj h ▸ admitted.1
  | _ => cases h

/-- The item that a request edits or removes is under an identifier of the hive, and a new item is
of the hive. -/
theorem Admits.ownsItem {request : Request} {key : ContentKey}
    (admitted : view.Admits (.store request)) (h : request.item? = some key) :
    view.owns key.id ∨ ∃ item, request = .putContent item ∧ item.hive = view.hive := by
  cases request with
  | putContent item => exact .inr ⟨item, rfl, admitted.1⟩
  | commitReport => exact .inl (Option.some.inj h ▸ admitted.2)
  | commitVote => exact .inl (Option.some.inj h ▸ admitted.2)
  | adjustCounts => exact .inl (Option.some.inj h ▸ admitted)
  | touchActivity => exact .inl (Option.some.inj h ▸ admitted)
  | markReviewed => exact .inl (Option.some.inj h ▸ admitted)
  | setPinned => exact .inl (Option.some.inj h ▸ admitted)
  | deleteContent => exact .inl (Option.some.inj h ▸ admitted)
  | _ => cases h

namespace Oversees

variable {store later : StoreState}

theorem keyed (oversees : view.Oversees store) : store.Keyed :=
  ⟨fun key item h => (oversees.items key item h).1,
    fun key record h => (oversees.records key record h).1⟩

theorem owns_id_iff (oversees : view.Oversees store) {key : ContentKey} {item : ContentItem}
    (h : store.item? key = some item) : view.owns key.id ↔ item.hive = view.hive := by
  obtain ⟨rfl, tells⟩ := oversees.items key item h
  exact tells.id

theorem owns_content_iff (oversees : view.Oversees store) {key : EngagementKey}
    {record : EngagementRecord} (h : store.record? key = some record) :
    view.owns key.content ↔ record.hive = view.hive := by
  obtain ⟨rfl, tells⟩ := oversees.records key record h
  exact tells

theorem ownsItem_of_scope (oversees : view.Oversees store) {key : ContentKey} {item : ContentItem}
    (h : store.item? key = some item) (owned : view.owns key.scope.asContent) :
    view.OwnsItem item := by
  obtain ⟨rfl, tells⟩ := oversees.items key item h
  exact tells.owns (tells.scope.1 owned)

/-- A change that concerns the hive only leaves the items of all other hives as they are. -/
theorem spares_items {request : Request} (before : view.Oversees store)
    (after : view.Oversees later) (change : store.Change request later)
    (admitted : view.Admits (.store request)) {key : ContentKey} {item : ContentItem}
    (other : item.hive ≠ view.hive) :
    store.item? key = some item ↔ later.item? key = some item := by
  have untouched : store.item? key = some item ∨ later.item? key = some item →
      later.item? key = store.item? key := by
    intro found
    refine change.item?_eq fun hkey => ?_
    obtain owned | ⟨new, rfl, hnew⟩ := admitted.ownsItem hkey
    · exact found.elim (fun h => other ((before.owns_id_iff h).1 owned))
        fun h => other ((after.owns_id_iff h).1 owned)
    · have hkey : new.key = key := Option.some.inj hkey
      cases change with
      | read hread => cases hread
      | edit edits => cases edits
      | put vacant =>
        rw [hkey] at vacant
        rw [StoreState.item?_putItem, if_pos hkey.symm, vacant] at found
        obtain h | h := found
        · cases h
        · exact other (Option.some.inj h ▸ hnew)
  exact ⟨fun h => (untouched (.inl h)).trans h, fun h => (untouched (.inr h)).symm.trans h⟩

/-- A change that concerns the hive only leaves the records of all other hives as they are. -/
theorem spares_records {request : Request} (before : view.Oversees store)
    (after : view.Oversees later) (change : store.Change request later)
    (admitted : view.Admits (.store request)) {key : EngagementKey} {record : EngagementRecord}
    (other : record.hive ≠ view.hive) :
    store.record? key = some record ↔ later.record? key = some record := by
  have untouched : store.record? key = some record ∨ later.record? key = some record →
      later.record? key = store.record? key := by
    intro found
    have foreign : ¬view.owns key.content := fun owned =>
      found.elim (fun h => other ((before.owns_content_iff h).1 owned))
        fun h => other ((after.owns_content_iff h).1 owned)
    refine change.record?_eq (fun asked hasked hkey => ?_) fun keys hkeys hmem => ?_
    · exact foreign (hkey ▸ (admitted.ownsRecord hasked).content)
    · subst hkeys
      exact foreign (admitted key hmem)
  exact ⟨fun h => (untouched (.inl h)).trans h, fun h => (untouched (.inr h)).symm.trans h⟩

variable {site : Site} {conditions : Conditions} {effect : Effect} {forum after : Forum}
  {reply : effect.Reply}

/-- An admitted effect leaves all other hives as they are. -/
theorem spares (before : view.Oversees forum.store) (later : view.Oversees after.store)
    (answer : site.Answer conditions effect forum reply after) (admitted : view.Admits effect) :
    forum.store.AgreesWhere (· ≠ view.hive) after.store := by
  obtain rfl | ⟨request, store, rfl, change, rfl⟩ := answer.change
  · exact .refl
  · rw [Forum.after_store] at later ⊢
    exact ⟨fun _ _ other => before.spares_items later change admitted other,
      fun _ _ other => before.spares_records later change admitted other⟩

/-- A store remains overseen if of what is newly stored can be told whether it is of the hive. -/
theorem maintained (oversees : view.Oversees forum.store)
    (answer : site.Answer conditions effect forum reply after)
    (items : ∀ item, effect = .store (.putContent item) → item ∈ after.created →
      view.TellsItem item)
    (records : ∀ request record, effect = .store request → request.record? = some record →
      view.TellsRecord record) : view.Oversees after.store where
  items key item hitem := by
    obtain ⟨before, hbefore, same⟩ | ⟨hput, rfl, -, hcreated⟩ := answer.item?_origin hitem
    · obtain ⟨hkey, tells⟩ := oversees.items key before hbefore
      exact ⟨(ContentItem.field_eq same ContentItem.key fun _ => rfl).trans hkey,
        tells.of_asCreated same⟩
    · exact ⟨rfl, items item hput hcreated⟩
  records key record hrecord := by
    obtain rfl | ⟨request, store, rfl, change, rfl⟩ := answer.change
    · exact oversees.records key record hrecord
    · rw [Forum.after_store] at hrecord
      obtain hbefore | ⟨asked, hasked, rfl, rfl⟩ := change.record?_origin hrecord
      · exact oversees.records key record hbefore
      · exact ⟨rfl, records request asked rfl hasked⟩

/-- The replies of a store that is overseen are in accordance with the view. -/
theorem vouches (oversees : view.Oversees forum.store)
    (known : (site.directory.hives.get? view.hive).isSome → view.owns view.hive.asContent)
    (answer : site.Answer conditions effect forum reply after) (admitted : view.Admits effect) :
    view.Vouches effect reply := by
  cases effect with
  | membership caller hive =>
    rintro role rfl
    obtain rfl : hive = view.hive := admitted
    exact known answer.hive_of_role
  | newContentId => exact admitted.elim
  | store request =>
    cases request with
    | getContent key =>
      rintro item rfl
      exact oversees.items key item answer.getContent.1
    | queryContent query =>
      rintro page rfl item hitem
      obtain ⟨id, hstored⟩ := StoreState.mem_scopeItems_iff.1
        (StoreState.mem_scope_of_queryContent answer.queryContent.1 hitem).1
      exact oversees.ownsItem_of_scope hstored admitted
    | getEngagement user content =>
      rintro record rfl
      obtain ⟨hkey, tells⟩ := oversees.records _ record answer.getEngagement.1
      exact ⟨congrArg EngagementKey.content hkey, tells⟩
    | queryEngagement query =>
      rintro page rfl record hrecord
      obtain ⟨-, hrecords, -⟩ := StoreState.queryEngagement_eq_ok answer.queryEngagement.1
      rw [hrecords] at hrecord
      obtain ⟨-, hcontent, -⟩ := (StoreState.mem_recordsAfter_iff oversees.keyed).1
        (List.mem_of_mem_take hrecord)
      exact hcontent ▸ admitted
    | deleteEngagements keys =>
      rintro left rfl
      cases answer with
      | carriedOut h =>
        simp only [StoreState.perform] at h
        split at h
        · cases h
        · cases h
          exact List.drop_subset _ _
      | skipped _ _ split => exact fun key hkey => split.mem_iff.2 (List.mem_append_right _ hkey)
    | _ => trivial
  | _ => trivial

end Oversees

end View

namespace Forum

/-- The hive that an identifier belongs to: that of the item that it was given out for, or the hive
that it is the identifier of. -/
def home? (forum : Forum) (site : Site) (id : ContentId) : Option ScopeId :=
  match forum.created.find? (·.id = id) with
  | some item => some item.hive
  | none => if (site.directory.hives.get? id.asScope).isSome then some id.asScope else none

/-- The view of a hive that goes by what each identifier was given out for. -/
def view (forum : Forum) (site : Site) (hive : ScopeId) : View where
  hive := hive
  owns id := forum.home? site id = some hive
  draws _ := True

variable {forum : Forum} {site : Site}

theorem home?_id (distinct : forum.DistinctIds site) {item : ContentItem}
    (h : item ∈ forum.created) : forum.home? site item.id = some item.hive := by
  rw [home?]
  cases hfind : forum.created.find? (·.id = item.id) with
  | none =>
    have hother := List.find?_eq_none.1 hfind item h
    simp at hother
  | some other =>
    have hid : other.id = item.id := by simpa using List.find?_some hfind
    have hother := List.mem_of_find?_eq_some hfind
    rw [List.inj_on_of_nodup_map distinct.nodup hother h hid]

/-- The identifier of a hive belongs to the hive. -/
theorem home?_hive (distinct : forum.DistinctIds site) {hive : ScopeId}
    (known : (site.directory.hives.get? hive).isSome) :
    forum.home? site hive.asContent = some hive := by
  have hfind : forum.created.find? (·.id = hive.asContent) = none := by
    refine List.find?_eq_none.2 fun item hitem hid => ?_
    have hid : item.id = hive.asContent := by simpa using hid
    have hnone := distinct.notHive item hitem
    rw [hid] at hnone
    have hnone : site.directory.hives.get? hive = none := hnone
    rw [hnone] at known
    cases known
  have hknown : (site.directory.hives.get? hive.asContent.asScope).isSome := known
  rw [home?, hfind]
  exact if_pos hknown

end Forum

end HiveForum
