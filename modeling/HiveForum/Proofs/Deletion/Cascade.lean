import HiveForum.Proofs.Deletion.Enumeration

/-!
# The cascade

An item is deleted after everything below it: a group of units takes care of its comments and
records, and only when the group has ended well the item itself is removed. A comment and its post
are deleted in the same way; the post runs alone, while the comments are units of its group.

## Main definitions

* `Site.mayDelete`: whether a caller may delete an item.
* `Forum.Trims`: what a deletion does to the forum, step by step.
* `Forum.deletion`: the contract of a deletion.

## Main results

* `Forum.meets_units`: once the units of a cascade have ended nothing is left below its item.
* `Forum.meets_cascade`: nothing is left below an item when it is removed.
* `Forum.meets_deleteContent`: a deletion meets its contract, and ends with the tree removed.
-/

namespace HiveForum

open Program

/-- Whether a caller may delete an item: its author and the moderators of its hive may. -/
def Site.mayDelete (site : Site) (caller : Caller) (item : ContentItem) :
    Except OperationError Unit :=
  match site.directory.checkMember caller item.hive with
  | .error error => .error (.ofAccess error)
  | .ok role =>
    if item.author ≠ caller.user ∧ ¬role.permits .moderator then .error (.unauthorized .notAuthor)
    else .ok ()

namespace StoreState

/-- The number of items and records. -/
def size (store : StoreState) : Nat := store.items.length + store.records.length

/-- Nothing is below an item if no comment and no record is listed. -/
theorem bare_of_nil {store : StoreState} {id : ContentId} (keyed : store.Keyed)
    (children : store.childrenAfter id.asScope none = [])
    (records : store.recordsAfter id none = []) : store.Bare id := by
  refine ⟨fun key hkey => ?_, fun key hkey => ?_⟩
  · cases hitem : store.item? key with
    | none => rfl
    | some item =>
      obtain rfl := keyed.items key item hitem
      have hmem : item ∈ store.childrenAfter id.asScope none :=
        (mem_childrenAfter_iff keyed).2 ⟨hitem, hkey, rfl⟩
      rw [children] at hmem
      cases hmem
  · cases hrecord : store.record? key with
    | none => rfl
    | some record =>
      obtain rfl := keyed.records key record hrecord
      have hmem : record ∈ store.recordsAfter id none :=
        (mem_recordsAfter_iff keyed).2 ⟨hrecord, hkey, fun _ h => by cases h⟩
      rw [records] at hmem
      cases hmem

theorem Tiered.childrenAfter_eq_nil {store : StoreState} (h : store.Tiered) {key : ContentKey}
    {comment : ContentItem} (stored : store.item? key = some comment)
    (kind : comment.kind = .comment) (startAfter : Option IndexKey) :
    store.childrenAfter comment.id.asScope startAfter = [] := by
  refine List.eq_nil_iff_forall_not_mem.2 fun item hitem => ?_
  obtain ⟨hitem, hscope, -⟩ := (mem_childrenAfter_iff h.keyed).1 hitem
  have hnone : store.item? item.key = none := h.item?_eq_none stored kind hscope
  rw [hnone] at hitem
  cases hitem

theorem length_scopeItems_le (store : StoreState) (scope : ScopeId) :
    (store.scopeItems scope).length ≤ store.items.length := by
  rw [scopeItems]
  cases hscope : store.content.get? scope with
  | none => exact Nat.zero_le _
  | some items =>
    have hmem : items ∈ store.content.values :=
      List.mem_map.2 ⟨_, Table.get?_eq_some_iff.1 hscope, rfl⟩
    have hsub : items.values.Sublist store.items :=
      List.sublist_flatten_of_mem (List.mem_map_of_mem hmem)
    exact hsub.length_le

theorem length_childrenAfter_le_size (store : StoreState) (scope : ScopeId)
    (startAfter : Option IndexKey) :
    (store.childrenAfter scope startAfter).length ≤ store.items.length :=
  Nat.le_trans (List.length_filter_le _ _) (store.length_scopeItems_le scope)

theorem length_recordsAfter_le_size (store : StoreState) (content : ContentId)
    (startAfter : Option UserId) :
    (store.recordsAfter content startAfter).length ≤ store.records.length := by
  rw [recordsAfter_eq_values]
  unfold records Table.values
  rw [List.length_map, List.length_map]
  exact List.length_filter_le _ _

end StoreState

namespace Forum

/-- One step of a deletion: parts of the tree disappear, or the item itself when nothing is left
below it, or an item that is stored is edited. -/
inductive Trims (start : Forum) (root : ContentItem) : Forum → Forum → Prop where
  | prunes {forum later : Forum} (h : start.Prunes root forum later) : Trims start root forum later
  | removes {forum : Forum} (bare : forum.store.Bare root.id) :
      Trims start root forum ⟨forum.store.removeItem root.key, forum.created⟩
  | edits {forum : Forum} {key : ContentKey} {item : ContentItem}
      (found : forum.store.item? key = some item) (item' : ContentItem) :
      Trims start root forum ⟨forum.store.putItem key item', forum.created⟩

/-- A deletion runs alone. When it fails the item is still stored, and there is trouble or the
caller may not delete the item; in that case the forum is as it was. -/
def deletion (start : Forum) (root : ContentItem) (permitted : Except OperationError Unit)
    (trouble short : Prop) : Contract Forum where
  rely forum later := later = forum
  guarantee := start.Trims root
  failing error later := start.Prunes root start later ∧ (permitted ≠ .ok () → later = start) ∧
    (trouble ∨ permitted = .error error)
  endless := short
  rely_refl _ := rfl
  rely_trans h h' := h'.trans h

/-- The forum after a deletion. The tree is gone, and the post above a deleted comment counts one
comment less; only if that last call is refused the count stays as it was. -/
def Deleted (start : Forum) (conditions : Conditions) (root : ContentItem) (later : Forum) : Prop :=
  later = ⟨(start.store.withoutTree root).uncounted root, start.created⟩ ∨
    (∃ error, conditions.refuses error) ∧ later = ⟨start.store.withoutTree root, start.created⟩

theorem deletion_opens {start : Forum} {root : ContentItem} {permitted : Except OperationError Unit}
    {trouble short : Prop} : (start.deletion root permitted trouble short).Opens
      (start.pruning root trouble short) where
  rely h := h ▸ .refl start root _
  fellow := id
  whole := .prunes
  endless := id

section

variable {site : Site} {conditions : Conditions} {whole short : Prop} {start forum : Forum}
  {root : ContentItem} (honest : conditions.Honest) (tiered : start.store.Tiered)

include honest tiered

/-- Once the units of a cascade have ended nothing is left below its item: the units for its
comments take care of these, if it is a post, and the units for its records of the records. -/
theorem meets_units {settings : Settings} {pages depth : Nat} {key : ContentKey}
    {kind : ContentKind} (started : start.Prunes root start forum)
    (owns : start.store.Owns root key.id) (enough : short ∨ start.store.size < pages)
    (children : kind = .post → Deletes site conditions whole short start root (some fun _ => True)
      (spawnChildren settings pages key.id.asScope
        (fun child => do let _ ← cascade settings pages depth child.key child.kind) pages none)
      (fun _ later => later.store.childrenAfter key.id.asScope none = []) forum)
    (childless : kind ≠ .post → start.store.childrenAfter key.id.asScope none = []) :
    Deletes site conditions whole short start root (some fun _ => True)
      (do
        if kind = .post then
          spawnChildren settings pages key.id.asScope
            (fun child => do let _ ← cascade settings pages depth child.key child.kind) pages none
        spawnRecords settings key.id pages none)
      (fun _ later => later.store.Bare key.id) forum := by
  have hsize : short ∨ (start.store.recordsAfter key.id none).length < pages := by
    refine enough.imp_right fun hsize => ?_
    have hle := start.store.length_recordsAfter_le_size key.id none
    rw [StoreState.size] at hsize
    omega
  have hrecords : ∀ {middle : Forum} {pledged : Forum → Prop}, start.Prunes root forum middle →
      (∀ later, start.Prunes root middle later → pledged later →
        later.store.childrenAfter key.id.asScope none = []) →
      Deletes site conditions whole short start root (some pledged)
        (spawnRecords settings key.id pages none) (fun _ later => later.store.Bare key.id)
        middle := by
    intro middle pledged hmiddle hchildren
    have hspawn : Deletes site conditions whole short start root (some pledged)
        (spawnRecords settings key.id pages none)
        (fun _ later => (later.store.Keyed ∧ later.store.childrenAfter key.id.asScope none = []) ∧
          later.store.recordsAfter key.id none = []) middle :=
      meets_spawnRecords honest tiered (started.trans hmiddle) owns pages
        (fun later hlater hpledged => ⟨(started.trans (hmiddle.trans hlater)).keyed tiered.keyed,
          hchildren later hlater hpledged⟩)
        (fun _ _ _ => List.Subset.refl _) hsize
    refine hspawn.weaken ?_
    rintro _ later ⟨⟨hkeyed, hnone⟩, hnone'⟩
    exact StoreState.bare_of_nil hkeyed hnone hnone'
  dsimp only
  split
  · rename_i hkind
    refine Meets.bind (children hkind) fun _ made middle moves hmade _ hclaim => ?_
    obtain ⟨pledged, rfl⟩ := Option.isSome_iff_exists.1 hmade
    exact hrecords (prunes_of_moves moves) hclaim
  · rename_i hkind
    refine hrecords (.refl start root forum) fun later hlater _ => ?_
    have hsub := (started.trans hlater).childrenAfter_subset key.id.asScope none
    rw [childless hkind] at hsub
    exact List.subset_nil.1 hsub

/-- Nothing is left below an item when a cascade removes it. The removal itself is up to the
contract that the cascade runs under. -/
theorem meets_cascade {contract : Contract Forum} {settings : Settings} {pages depth : Nat}
    {key : ContentKey} {kind : ContentKind} {claim : Bool → Forum → Prop}
    (opens : contract.Opens (start.pruning root (conditions.Troubled whole) short))
    (started : start.Prunes root start forum) (owns : start.store.Owns root key.id)
    (enough : short ∨ start.store.size < pages)
    (children : kind = .post → Deletes site conditions whole short start root (some fun _ => True)
      (spawnChildren settings pages key.id.asScope
        (fun child => do let _ ← cascade settings pages depth child.key child.kind) pages none)
      (fun _ later => later.store.childrenAfter key.id.asScope none = []) forum)
    (childless : kind ≠ .post → start.store.childrenAfter key.id.asScope none = [])
    (removes : ∀ later, start.Prunes root forum later → later.store.Bare key.id →
      contract.guarantee later ⟨later.store.removeItem key, later.created⟩ ∧
        ∀ last, contract.rely ⟨later.store.removeItem key, later.created⟩ last → claim true last)
    (gone : ∀ later, start.Prunes root forum later → later.store.item? key = none →
      claim false later)
    (fails : ∀ error later, start.Prunes root forum later → conditions.Troubled whole →
      contract.failing error later) :
    (cascade settings pages (depth + 1) key kind).Meets (site.serving conditions whole) contract
      none claim forum := by
  rw [cascade]
  refine ⟨_, fun later => later.store.Bare key.id, opens, ?_, fun gathered later hlater hg => ?_⟩
  · exact meets_units honest tiered started owns enough children childless
  · simp only [done_bind]
    have hfails : ∀ error, conditions.Troubled whole →
        (Program.fail error : Program Bool).Meets (site.serving conditions whole) contract none
          claim later :=
      fun error trouble last hlast => fails error last (hlater.trans (opens.rely hlast)) trouble
    cases hspawner : gathered.spawner with
    | error error => exact hfails error (hg.spawner error hspawner)
    | ok _ =>
      cases hunits : gathered.units with
      | error error => exact hfails error (hg.units error hunits)
      | ok _ =>
        have hbare := hg.goal hspawner hunits
        intro second reply after hsecond answer
        have hprunes : start.Prunes root forum second := hlater.trans (opens.rely hsecond)
        have hbare := Prunes.bare (opens.rely hsecond) hbare
        rcases answer.1.of_deleteContent honest with ⟨rfl, rfl⟩ |
          ⟨error, rfl, rfl, ⟨hmissing, hnone⟩ | ⟨hfound, hrefused⟩⟩
        · obtain ⟨hguarantee, hclaim⟩ := removes second hprunes hbare
          exact ⟨hguarantee, fun last hlast _ => hclaim last hlast⟩
        · refine ⟨opens.guarantee (.refl start root after), ?_⟩
          simp only [done_bind, hmissing, if_true]
          intro last hlast _
          have hlast : start.Prunes root after last := opens.rely hlast
          exact gone last (hprunes.trans hlast) (hlast.item?_eq_none hnone)
        · refine ⟨opens.guarantee (.refl start root after), ?_⟩
          simp only [done_bind, hfound, Bool.false_eq_true, if_false]
          intro last hlast
          exact fails _ last (hprunes.trans (opens.rely hlast)) (.inl ⟨_, hrefused⟩)

variable (stored : start.store.item? root.key = some root)

include stored

/-- A comment of the tree goes with everything below it. -/
theorem meets_cascade_comment {settings : Settings} {pages depth : Nat} {child : ContentItem}
    (started : start.Prunes root start forum) (enough : short ∨ start.store.size < pages)
    (deep : short ∨ 0 < depth) (covers : root.Covers child.key)
    (childStored : start.store.item? child.key = some child) :
    Deletes site conditions whole short start root none
      (cascade settings pages depth child.key child.kind)
      (fun _ later => later.store.item? child.key = none) forum := by
  obtain ⟨hpost, hscope⟩ := covers
  have hcomment := (tiered.below _ root _ child stored childStored hscope).2
  have hkey : (⟨root.id.asScope, child.id⟩ : ContentKey) = child.key := by rw [← hscope]; rfl
  cases depth with
  | zero => exact deep.resolve_right (Nat.lt_irrefl 0)
  | succ depth =>
    refine meets_cascade honest tiered ⟨id, id, id, id⟩ started (.inr ⟨hpost, ?_⟩) enough
      ?_ ?_ ?_ ?_ ?_
    · change (start.store.item? ⟨root.id.asScope, child.id⟩).isSome = true
      rw [hkey, childStored]
      rfl
    · intro hkind
      rw [hcomment] at hkind
      cases hkind
    · exact fun _ => tiered.childrenAfter_eq_nil childStored hcomment none
    · intro later hlater hbare
      refine ⟨prunes_removeItem ⟨hpost, hscope⟩ hbare, fun last hlast => ?_⟩
      refine Prunes.item?_eq_none hlast ?_
      rw [StoreState.item?_removeItem, if_pos rfl]
    · exact fun later _ hnone => hnone
    · exact fun _ _ _ trouble => trouble

/-- The item goes when nothing is left below it, and nothing of the tree is left then. -/
theorem meets_cascade_root {settings : Settings} {horizon : Nat}
    {permitted : Except OperationError Unit} (may : permitted = .ok ())
    (enough : short ∨ start.store.size + 2 ≤ horizon) :
    (cascade settings horizon horizon root.key root.kind).Meets (site.serving conditions whole)
      (start.deletion root permitted (conditions.Troubled whole) short) none
      (fun deleted later => deleted = true ∧
        later = ⟨start.store.withoutTree root, start.created⟩) start := by
  cases horizon with
  | zero => exact enough.resolve_right (by omega)
  | succ depth =>
    have hpages : short ∨ start.store.size < depth + 1 := enough.imp_right fun h => by omega
    have hlength : short ∨
        (start.store.childrenAfter root.key.id.asScope none).length < depth + 1 := by
      refine hpages.imp_right fun h => ?_
      have hle := start.store.length_childrenAfter_le_size root.key.id.asScope none
      rw [StoreState.size] at h
      omega
    refine meets_cascade honest tiered deletion_opens (.refl start root start) (.inl rfl) hpages
      ?_ ?_ ?_ ?_ ?_
    · intro hpost
      refine meets_spawnChildren honest tiered (.refl start root start) ?_ hlength _
        (fun _ _ _ => List.Subset.refl _) hlength
      intro later hlater child hchild
      obtain ⟨hstored, hscope, -⟩ := (StoreState.mem_childrenAfter_iff tiered.keyed).1 hchild
      exact Meets.andThen (meets_cascade_comment honest tiered stored hlater hpages
        (enough.imp_right fun h => by omega) ⟨hpost, hscope⟩ hstored)
        fun _ middle _ hgone last hlast _ => hgone last hlast
    · intro hkind
      have hcomment : root.kind = .comment := by
        cases h : root.kind with
        | post => exact absurd h hkind
        | comment => rfl
      exact tiered.childrenAfter_eq_nil stored hcomment none
    · intro later hlater hbare
      refine ⟨.removes hbare, ?_⟩
      rintro last rfl
      rw [hlater.removeItem_eq tiered.compact hbare, hlater.created]
      exact ⟨rfl, rfl⟩
    · intro later hlater hnone
      rw [hlater.stored tiered stored] at hnone
      cases hnone
    · exact fun error later hlater trouble => ⟨hlater, fun hnot => absurd may hnot, .inl trouble⟩

omit tiered in
/-- The item is loaded, or there is trouble. -/
theorem meets_loadTarget {permitted : Except OperationError Unit} {target : Target}
    (located : target.content = root.key) (owned : root.hive = target.hive) :
    (loadTarget target).Meets (site.serving conditions whole)
      ((start.deletion root permitted (conditions.Troubled whole) short).withFailing
        fun error later => (error = .notFound → False) ∧ (error ≠ .notFound →
          (start.deletion root permitted (conditions.Troubled whole) short).failing error later))
      none (fun item later => item = root ∧ later = start) start := by
  rintro _ reply after rfl answer
  cases reply with
  | ok item =>
    obtain ⟨hitem, rfl⟩ := answer.1.getContent
    rw [located, stored] at hitem
    obtain rfl := Option.some.inj hitem
    refine ⟨.prunes (.refl ..), ?_⟩
    simp only [Program.ofExcept, done_bind, owned, if_true]
    rintro last rfl _
    exact ⟨rfl, rfl⟩
  | error error =>
    obtain ⟨rfl, hfailed | ⟨hfound, hrefused⟩⟩ := answer.1.of_error honest
    · simp [StoreState.perform, located, stored] at hfailed
    · refine ⟨.prunes (.refl ..), ?_⟩
      rintro last rfl
      refine ⟨StoreError.ofStore_ne_notFound hfound, fun _ => ⟨.refl .., fun _ => rfl, ?_⟩⟩
      exact .inl (.inl ⟨error, hrefused⟩)

omit stored in
/-- The last call of the deletion of a comment. -/
theorem meets_uncount {permitted : Except OperationError Unit} (kind : root.kind = .comment) :
    (tryCall (.adjustCounts root.parentKey (.ofComments (-1)))).Meets
      (site.serving conditions whole)
      (start.deletion root permitted (conditions.Troubled whole) short) none
      (fun _ later => start.Deleted conditions root later)
      ⟨start.store.withoutTree root, start.created⟩ := by
  rintro _ reply after rfl answer
  rcases answer.1.of_adjustCounts honest with ⟨post, hpost, rfl⟩ | ⟨rfl, hnone | hrefused⟩
  · refine ⟨.edits hpost _, ?_⟩
    rintro last rfl _
    have hstored : start.store.item? root.parentKey = some post := by
      rw [StoreState.item?_withoutTree] at hpost
      split at hpost
      · cases hpost
      · exact hpost
    exact .inl (by rw [StoreState.uncounted_of_comment (tiered.nonneg _ post hstored) kind hpost])
  · refine ⟨.prunes (.refl ..), ?_⟩
    rintro last rfl _
    exact .inl (by rw [StoreState.uncounted_eq_self fun _ => hnone])
  · refine ⟨.prunes (.refl ..), ?_⟩
    rintro last rfl _
    exact .inr ⟨hrefused, rfl⟩

/-- A deletion meets its contract: it ends well only if the caller may delete the item, and then
exactly the tree is gone. -/
theorem meets_deleteContent {settings : Settings} {horizon : Nat} {caller : Caller}
    {target : Target} (located : target.content = root.key) (owned : root.hive = target.hive)
    (enough : short ∨ start.store.size + 2 ≤ horizon) :
    (deleteContent settings horizon caller target).Meets (site.serving conditions whole)
      (start.deletion root (site.mayDelete caller root) (conditions.Troubled whole) short) none
      (fun _ later => site.mayDelete caller root = .ok () ∧ start.Deleted conditions root later)
      start := by
  rw [deleteContent]
  rintro _ reply after rfl answer
  obtain ⟨rfl, rfl⟩ := answer.1.of_membership honest
  refine ⟨.prunes (.refl ..), ?_⟩
  cases hrole : site.directory.checkMember caller target.hive with
  | error error =>
    have hmay : site.mayDelete caller root = .error (.ofAccess error) := by
      rw [Site.mayDelete, owned, hrole]
    rintro last rfl
    exact ⟨.refl .., fun _ => rfl, .inr hmay⟩
  | ok role =>
    have hmay : site.mayDelete caller root =
        if root.author ≠ caller.user ∧ ¬role.permits .moderator then
          .error (.unauthorized .notAuthor) else .ok () := by
      rw [Site.mayDelete, owned, hrole]
    refine Meets.unlessNotFound (meets_loadTarget honest stored located owned)
      (fun item middle moves hload => ?_)
      (fun middle _ hmissing => ((hmissing middle rfl).1 rfl).elim) fun _ _ hfound h => h.2 hfound
    obtain ⟨rfl, rfl⟩ := hload middle rfl
    dsimp only
    split
    · rename_i hdenied
      rintro last rfl
      exact ⟨.refl .., fun _ => rfl, .inr (hmay.trans (if_pos hdenied))⟩
    · rename_i hallowed
      have hmay := hmay.trans (if_neg hallowed)
      refine Meets.andThen (meets_cascade_root honest tiered stored hmay enough)
        fun deleted last _ hdeleted => ?_
      obtain ⟨rfl, rfl⟩ := hdeleted last rfl
      split
      · rename_i hcomment
        exact Meets.andThen (meets_uncount honest tiered hcomment.2)
          fun _ middle _ hcounted later hlater _ => ⟨hmay, hcounted later hlater⟩
      · rename_i hpost
        rintro later rfl _
        refine ⟨hmay, .inl ?_⟩
        rw [StoreState.uncounted_eq_self fun hcomment => absurd ⟨rfl, hcomment⟩ hpost]

end

end Forum

end HiveForum
