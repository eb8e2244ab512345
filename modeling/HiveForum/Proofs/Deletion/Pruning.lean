import HiveForum.Proofs.Deletion.Tree

/-!
# Pruning a tree

While a tree is being deleted its parts disappear one after another, in no fixed order but for one
rule: an item goes only when nothing is left below it. What does not belong to the tree stays as it
is.

## Main definitions

* `Forum.Prunes`: parts of a tree disappear.
* `Forum.pruning`: the contract of the units of a deletion.

## Main results

* `Forum.Prunes.trans`: pruning goes on.
* `Forum.Prunes.withoutTree_eq`: the store without the tree is the same after some pruning.
* `Forum.Prunes.removeItem_eq`: it is what remains when the item goes last.
-/

namespace HiveForum

namespace Forum

/-- Parts of the tree of an item disappear, but not the item itself: comments when nothing is left
below them, and records on the items that the tree had at the start. -/
structure Prunes (start : Forum) (root : ContentItem) (forum later : Forum) : Prop where
  created : later.created = forum.created
  compact : forum.store.Compact → later.store.Compact
  items : ∀ key, later.store.item? key = forum.store.item? key ∨
    root.Covers key ∧ later.store.item? key = none ∧ later.store.Bare key.id
  records : ∀ key, later.store.record? key = forum.store.record? key ∨
    start.store.Owns root key.content ∧ later.store.record? key = none

variable {start forum later last : Forum} {root : ContentItem}

namespace Prunes

theorem refl (start : Forum) (root : ContentItem) (forum : Forum) : start.Prunes root forum forum :=
  ⟨rfl, id, fun _ => .inl rfl, fun _ => .inl rfl⟩

theorem item?_eq (h : start.Prunes root forum later) {key : ContentKey} {item : ContentItem}
    (hitem : later.store.item? key = some item) : forum.store.item? key = some item := by
  rcases h.items key with hsame | ⟨-, hnone, -⟩
  · rw [← hsame, hitem]
  · rw [hnone] at hitem
    cases hitem

theorem record?_eq (h : start.Prunes root forum later) {key : EngagementKey}
    {record : EngagementRecord} (hrecord : later.store.record? key = some record) :
    forum.store.record? key = some record := by
  rcases h.records key with hsame | ⟨-, hnone⟩
  · rw [← hsame, hrecord]
  · rw [hnone] at hrecord
    cases hrecord

theorem item?_eq_none (h : start.Prunes root forum later) {key : ContentKey}
    (hnone : forum.store.item? key = none) : later.store.item? key = none := by
  rcases h.items key with hsame | ⟨-, hlater, -⟩
  · rw [hsame, hnone]
  · exact hlater

theorem record?_eq_none (h : start.Prunes root forum later) {key : EngagementKey}
    (hnone : forum.store.record? key = none) : later.store.record? key = none := by
  rcases h.records key with hsame | ⟨-, hlater⟩
  · rw [hsame, hnone]
  · exact hlater

theorem bare (h : start.Prunes root forum later) {id : ContentId} (hbare : forum.store.Bare id) :
    later.store.Bare id :=
  ⟨fun key hkey => h.item?_eq_none (hbare.items key hkey),
    fun key hkey => h.record?_eq_none (hbare.records key hkey)⟩

theorem keyed (h : start.Prunes root forum later) (hkeyed : forum.store.Keyed) :
    later.store.Keyed :=
  ⟨fun key item hitem => hkeyed.items key item (h.item?_eq hitem),
    fun key record hrecord => hkeyed.records key record (h.record?_eq hrecord)⟩

theorem tiered (h : start.Prunes root forum later) (htiered : forum.store.Tiered) :
    later.store.Tiered where
  keyed := h.keyed htiered.keyed
  compact := h.compact htiered.compact
  nonneg key item hitem := htiered.nonneg key item (h.item?_eq hitem)
  below key item key' other hitem hother :=
    htiered.below key item key' other (h.item?_eq hitem) (h.item?_eq hother)

theorem stored (h : start.Prunes root forum later) (htiered : forum.store.Tiered)
    (hstored : forum.store.item? root.key = some root) :
    later.store.item? root.key = some root := by
  rcases h.items root.key with hsame | ⟨hcovers, -, -⟩
  · rw [hsame, hstored]
  · exact absurd hcovers (htiered.not_covers hstored)

/-- Pruning goes on. -/
theorem trans (h : start.Prunes root forum later) (h' : start.Prunes root later last) :
    start.Prunes root forum last := by
  refine ⟨h'.created.trans h.created, fun hcompact => h'.compact (h.compact hcompact),
    fun key => ?_, fun key => ?_⟩
  · rcases h'.items key with hsame' | hgone
    · rcases h.items key with hsame | ⟨hcovers, hnone, hbare⟩
      · exact .inl (hsame'.trans hsame)
      · exact .inr ⟨hcovers, hsame'.trans hnone, h'.bare hbare⟩
    · exact .inr hgone
  · rcases h'.records key with hsame' | hgone
    · rcases h.records key with hsame | ⟨howns, hnone⟩
      · exact .inl (hsame'.trans hsame)
      · exact .inr ⟨howns, hsame'.trans hnone⟩
    · exact .inr hgone

/-- The store without the tree is the same after some pruning. -/
theorem withoutTree_eq (h : start.Prunes root start later) (hcompact : start.store.Compact) :
    later.store.withoutTree root = start.store.withoutTree root := by
  refine StoreState.ext_of_lookups (StoreState.compact_withoutTree (h.compact hcompact) root)
    (StoreState.compact_withoutTree hcompact root) (fun key => ?_) (fun key => ?_)
  · simp only [StoreState.item?_withoutTree]
    split
    · rfl
    · rename_i hother
      exact (h.items key).resolve_right fun hgone => hother (.inr hgone.1)
  · simp only [StoreState.record?_withoutTree]
    by_cases howns : start.store.Owns root key.content
    · rw [if_pos howns]
      split
      · rfl
      · rename_i hnot
        -- a comment that the tree no longer has went when there were no records on it
        obtain hroot | ⟨hkind, hstored⟩ := howns
        · exact absurd (.inl hroot) hnot
        · rcases h.items ⟨root.id.asScope, key.content⟩ with hsame | ⟨-, -, hbare⟩
          · exact absurd (.inr ⟨hkind, hsame ▸ hstored⟩) hnot
          · exact hbare.records key rfl
    · have hnot : ¬later.store.Owns root key.content := by
        rintro (hroot | ⟨hkind, hstored⟩)
        · exact howns (.inl hroot)
        · obtain ⟨child, hchild⟩ := Option.isSome_iff_exists.1 hstored
          exact howns (.inr ⟨hkind, Option.isSome_iff_exists.2 ⟨child, h.item?_eq hchild⟩⟩)
      rw [if_neg howns, if_neg hnot]
      exact (h.records key).resolve_right fun hgone => howns hgone.1

/-- When the item goes last, the store without the tree is what remains. -/
theorem removeItem_eq (h : start.Prunes root start later) (hcompact : start.store.Compact)
    (hbare : later.store.Bare root.id) :
    later.store.removeItem root.key = start.store.withoutTree root := by
  rw [← h.withoutTree_eq hcompact]
  refine StoreState.ext_of_lookups ((h.compact hcompact).removeItem root.key)
    (StoreState.compact_withoutTree (h.compact hcompact) root) (fun key => ?_) (fun key => ?_)
  · rw [StoreState.item?_removeItem, StoreState.item?_withoutTree]
    by_cases hcovers : root.Covers key
    · rw [hbare.items key hcovers.2, ite_self, ite_self]
    · simp [hcovers]
  · rw [StoreState.record?_removeItem, StoreState.record?_withoutTree]
    split
    · rename_i howns
      obtain hroot | ⟨-, hstored⟩ := howns
      · exact hbare.records key hroot
      · rw [hbare.items _ rfl] at hstored
        cases hstored
    · rfl

end Prunes

/-- The units of a deletion prune the tree; one that fails tells of trouble, and one that does not
come to an end of a store that is too large for its bound. -/
def pruning (start : Forum) (root : ContentItem) (trouble short : Prop) : Contract Forum where
  rely := start.Prunes root
  guarantee := start.Prunes root
  failing _ _ := trouble
  endless := short
  rely_refl := .refl start root
  rely_trans := .trans

/-! ### What the units do -/

theorem prunes_removeRecords {keys : List EngagementKey}
    (owned : ∀ key ∈ keys, start.store.Owns root key.content) :
    start.Prunes root forum ⟨forum.store.removeRecords keys, forum.created⟩ := by
  refine ⟨rfl, id, fun _ => .inl rfl, fun key => ?_⟩
  rw [StoreState.record?_removeRecords]
  split
  · rename_i hkey
    exact .inr ⟨owned key hkey, rfl⟩
  · exact .inl rfl

theorem prunes_removeItem {key : ContentKey} (covers : root.Covers key)
    (bare : forum.store.Bare key.id) :
    start.Prunes root forum ⟨forum.store.removeItem key, forum.created⟩ := by
  refine ⟨rfl, fun hcompact => hcompact.removeItem key, fun key' => ?_,
    fun key' => .inl (forum.store.record?_removeItem key key')⟩
  rw [StoreState.item?_removeItem]
  split
  · rename_i heq
    exact .inr ⟨heq ▸ covers, rfl, heq ▸ bare.removeItem key⟩
  · exact .inl rfl

end Forum

end HiveForum
