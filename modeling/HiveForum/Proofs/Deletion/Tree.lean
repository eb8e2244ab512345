import HiveForum.Proofs.Forum.Operations
import HiveForum.Proofs.Store.Page

/-!
# The tree of an item

The tree of an item is the item with its comments and the records on all of them. Items are in two
tiers: in the scope of a post there are comments, and in the scope of a comment there is nothing.

## Main definitions

* `StoreState.Tiered`: the two tiers of items.
* `ContentItem.Covers`, `StoreState.Owns`: the comments of a tree, and the items of it.
* `StoreState.Bare`: nothing is left below an item.
* `StoreState.withoutTree`: a store without a tree.
* `StoreState.uncounted`: a store with one comment less at the post above an item.

## Main results

* `StoreState.item?_withoutTree`, `StoreState.record?_withoutTree`: the lookups without a tree.
* `Forum.Sound.tiered`, `Forum.Sound.parentKey_eq`: a sound forum is in two tiers.
-/

namespace HiveForum

open Std

/-- What is stored under the key is a comment on the item. -/
def ContentItem.Covers (root : ContentItem) (key : ContentKey) : Prop :=
  root.kind = .post ∧ key.scope = root.id.asScope

instance (root : ContentItem) (key : ContentKey) : Decidable (root.Covers key) :=
  inferInstanceAs (Decidable (_ ∧ _))

/-- Where the post above a comment is stored. -/
def ContentItem.parentKey (item : ContentItem) : ContentKey := ⟨item.hive, item.scope.asContent⟩

/-- Taking one comment off the counts of an item changes no other count. -/
theorem CountChange.applyTo_ofComments {item : ContentItem} (h : item.Nonneg) :
    (CountChange.ofComments (-1)).applyTo item =
      { item with comments := max (item.comments - 1) 0 } := by
  have hzero : ∀ {count : Int64}, 0 ≤ count.toInt → floorAdd count 0 = count :=
    fun hcount => Int64.toInt_inj.1 (floorAdd_zero hcount)
  have hcomments : floorAdd item.comments (-1) = max (item.comments - 1) 0 := by
    have hnonneg := h.comments
    have hlt := item.comments.toInt_lt
    have hsub : (item.comments - 1).toInt = item.comments.toInt - 1 := by
      rw [Int64.toInt_sub, Int64.toInt_one]
      apply Int.bmod_eq_of_le <;> omega
    have hone : (-1 : Int64).toInt = -1 := rfl
    rw [← Int64.toInt_inj, toInt_floorAdd, toInt_max_zero, hsub, hone]
    omega
  rw [applyTo, ofComments]
  dsimp only
  rw [hzero h.upVotes, hzero h.downVotes, hzero h.reports, hcomments]

namespace StoreState

/-- The identifier is that of an item or of a comment on it. -/
def Owns (store : StoreState) (root : ContentItem) (content : ContentId) : Prop :=
  content = root.id ∨ root.kind = .post ∧ (store.item? ⟨root.id.asScope, content⟩).isSome = true

instance (store : StoreState) (root : ContentItem) (content : ContentId) :
    Decidable (store.Owns root content) :=
  inferInstanceAs (Decidable (_ ∨ _))

/-- Nothing is stored below an item: nothing in its scope, and no record on it. -/
structure Bare (store : StoreState) (id : ContentId) : Prop where
  items : ∀ key : ContentKey, key.scope = id.asScope → store.item? key = none
  records : ∀ key : EngagementKey, key.content = id → store.record? key = none

/-- Everything is stored under its own key, and what is stored in the scope of an item is a comment
on a post. -/
structure Tiered (store : StoreState) : Prop where
  keyed : store.Keyed
  compact : store.Compact
  nonneg : ∀ key item, store.item? key = some item → item.Nonneg
  below : ∀ key item key' other, store.item? key = some item → store.item? key' = some other →
    key'.scope = item.id.asScope → item.kind = .post ∧ other.kind = .comment

/-- The store without an item, its comments and the records on any of them. -/
def withoutTree (store : StoreState) (root : ContentItem) : StoreState where
  content :=
    if root.kind = .post then (store.removeItem root.key).content.erase root.id.asScope
    else (store.removeItem root.key).content
  engagement := store.engagement.filter fun key _ => !decide (store.Owns root key.content)

/-- The store with one comment less at the post above a comment, if the post is stored. -/
def uncounted (store : StoreState) (root : ContentItem) : StoreState :=
  match root.kind, store.item? root.parentKey with
  | .comment, some post =>
    store.putItem root.parentKey { post with comments := max (post.comments - 1) 0 }
  | _, _ => store

variable {store : StoreState} {root : ContentItem}

theorem Bare.removeItem {id : ContentId} (h : store.Bare id) (key : ContentKey) :
    (store.removeItem key).Bare id := by
  refine ⟨fun key' hkey' => ?_, fun key' hkey' => ?_⟩
  · rw [item?_removeItem, h.items key' hkey', ite_self]
  · rw [record?_removeItem, h.records key' hkey']

theorem Bare.putItem {id : ContentId} (h : store.Bare id) {key : ContentKey} {item : ContentItem}
    (found : store.item? key = some item) (item' : ContentItem) :
    (store.putItem key item').Bare id := by
  refine ⟨fun key' hkey' => ?_, fun key' hkey' => h.records key' hkey'⟩
  rw [item?_putItem, if_neg, h.items key' hkey']
  rintro rfl
  rw [h.items key' hkey'] at found
  cases found

theorem Tiered.not_covers (h : store.Tiered) (stored : store.item? root.key = some root) :
    ¬root.Covers root.key := by
  rintro ⟨hkind, hscope⟩
  have hcomment := (h.below root.key root root.key root stored stored hscope).2
  rw [hkind] at hcomment
  cases hcomment

theorem Tiered.item?_eq_none (h : store.Tiered) {key : ContentKey} {comment : ContentItem}
    (stored : store.item? key = some comment) (kind : comment.kind = .comment) {key' : ContentKey}
    (scope : key'.scope = comment.id.asScope) : store.item? key' = none := by
  cases hother : store.item? key' with
  | none => rfl
  | some other =>
    have hpost := (h.below key comment key' other stored hother scope).1
    rw [kind] at hpost
    cases hpost

/-! ### The store without a tree -/

theorem item?_withoutTree (store : StoreState) (root : ContentItem) (key : ContentKey) :
    (store.withoutTree root).item? key =
      if key = root.key ∨ root.Covers key then none else store.item? key := by
  have hremoved := store.item?_removeItem root.key key
  rw [item?] at hremoved ⊢
  unfold withoutTree ContentItem.Covers
  by_cases hkind : root.kind = .post
  · simp only [hkind, if_true, true_and, Table.get?_erase]
    by_cases hscope : key.scope = root.id.asScope
    · simp [hscope]
    · simpa [hscope] using hremoved
  · simpa [hkind] using hremoved

theorem record?_withoutTree (store : StoreState) (root : ContentItem) (key : EngagementKey) :
    (store.withoutTree root).record? key =
      if store.Owns root key.content then none else store.record? key := by
  unfold withoutTree record?
  rw [Table.get?_filter]
  by_cases howns : store.Owns root key.content
  · cases store.engagement.get? key <;> simp [howns, Option.filter]
  · cases store.engagement.get? key <;> simp [howns, Option.filter]

theorem compact_withoutTree (h : store.Compact) (root : ContentItem) :
    (store.withoutTree root).Compact := by
  have hremoved := h.removeItem root.key
  intro scope items hitems
  rw [withoutTree] at hitems
  by_cases hkind : root.kind = .post
  · simp only [hkind, if_true, Table.get?_erase] at hitems
    split at hitems
    · cases hitems
    · exact hremoved scope items hitems
  · simp only [hkind, if_false] at hitems
    exact hremoved scope items hitems

/-! ### One comment less -/

theorem uncounted_of_comment {post : ContentItem} (nonneg : post.Nonneg)
    (kind : root.kind = .comment) (found : store.item? root.parentKey = some post) :
    store.uncounted root =
      store.putItem root.parentKey ((CountChange.ofComments (-1)).applyTo post) := by
  rw [CountChange.applyTo_ofComments nonneg]
  rw [uncounted, kind, found]

theorem uncounted_eq_self (h : root.kind = .comment → store.item? root.parentKey = none) :
    store.uncounted root = store := by
  rw [uncounted]
  split
  · rename_i hkind hpost
    rw [h hkind] at hpost
    cases hpost
  · rfl

theorem item?_uncounted_eq_none_iff (store : StoreState) (root : ContentItem) (key : ContentKey) :
    (store.uncounted root).item? key = none ↔ store.item? key = none := by
  rw [uncounted]
  split
  · rename_i hpost
    rw [item?_putItem]
    split
    · rename_i hkey
      simp [hkey, hpost]
    · rfl
  · rfl

end StoreState

/-- A sound forum is in two tiers. -/
theorem Forum.Sound.tiered {outlook : Outlook} {forum : Forum} (sound : forum.Sound outlook)
    (distinct : forum.DistinctIds outlook.site) : forum.store.Tiered where
  keyed := sound.isKeyed
  compact := sound.compact
  nonneg := sound.nonneg
  below key item key' other hitem hother hscope := by
    obtain ⟨-, hcreated⟩ := sound.items key item hitem
    obtain ⟨rfl, hcreated'⟩ := sound.items key' other hother
    have notHive := distinct.notHive item.asCreated hcreated
    obtain ⟨hcomment, hpost, -⟩ := sound.child notHive hcreated hcreated' hscope
    exact ⟨hpost, hcomment⟩

/-- The post above a comment is the item in whose scope the comment is stored. -/
theorem Forum.Sound.parentKey_eq {outlook : Outlook} {forum : Forum}
    (sound : forum.Sound outlook) (distinct : forum.DistinctIds outlook.site)
    {key key' : ContentKey} {item child : ContentItem}
    (hitem : forum.store.item? key = some item) (hchild : forum.store.item? key' = some child)
    (scope : child.scope = item.id.asScope) :
    child.kind = .comment ∧ item.kind = .post ∧ child.parentKey = key := by
  obtain ⟨rfl, hcreated⟩ := sound.items key item hitem
  obtain ⟨-, hcreated'⟩ := sound.items key' child hchild
  obtain ⟨hcomment, hpost, hkey⟩ :=
    sound.child (distinct.notHive item.asCreated hcreated) hcreated hcreated' scope
  exact ⟨hcomment, hpost, hkey.symm⟩

end HiveForum
