import HiveForum.Proofs.Store.Change
import HiveForum.Proofs.Store.Page
import HiveForum.Proofs.Store.Tally

/-!
# Counting the items of a scope

A new item makes one more in its scope, one that is removed makes one less, and an edit makes no
difference. When items and records only disappear, those that were there are those that are left
and those that have gone.

## Main definitions

* `StoreState.scopeTable`: the items of a scope as a table.

## Main results

* `StoreState.scopeItems_congr`: the items of a scope follow from the lookups in it.
* `StoreState.length_scopeItems_putItem`, `StoreState.length_scopeItems_removeItem`: the number of
  the items of a scope after a change.
* `StoreState.tally_eq_add`, `StoreState.length_scopeItems_eq_add`: what was there is what is left
  and what has gone.
-/

namespace HiveForum

open Std

/-- Where values only disappear from a table, those that satisfied a claim are those that are left
and those that have gone. -/
theorem Table.countP_eq_add {κ ν : Type} [Ord κ] [TransOrd κ] [LawfulEqOrd κ]
    {before after : Table κ ν} {keyOf : ν → κ}
    (keyed : ∀ key value, before.get? key = some value → keyOf value = key)
    (thins : ∀ key, after.get? key = before.get? key ∨ after.get? key = none) (p : ν → Bool) :
    before.values.countP p = after.values.countP p +
      before.values.countP fun value => p value && (after.get? (keyOf value)).isNone := by
  have hkept : ∀ {key value}, after.get? key = some value → before.get? key = some value := by
    intro key value hvalue
    obtain hsame | hnone := thins key
    · rw [← hsame, hvalue]
    · rw [hnone] at hvalue
      cases hvalue
  have hleft : before.values.countP (fun value => p value && (after.get? (keyOf value)).isSome) =
      after.values.countP fun value => p value && (after.get? (keyOf value)).isSome := by
    refine countP_values_congr fun key value hp => ⟨fun hvalue => ?_, hkept⟩
    rw [keyed key value hvalue, Bool.and_eq_true] at hp
    obtain hsame | hnone := thins key
    · rw [hsame, hvalue]
    · rw [hnone] at hp
      cases hp.2
  have hall : after.values.countP (fun value => p value && (after.get? (keyOf value)).isSome) =
      after.values.countP p := by
    refine List.countP_congr fun value hmem => ?_
    obtain ⟨key, hvalue⟩ := mem_values_iff.1 hmem
    rw [keyed key value (hkept hvalue), hvalue]
    simp
  rw [← hall, ← hleft, List.countP_eq_countP_filter_add before.values p
    fun value => (after.get? (keyOf value)).isSome, List.countP_filter, List.countP_filter]
  simp only [Option.not_isSome]

namespace StoreState

/-- The items of a scope as a table. -/
def scopeTable (state : StoreState) (scope : ScopeId) : Table ContentId ContentItem :=
  (state.content.get? scope).getD .empty

variable {state later : StoreState} {key : ContentKey} {item : ContentItem} {scope : ScopeId}

theorem values_scopeTable (state : StoreState) (scope : ScopeId) :
    (state.scopeTable scope).values = state.scopeItems scope := by
  rw [scopeItems, scopeTable]
  cases state.content.get? scope <;> rfl

theorem get?_scopeTable (state : StoreState) (scope : ScopeId) (id : ContentId) :
    (state.scopeTable scope).get? id = state.item? ⟨scope, id⟩ := by
  rw [item?, scopeTable]
  cases state.content.get? scope <;> rfl

/-- The items of a scope follow from the lookups in it. -/
theorem scopeItems_congr (h : ∀ id, state.item? ⟨scope, id⟩ = later.item? ⟨scope, id⟩) :
    state.scopeItems scope = later.scopeItems scope := by
  rw [← values_scopeTable, ← values_scopeTable]
  refine congrArg Table.values (Table.ext_get? fun id => ?_)
  rw [get?_scopeTable, get?_scopeTable, h]

theorem scopeItems_eq_nil (h : ∀ id, state.item? ⟨scope, id⟩ = none) :
    state.scopeItems scope = [] := by
  refine List.eq_nil_iff_forall_not_mem.2 fun item hmem => ?_
  obtain ⟨id, hid⟩ := mem_scopeItems_iff.1 hmem
  rw [h id] at hid
  cases hid

/-! ### Changes of the items -/

@[simp]
theorem tally_putItem (state : StoreState) (key : ContentKey) (item : ContentItem)
    (content : ContentId) (flagOf : EngagementRecord → Bool) :
    (state.putItem key item).tally content flagOf = state.tally content flagOf := rfl

@[simp]
theorem scopeItems_withRecord (state : StoreState) (record : EngagementRecord) (scope : ScopeId) :
    (state.withRecord record).scopeItems scope = state.scopeItems scope := rfl

theorem scopeItems_putItem_of_ne (h : scope ≠ key.scope) (item : ContentItem) :
    (state.putItem key item).scopeItems scope = state.scopeItems scope := by
  refine scopeItems_congr fun id => ?_
  rw [item?_putItem, if_neg fun heq => h (congrArg ContentKey.scope heq)]

/-- An item that is stored makes one more in its scope unless one was stored there before. -/
theorem length_scopeItems_putItem (state : StoreState) (key : ContentKey) (item : ContentItem) :
    ((state.putItem key item).scopeItems key.scope).length + (state.item? key).isSome.toNat =
      (state.scopeItems key.scope).length + 1 := by
  have hinsert := Table.countP_insert (state.scopeTable key.scope) key.id item fun _ => true
  have htable : (state.scopeTable key.scope).insert key.id item =
      (state.putItem key item).scopeTable key.scope := by
    refine Table.ext_get? fun id => ?_
    rw [get?_scopeTable, item?_putItem, Table.get?_insert, get?_scopeTable]
    have hiff : (⟨key.scope, id⟩ : ContentKey) = key ↔ id = key.id := by cases key; simp
    simp only [hiff]
  have hany : ((state.scopeTable key.scope).get? key.id).any (fun _ => true) =
      (state.item? key).isSome := by
    rw [get?_scopeTable]
    cases state.item? ⟨key.scope, key.id⟩ <;> rfl
  rw [htable, hany, values_scopeTable, values_scopeTable] at hinsert
  simpa using hinsert

theorem length_scopeItems_edit (found : state.item? key = some item) (item' : ContentItem)
    (scope : ScopeId) :
    ((state.putItem key item').scopeItems scope).length = (state.scopeItems scope).length := by
  by_cases hscope : scope = key.scope
  · have hput := state.length_scopeItems_putItem key item'
    rw [found] at hput
    rw [hscope]
    exact Nat.add_right_cancel hput
  · rw [scopeItems_putItem_of_ne hscope]

/-- An item that is removed makes one less in its scope. -/
theorem length_scopeItems_removeItem (found : state.item? key = some item) :
    ((state.removeItem key).scopeItems key.scope).length + 1 =
      (state.scopeItems key.scope).length := by
  have hput := (state.removeItem key).length_scopeItems_putItem key item
  have hback : ((state.removeItem key).putItem key item).scopeItems key.scope =
      state.scopeItems key.scope := by
    refine scopeItems_congr fun id => ?_
    rw [item?_putItem, item?_removeItem]
    split
    · rename_i heq
      rw [heq, found]
    · rfl
  rw [item?_removeItem, if_pos rfl, hback] at hput
  exact hput.symm

theorem scopeItems_removeItem_of_ne (h : scope ≠ key.scope) :
    (state.removeItem key).scopeItems scope = state.scopeItems scope := by
  refine scopeItems_congr fun id => ?_
  rw [item?_removeItem, if_neg fun heq => h (congrArg ContentKey.scope heq)]

/-! ### What disappears -/

/-- Where records only disappear, those on an item with a flag are those that are left and those
that have gone. -/
theorem tally_eq_add (keyed : state.Keyed)
    (thins : ∀ key, later.record? key = state.record? key ∨ later.record? key = none)
    (content : ContentId) (flagOf : EngagementRecord → Bool) :
    state.tally content flagOf = later.tally content flagOf +
      state.records.countP fun record => (decide (record.content = content) && flagOf record) &&
        (later.record? record.key).isNone :=
  Table.countP_eq_add keyed.records thins _

/-- Where the items of a scope only disappear, there were those that are left and those that have
gone. -/
theorem length_scopeItems_eq_add (keyed : state.Keyed)
    (thins : ∀ id, later.item? ⟨scope, id⟩ = state.item? ⟨scope, id⟩ ∨
      later.item? ⟨scope, id⟩ = none) :
    (state.scopeItems scope).length = (later.scopeItems scope).length +
      (state.scopeItems scope).countP fun item => (later.item? item.key).isNone := by
  have hkeyed : ∀ id item, (state.scopeTable scope).get? id = some item → item.id = id := by
    intro id item hitem
    rw [get?_scopeTable] at hitem
    exact congrArg ContentKey.id (keyed.items _ item hitem)
  have hthins : ∀ id, (later.scopeTable scope).get? id = (state.scopeTable scope).get? id ∨
      (later.scopeTable scope).get? id = none := by
    intro id
    rw [get?_scopeTable, get?_scopeTable]
    exact thins id
  have hcount := Table.countP_eq_add hkeyed hthins fun _ => true
  simp only [values_scopeTable, List.countP_true, Bool.true_and] at hcount
  rw [hcount]
  refine congrArg _ (List.countP_congr fun item hmem => ?_)
  obtain ⟨id, hid⟩ := mem_scopeItems_iff.1 hmem
  rw [get?_scopeTable, keyed.items _ item hid, show item.id = id from
    congrArg ContentKey.id (keyed.items _ item hid)]

end StoreState

end HiveForum
