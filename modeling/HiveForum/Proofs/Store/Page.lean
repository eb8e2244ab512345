import HiveForum.Store.State

/-!
# Pages of a store

A page shows an initial part of what lies after the position that it starts from, and names the
position from which to go on: everything that is not on the page lies after that position.

## Main definitions

* `Direction.isPast`: a walk that starts after a position visits an item.
* `StoreState.Filed`: every item is stored under its own key.
* `StoreState.Keyed`: so is every record.

## Main results

* `StoreState.mem_scopeItems_iff`: the items of a scope are what the lookups find in it.
* `StoreState.items_pairwise_of_queryContent`: the items on a page come one after another.
* `StoreState.mem_or_after_of_queryContent`: an item is on a page or after it.
* `StoreState.recordsAfter_eq_values`: a walk over the records of an item comes by all of them.
* `StoreState.mem_or_after_of_queryEngagement`: a record is on a page or after it.
-/

namespace HiveForum

open Std

/-- A walk that starts after a position, or at the beginning, comes by another position. -/
def Direction.isPast (direction : Direction) (start : Option IndexKey) (position : IndexKey) :
    Bool :=
  match start with
  | none => true
  | some start => direction.isAfter position start

theorem Direction.isAfter_trans {direction : Direction} {a b c : IndexKey}
    (hab : direction.isAfter b a = true) (hbc : direction.isAfter c b = true) :
    direction.isAfter c a = true := by
  rw [isAfter_iff] at *
  exact TransCmp.lt_trans hab hbc

theorem Direction.isPast_trans {direction : Direction} {start : Option IndexKey} {a b : IndexKey}
    (hpast : direction.isPast start a = true) (hafter : direction.isAfter b a = true) :
    direction.isPast start b = true := by
  cases start with
  | none => rfl
  | some start => exact isAfter_trans hpast hafter

theorem Direction.isAfter_self (direction : Direction) (a : IndexKey) :
    direction.isAfter a a = false := by
  cases h : direction.isAfter a a with
  | false => rfl
  | true => simp [isAfter_iff, ReflCmp.compare_self] at h

theorem Direction.isAfter_asymm {direction : Direction} {a b : IndexKey}
    (h : direction.isAfter b a = true) : direction.isAfter a b = false := by
  cases hback : direction.isAfter a b with
  | false => rfl
  | true =>
    have hself := isAfter_trans h hback
    rw [isAfter_self] at hself
    cases hself

theorem Direction.isAfter_of_not_isAfter {direction : Direction} {a b position : IndexKey}
    (ha : direction.isAfter a position = false) (hb : direction.isAfter b position = true) :
    direction.isAfter b a = true := by
  rw [isAfter_iff] at *
  have hle : (direction.compare a position).isLE := by
    rw [isAfter] at ha
    cases hcompare : direction.compare a position with
    | gt => rw [hcompare] at ha; cases ha
    | _ => rfl
  exact TransCmp.lt_of_isLE_of_lt hle hb

theorem ContentItem.isAfter_of_precedes {sort : SortKey} {direction : Direction}
    {a b : ContentItem} (h : precedes sort direction a b = true)
    (hne : a.indexKey sort ≠ b.indexKey sort) :
    direction.isAfter (b.indexKey sort) (a.indexKey sort) = true := by
  rw [Direction.isAfter_iff]
  have hle : (direction.compare (a.indexKey sort) (b.indexKey sort)).isLE := h
  cases hcompare : direction.compare (a.indexKey sort) (b.indexKey sort) with
  | lt => rfl
  | eq => exact absurd (LawfulEqCmp.eq_of_compare hcompare) hne
  | gt => rw [hcompare] at hle; cases hle

/-! ### Initial parts of ordered lists -/

theorem List.mem_take_or_getLast? {α : Type} {r : α → α → Prop} {list : List α}
    (ordered : list.Pairwise r) {n : Nat} (hn : 0 < n) {x : α} (hx : x ∈ list) :
    x ∈ list.take n ∨ ∃ last, (list.take n).getLast? = some last ∧ r last x := by
  rw [← List.take_append_drop n list] at ordered hx
  obtain ⟨-, -, hcross⟩ := List.pairwise_append.1 ordered
  refine (List.mem_append.1 hx).imp_right fun hdrop => ?_
  have hne : list.take n ≠ [] := by
    intro hnil
    obtain rfl : list = [] := (List.take_eq_nil_iff.1 hnil).resolve_left (by omega)
    simp at hdrop
  exact ⟨(list.take n).getLast hne, List.getLast?_eq_some_getLast hne,
    hcross _ (List.getLast_mem hne) x hdrop⟩

theorem List.eq_or_of_getLast? {α : Type} {r : α → α → Prop} {list : List α}
    (ordered : list.Pairwise r) {last x : α} (hlast : list.getLast? = some last) (hx : x ∈ list) :
    x = last ∨ r x last := by
  obtain ⟨front, rfl⟩ := List.getLast?_eq_some_iff.1 hlast
  rcases List.mem_append.1 hx with hx | hx
  · exact .inr ((List.pairwise_append.1 ordered).2.2 x hx last (List.mem_singleton_self _))
  · exact .inl (List.mem_singleton.1 hx)

namespace StoreState

/-- Every item is stored under its own key. -/
def Filed (state : StoreState) : Prop := ∀ key item, state.item? key = some item → item.key = key

/-- Every item and every record is stored under its own key. -/
structure Keyed (state : StoreState) : Prop where
  items : ∀ key item, state.item? key = some item → item.key = key
  records : ∀ key record, state.record? key = some record → record.key = key

variable {state : StoreState} {limits : QueryLimits}

/-! ### Items -/

/-- The items of a scope are what the lookups find in it. -/
theorem mem_scopeItems_iff {scope : ScopeId} {item : ContentItem} :
    item ∈ state.scopeItems scope ↔ ∃ id, state.item? ⟨scope, id⟩ = some item := by
  unfold scopeItems item?
  cases hscope : state.content.get? scope with
  | none => simp [hscope]
  | some items =>
    simp only [hscope, Option.bind_some, Table.values, List.mem_map, Table.get?_eq_some_iff,
      Prod.exists, exists_eq_right]

/-- The items of a scope are those stored under their own keys in it. -/
theorem Filed.mem_scopeItems_iff (filed : state.Filed) {scope : ScopeId} {item : ContentItem} :
    item ∈ state.scopeItems scope ↔ state.item? item.key = some item ∧ item.scope = scope := by
  rw [StoreState.mem_scopeItems_iff]
  constructor
  · rintro ⟨id, hitem⟩
    have hkey := filed _ item hitem
    exact ⟨hkey ▸ hitem, congrArg ContentKey.scope hkey⟩
  · rintro ⟨hitem, rfl⟩
    exact ⟨item.id, hitem⟩

theorem filed_empty : StoreState.empty.Filed := fun _ _ h => by cases h

theorem Filed.putItem (filed : state.Filed) {key : ContentKey} {item : ContentItem}
    (h : item.key = key) : (state.putItem key item).Filed := by
  intro key' item' hitem
  rw [item?_putItem] at hitem
  split at hitem
  · rename_i heq
    obtain rfl := Option.some.inj hitem
    rw [h, heq]
  · exact filed key' item' hitem

theorem Filed.removeItem (filed : state.Filed) (key : ContentKey) :
    (state.removeItem key).Filed := by
  intro key' item' hitem
  rw [item?_removeItem] at hitem
  split at hitem
  · cases hitem
  · exact filed key' item' hitem

/-- The items of a scope have different identifiers. -/
theorem scopeItems_pairwise (filed : state.Filed) (scope : ScopeId) :
    (state.scopeItems scope).Pairwise fun a b => a.id ≠ b.id := by
  rw [scopeItems]
  cases hscope : state.content.get? scope with
  | none => exact .nil
  | some items =>
    have hid : ∀ entry ∈ items.entries, entry.2.id = entry.1 := by
      intro entry hentry
      have hget : items.get? entry.1 = some entry.2 := Table.get?_eq_some_iff.2 hentry
      have hitem : state.item? ⟨scope, entry.1⟩ = some entry.2 := by
        simp [item?, hscope, hget]
      exact congrArg ContentKey.id (filed _ _ hitem)
    refine List.pairwise_map.2 (items.ordered.imp_of_mem fun ha hb hlt heq => ?_)
    rw [hid _ ha, hid _ hb] at heq
    simp [heq, ReflCmp.compare_self] at hlt

theorem mem_itemsAfter_iff {query : ContentQuery} {item : ContentItem} :
    item ∈ state.itemsAfter query ↔ item ∈ state.scopeItems query.scope ∧
      query.direction.isPast query.startAfter (item.indexKey query.sort) = true := by
  unfold itemsAfter Direction.isPast
  refine (ContentItem.sort_perm _ _ _).mem_iff.trans ?_
  cases query.startAfter <;> exact List.mem_filter

theorem itemsAfter_pairwise (filed : state.Filed) (query : ContentQuery) :
    (state.itemsAfter query).Pairwise fun a b =>
      query.direction.isAfter (b.indexKey query.sort) (a.indexKey query.sort) = true := by
  have hids : (state.itemsAfter query).Pairwise fun a b => a.id ≠ b.id := by
    refine (ContentItem.sort_perm _ _ _).symm.pairwise ?_ fun h => h.symm
    exact (scopeItems_pairwise filed query.scope).filter _
  refine hids.imp₂ (fun a b hne hle => ?_) (ContentItem.sort_pairwise _ _ _)
  exact ContentItem.isAfter_of_precedes hle fun heq => hne (congrArg IndexKey.id heq)

theorem queryContent_eq_ok {query : ContentQuery} {page : ContentPage}
    (h : state.queryContent limits query = .ok page) :
    0 < min query.limit limits.pageItems ∧
      page.items = ((state.itemsAfter query).take (min query.limit limits.pageItems)).filter
        (·.matchesTags query.tags) ∧
      page.lastEvaluated =
        if (state.itemsAfter query).length ≤ min query.limit limits.pageItems then none
        else ((state.itemsAfter query).take (min query.limit limits.pageItems)).getLast?.map
          (·.indexKey query.sort) := by
  rw [queryContent] at h
  split at h
  · cases h
  · rename_i hlimit
    cases h
    have hpos := limits.pageItems_pos
    exact ⟨by omega, rfl, rfl⟩

/-- The items on a page come one after another. -/
theorem items_pairwise_of_queryContent (filed : state.Filed) {query : ContentQuery}
    {page : ContentPage} (h : state.queryContent limits query = .ok page) :
    page.items.Pairwise fun a b =>
      query.direction.isAfter (b.indexKey query.sort) (a.indexKey query.sort) = true := by
  obtain ⟨-, hitems, -⟩ := queryContent_eq_ok h
  rw [hitems]
  exact (itemsAfter_pairwise filed query).take.filter _

theorem matchesTags_of_queryContent {query : ContentQuery} {page : ContentPage}
    (h : state.queryContent limits query = .ok page) {item : ContentItem}
    (hitem : item ∈ page.items) : item.matchesTags query.tags = true := by
  obtain ⟨-, hitems, -⟩ := queryContent_eq_ok h
  rw [hitems] at hitem
  exact (List.mem_filter.1 hitem).2

theorem mem_scope_of_queryContent {query : ContentQuery} {page : ContentPage}
    (h : state.queryContent limits query = .ok page) {item : ContentItem}
    (hitem : item ∈ page.items) : item ∈ state.scopeItems query.scope ∧
      query.direction.isPast query.startAfter (item.indexKey query.sort) = true := by
  obtain ⟨-, hitems, -⟩ := queryContent_eq_ok h
  rw [hitems] at hitem
  exact mem_itemsAfter_iff.1 (List.mem_of_mem_take (List.mem_filter.1 hitem).1)

/-- A stored item that lies after the start of a page is on the page, or after the position from
which to go on. -/
theorem mem_or_after_of_queryContent (filed : state.Filed) {query : ContentQuery}
    {page : ContentPage} (h : state.queryContent limits query = .ok page) {item : ContentItem}
    (hitem : item ∈ state.scopeItems query.scope)
    (hpast : query.direction.isPast query.startAfter (item.indexKey query.sort) = true)
    (htags : item.matchesTags query.tags = true) :
    item ∈ page.items ∨ ∃ position, page.lastEvaluated = some position ∧
      query.direction.isAfter (item.indexKey query.sort) position = true := by
  obtain ⟨hpos, hitems, hlast⟩ := queryContent_eq_ok h
  rw [hitems, hlast]
  have hmem := mem_itemsAfter_iff.2 ⟨hitem, hpast⟩
  split
  · rename_i hall
    rw [List.take_of_length_le hall]
    exact .inl (List.mem_filter.2 ⟨hmem, htags⟩)
  · rcases List.mem_take_or_getLast? (itemsAfter_pairwise filed query) hpos hmem with
      hseen | ⟨last, hlast, hafter⟩
    · exact .inl (List.mem_filter.2 ⟨hseen, htags⟩)
    · exact .inr ⟨_, by rw [hlast]; rfl, hafter⟩

/-- The position from which to go on is that of an item after the start of the page, and no item on
the page lies after it. -/
theorem lastEvaluated_of_queryContent (filed : state.Filed) {query : ContentQuery}
    {page : ContentPage} (h : state.queryContent limits query = .ok page) {position : IndexKey}
    (hposition : page.lastEvaluated = some position) :
    (∃ last ∈ state.itemsAfter query, last.indexKey query.sort = position) ∧
      ∀ item ∈ page.items,
        query.direction.isAfter (item.indexKey query.sort) position = false := by
  obtain ⟨-, hitems, hlast⟩ := queryContent_eq_ok h
  rw [hlast] at hposition
  split at hposition
  · cases hposition
  · obtain ⟨last, hlast, rfl⟩ := Option.map_eq_some_iff.1 hposition
    refine ⟨⟨last, List.mem_of_mem_take (List.mem_of_getLast? hlast), rfl⟩, fun item hitem => ?_⟩
    rw [hitems] at hitem
    have hordered := (itemsAfter_pairwise filed query).sublist
      (List.take_sublist (min query.limit limits.pageItems) _)
    rcases List.eq_or_of_getLast? hordered hlast (List.mem_filter.1 hitem).1 with rfl | hafter
    · exact Direction.isAfter_self _ _
    · exact Direction.isAfter_asymm hafter

/-! ### Records -/

/-- A walk over the records of an item skips, of the records of other items, at least those of
earlier ones. -/
theorem skips_recordsBound_of_lt {content : ContentId} {key : EngagementKey}
    (h : compare key.content content = .lt) (startAfter : Option UserId) :
    (recordsBound content startAfter).skips key = true := by
  have hlt : ∀ user, compare key ⟨user, content⟩ = .lt := fun user =>
    congrArg (·.then (compare key.user user)) h
  cases startAfter with
  | none => exact beq_iff_eq.2 (hlt ⟨""⟩)
  | some user => exact congrArg Ordering.isLE (hlt user)

/-- Of the records of the item itself it skips those of users that are not after its start; without
a start it skips none, since no name comes before the empty one. -/
theorem skips_recordsBound (user : UserId) (content : ContentId) (startAfter : Option UserId) :
    (recordsBound content startAfter).skips ⟨user, content⟩ =
      !match startAfter with
        | none => true
        | some start => compare start user == .lt := by
  have hkey : ∀ other, compare (⟨user, content⟩ : EngagementKey) ⟨other, content⟩ =
      compare user other := fun other =>
    congrArg (·.then (compare user other)) (ReflCmp.compare_self (a := content))
  cases startAfter with
  | none =>
    rw [recordsBound, Table.Bound.skips, hkey]
    exact beq_eq_false_iff_ne.2 user.compare_empty_ne_lt
  | some start =>
    have hswap : compare user start = (compare start user).swap := OrientedCmp.eq_swap
    rw [recordsBound, Table.Bound.skips, hkey, hswap]
    dsimp only
    cases compare start user <;> rfl

/-- A walk over the records of an item comes by all records of the item that are after its start:
they stand together in the table. -/
theorem recordsAfter_eq_values (state : StoreState) (content : ContentId)
    (startAfter : Option UserId) :
    state.recordsAfter content startAfter = (state.engagement.filter fun key _ =>
      decide (key.content = content) && match startAfter with
        | none => true
        | some user => compare user key.user == .lt).values := by
  have together : (state.engagement.entriesFrom (recordsBound content startAfter)).Pairwise
      fun a b => decide (b.1.content = content) = true → decide (a.1.content = content) = true := by
    rw [Table.entriesFrom_eq_filter]
    refine (state.engagement.ordered.filter _).imp_of_mem fun {a b} ha _ hlt hb => ?_
    rw [decide_eq_true_eq] at *
    have hnotBefore : compare a.1.content content ≠ .lt := fun hbefore => by
      have hskips := skips_recordsBound_of_lt hbefore startAfter
      simp [hskips] at ha
    have hlt : (compare a.1.content b.1.content).then (compare a.1.user b.1.user) = .lt := hlt
    rw [hb, Ordering.then_eq_lt] at hlt
    exact LawfulEqOrd.eq_of_compare (hlt.resolve_left hnotBefore).1
  rw [recordsAfter, List.takeWhile_eq_filter together, Table.entriesFrom_eq_filter,
    List.filter_filter]
  refine congrArg (List.map _) (List.filter_congr fun entry _ => ?_)
  by_cases hcontent : entry.1.content = content
  · subst hcontent
    rw [skips_recordsBound, Bool.not_not]
  · simp [hcontent]

theorem mem_recordsAfter_iff (keyed : state.Keyed) {content : ContentId}
    {startAfter : Option UserId} {record : EngagementRecord} :
    record ∈ state.recordsAfter content startAfter ↔
      state.record? record.key = some record ∧ record.content = content ∧
        ∀ user, startAfter = some user → compare user record.user = .lt := by
  rw [recordsAfter_eq_values]
  simp only [Table.values, List.mem_map, ← Table.get?_eq_some_iff, Prod.exists, exists_eq_right,
    Table.get?_filter, Option.filter_eq_some_iff, Bool.and_eq_true, decide_eq_true_eq]
  constructor
  · rintro ⟨key, hrecord, hcontent, hafter⟩
    obtain rfl := keyed.records key record hrecord
    refine ⟨hrecord, hcontent, fun user huser => ?_⟩
    subst huser
    exact beq_iff_eq.1 hafter
  · rintro ⟨hrecord, hcontent, hafter⟩
    refine ⟨record.key, hrecord, hcontent, ?_⟩
    cases startAfter with
    | none => rfl
    | some user => exact beq_iff_eq.2 (hafter user rfl)

/-- The records of an item come by increasing user. -/
theorem recordsAfter_pairwise (keyed : state.Keyed) (content : ContentId)
    (startAfter : Option UserId) :
    (state.recordsAfter content startAfter).Pairwise fun a b => compare a.user b.user = .lt := by
  have hkeys : (state.recordsAfter content startAfter).Pairwise
      fun a b => compare a.key b.key = .lt := by
    rw [recordsAfter_eq_values]
    refine List.pairwise_map.2 ((Table.ordered _).imp_of_mem fun {a b} ha hb hlt => ?_)
    have hkey : ∀ entry ∈ state.engagement.entries, entry.2.key = entry.1 := fun entry hentry =>
      keyed.records entry.1 entry.2 (Table.get?_eq_some_iff.2 hentry)
    rw [hkey a (List.mem_filter.1 ha).1, hkey b (List.mem_filter.1 hb).1]
    exact hlt
  refine hkeys.imp_of_mem fun {a b} ha hb hlt => ?_
  have ha := ((mem_recordsAfter_iff keyed).1 ha).2.1
  have hb := ((mem_recordsAfter_iff keyed).1 hb).2.1
  have hlt : (compare a.content b.content).then (compare a.user b.user) = .lt := hlt
  simpa [ha, hb, ReflCmp.compare_self] using hlt

theorem queryEngagement_eq_ok {query : EngagementQuery} {page : EngagementPage}
    (h : state.queryEngagement limits query = .ok page) :
    0 < min query.limit limits.pageItems ∧
      page.records = (state.recordsAfter query.content query.startAfter).take
        (min query.limit limits.pageItems) ∧
      page.lastEvaluated =
        if (state.recordsAfter query.content query.startAfter).length ≤
            min query.limit limits.pageItems then none
        else ((state.recordsAfter query.content query.startAfter).take
          (min query.limit limits.pageItems)).getLast?.map (·.user) := by
  rw [queryEngagement] at h
  dsimp only at h
  split at h
  · cases h
  · cases h
    refine ⟨by omega, rfl, ?_⟩
    simp only [List.isEmpty_iff, List.drop_eq_nil_iff]

/-- No record on a page comes after the position that the page names. -/
theorem lastEvaluated_of_queryEngagement (keyed : state.Keyed) {query : EngagementQuery}
    {page : EngagementPage} (h : state.queryEngagement limits query = .ok page)
    {record : EngagementRecord} (hrecord : record ∈ page.records) {user : UserId}
    (huser : page.lastEvaluated = some user) : compare user record.user ≠ .lt := by
  obtain ⟨-, hrecords, hlast⟩ := queryEngagement_eq_ok h
  rw [hlast] at huser
  split at huser
  · cases huser
  · obtain ⟨last, hlast, rfl⟩ := Option.map_eq_some_iff.1 huser
    rw [hrecords] at hrecord
    intro hafter
    rcases List.eq_or_of_getLast? (recordsAfter_pairwise keyed _ _).take hlast hrecord with
      rfl | hbefore
    · simp [ReflCmp.compare_self] at hafter
    · exact absurd (TransCmp.lt_trans hbefore hafter) (by simp [ReflCmp.compare_self])

/-- A stored record that lies after the start of a page is on the page, or after the user from whom
to go on. -/
theorem mem_or_after_of_queryEngagement (keyed : state.Keyed) {query : EngagementQuery}
    {page : EngagementPage} (h : state.queryEngagement limits query = .ok page)
    {record : EngagementRecord}
    (hrecord : record ∈ state.recordsAfter query.content query.startAfter) :
    record ∈ page.records ∨ ∃ user, page.lastEvaluated = some user ∧
      compare user record.user = .lt := by
  obtain ⟨hpos, hrecords, hlast⟩ := queryEngagement_eq_ok h
  rw [hrecords, hlast]
  split
  · rename_i hall
    rw [List.take_of_length_le hall]
    exact .inl hrecord
  · refine (List.mem_take_or_getLast? (recordsAfter_pairwise keyed _ _) hpos hrecord).imp_right ?_
    rintro ⟨last, hlast, hafter⟩
    exact ⟨last.user, by rw [hlast]; rfl, hafter⟩

end StoreState

theorem EngagementPage.forall_key_of_isEmpty {page : EngagementPage}
    (empty : ¬(!page.records.isEmpty) = true) {P : EngagementKey → Prop} :
    ∀ key ∈ page.records.map (·.key), P key := by
  intro key hkey
  simp only [Bool.not_eq_true', Bool.not_eq_false, List.isEmpty_iff] at empty
  rw [empty] at hkey
  cases hkey

end HiveForum
