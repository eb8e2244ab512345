import HiveForum.Proofs.Deletion.Nesting
import HiveForum.Proofs.Store.Keys

/-!
# Reading the records of an item while they are removed

A deletion reads the records of an item page by page, each page after the user that the one before
names, and the records on earlier pages are removed meanwhile. Since a page starts after a user and
not after so many records, nothing is missed: whatever goes lies behind. The pages are those of the
store that the reading began with, cut at the same places.

## Main definitions

* `Sweep`: the store and the pages that have been read.
* `Sweep.Step`: a page is read, or records that have been shown are removed.
* `Sweep.ahead`: the records that are still to be shown.
* `Sweep.Tracks`: what every step keeps to.
* `Sweep.Enumerates`: what has been shown of the records of an item.

## Main results

* `StoreState.queryEngagement_cases`: a page shows all that comes after its start, or it is full and
  names the user after whom the rest comes.
* `Sweep.Tracks.step`: what has been shown and what is ahead are together the records at the start.
* `Sweep.Step.of_batch`: a batch of keys that have been shown is such a removal.
* `Sweep.enumerates_records`: the pages come to an end, and show every record once.
-/

namespace HiveForum

open Std

/-! ### Records in order -/

namespace StoreState

variable {state : StoreState} {content : ContentId} {start : Option UserId}

theorem records_eq_of_mem_iff {records others : List EngagementRecord}
    (ordered : records.Pairwise fun a b => compare a.user b.user = .lt)
    (ordered' : others.Pairwise fun a b => compare a.user b.user = .lt)
    (h : ∀ record, record ∈ records ↔ record ∈ others) : records = others := by
  have hnodup : ∀ {list : List EngagementRecord},
      (list.Pairwise fun a b => compare a.user b.user = .lt) → list.Nodup := by
    refine fun hlist => hlist.imp fun {a b} hlt heq => ?_
    simp [heq, ReflCmp.compare_self] at hlt
  refine List.Perm.eq_of_pairwise (fun a b _ _ hab hba => ?_) ordered ordered'
    ((List.perm_ext_iff_of_nodup (hnodup ordered) (hnodup ordered')).2 h)
  rw [OrientedCmp.gt_of_lt hab] at hba
  cases hba

theorem recordsAfter_none (keyed : state.Keyed) (content : ContentId) :
    state.recordsAfter content none = state.records.filter (·.content = content) := by
  rw [recordsAfter_eq_values, Table.values, Table.filter, records, Table.values, List.filter_map]
  refine congrArg (List.map _) (List.filter_congr fun entry hentry => ?_)
  have hkey : entry.2.key = entry.1 :=
    keyed.records entry.1 entry.2 (Table.get?_eq_some_iff.2 hentry)
  have hcontent : entry.1.content = entry.2.content := (congrArg EngagementKey.content hkey).symm
  simp [hcontent]

/-- After the last record of a first part come the others. -/
theorem recordsAfter_of_append (keyed : state.Keyed) {front rest : List EngagementRecord}
    {last : EngagementRecord} (h : state.recordsAfter content start = front ++ rest)
    (hlast : front.getLast? = some last) :
    state.recordsAfter content (some last.user) = rest := by
  have ordered := recordsAfter_pairwise keyed content start
  have hmem := fun record => @mem_recordsAfter_iff state keyed content start record
  rw [h] at ordered
  simp only [h, List.mem_append] at hmem
  obtain ⟨hfront, hrest, hcross⟩ := List.pairwise_append.1 ordered
  have hlastMem := List.mem_of_getLast? hlast
  refine records_eq_of_mem_iff (recordsAfter_pairwise keyed content _) hrest fun record => ?_
  rw [mem_recordsAfter_iff keyed]
  constructor
  · rintro ⟨hstored, hcontent, hafter⟩
    have hafter : compare last.user record.user = .lt := hafter _ rfl
    have hpast : ∀ user, start = some user → compare user record.user = .lt := fun user huser =>
      TransCmp.lt_trans (((hmem last).1 (.inl hlastMem)).2.2 user huser) hafter
    refine ((hmem record).2 ⟨hstored, hcontent, hpast⟩).resolve_left fun hbefore => ?_
    rcases List.eq_or_of_getLast? hfront hlast hbefore with rfl | hlt
    · simp [ReflCmp.compare_self] at hafter
    · rw [OrientedCmp.gt_of_lt hlt] at hafter
      cases hafter
  · intro hrecord
    obtain ⟨hstored, hcontent, -⟩ := (hmem record).1 (.inr hrecord)
    refine ⟨hstored, hcontent, fun user huser => ?_⟩
    obtain rfl := Option.some.inj huser
    exact hcross last hlastMem record hrecord

theorem recordsAfter_removeRecords (keyed : state.Keyed) {keys : List EngagementKey}
    (h : ∀ record ∈ state.recordsAfter content start, record.key ∉ keys) :
    (state.removeRecords keys).recordsAfter content start = state.recordsAfter content start := by
  have keyed' := keyed.removeRecords keys
  refine records_eq_of_mem_iff (recordsAfter_pairwise keyed' content start)
    (recordsAfter_pairwise keyed content start) fun record => ⟨fun hrecord => ?_, fun hrecord => ?_⟩
  · exact (PartOf.removeRecords state keys).recordsAfter_subset keyed content start hrecord
  · obtain ⟨hstored, hrest⟩ := (mem_recordsAfter_iff keyed).1 hrecord
    refine (mem_recordsAfter_iff keyed').2 ⟨?_, hrest⟩
    rw [record?_removeRecords, if_neg (h record hrecord)]
    exact hstored

/-- A page shows all records after its start and names no user, or it is full and names the user
after whom the others come. -/
theorem queryEngagement_cases (keyed : state.Keyed) {limits : QueryLimits} {query : EngagementQuery}
    {page : EngagementPage} (h : state.queryEngagement limits query = .ok page) :
    (page.lastEvaluated = none ∧
      page.records = state.recordsAfter query.content query.startAfter ∧
        page.records.length ≤ min query.limit limits.pageItems) ∨
      ∃ user, page.lastEvaluated = some user ∧
        page.records ++ state.recordsAfter query.content (some user) =
          state.recordsAfter query.content query.startAfter ∧
        state.recordsAfter query.content (some user) ≠ [] ∧
        page.records.length = min query.limit limits.pageItems := by
  obtain ⟨positive, hrecords, hlast⟩ := queryEngagement_eq_ok h
  generalize min query.limit limits.pageItems = size at *
  generalize hahead : state.recordsAfter query.content query.startAfter = ahead at *
  obtain hmore | hfits := Nat.lt_or_ge size ahead.length
  case inr =>
    rw [if_pos hfits] at hlast
    rw [List.take_of_length_le hfits] at hrecords
    exact .inl ⟨hlast, hrecords, hrecords ▸ hfits⟩
  case inl =>
    rw [if_neg (by omega)] at hlast
    have hlength : (ahead.take size).length = size := by
      rw [List.length_take]
      omega
    have hne : ahead.take size ≠ [] := List.ne_nil_of_length_pos (by omega)
    have hgetLast := List.getLast?_eq_some_getLast hne
    have hsplit := List.take_append_drop size ahead
    have hrest := recordsAfter_of_append keyed (hahead.trans hsplit.symm) hgetLast
    rw [hgetLast, Option.map_some] at hlast
    refine .inr ⟨_, hlast, ?_, ?_, ?_⟩
    · rw [hrest, hrecords, hsplit]
    · rw [hrest, Ne, List.drop_eq_nil_iff]
      omega
    · rw [hrecords, hlength]

end StoreState

/-! ### Sweeps -/

/-- The records of an item are read page by page: the store as it has become, and the pages that
have been read. -/
structure Sweep where
  store : MemoryStore
  pages : List EngagementPage

namespace Sweep

/-- The records that have been shown. -/
def shown (sweep : Sweep) : List EngagementRecord := sweep.pages.flatMap (·.records)

/-- Where the next page starts: at the first record, or after the user that the last page names.
There is no next page once a page names no user. -/
def next (sweep : Sweep) : Option (Option UserId) :=
  match sweep.pages.getLast? with
  | none => some none
  | some page => page.lastEvaluated.map some

/-- The records that are still to be shown. -/
def ahead (sweep : Sweep) (content : ContentId) : List EngagementRecord :=
  match sweep.next with
  | none => []
  | some position => sweep.store.state.recordsAfter content position

/-- One step of reading the records of an item, while records that have been shown are removed. -/
inductive Step (content : ContentId) (limit : Nat) : Sweep → Sweep → Prop where
  | read {sweep : Sweep} {position : Option UserId} {page : EngagementPage} {store : MemoryStore}
      (next : sweep.next = some position)
      (answer : sweep.store.answer (.queryEngagement ⟨content, limit, position⟩) =
        (.ok page, store)) :
      Step content limit sweep ⟨store, sweep.pages ++ [page]⟩
  /-- Records that have been shown are removed. The store may be switched on or off, and its
  capacity and its latency may be set. -/
  | remove {sweep : Sweep} {keys : List EngagementKey} {later : MemoryStore}
      (shown : keys ⊆ sweep.shown.map (·.key))
      (state : later.state = sweep.store.state.removeRecords keys)
      (pageItems : later.pageItems = sweep.store.pageItems) :
      Step content limit sweep ⟨later, sweep.pages⟩

/-- As many pages as it takes to show so many records; there is one page even if there are none. -/
def pagesFor (records size : Nat) : Nat := max 1 ((records + size - 1) / size)

/-- What has been shown of the records that an item had at the start, and what is still to come. -/
structure Enumerates (sweep : Sweep) (start : MemoryStore) (content : ContentId) (limit : Nat) :
    Prop where
  /-- The first of these records have been shown, and nothing else. -/
  shows : sweep.shown <+: start.state.records.filter (·.content = content)
  /-- They come by increasing user, hence each once. -/
  ordered : sweep.shown.Pairwise fun a b => compare a.user b.user = .lt
  complete : sweep.next = none →
    sweep.shown = start.state.records.filter (·.content = content)
  /-- No page shows more records than asked for, or than the store looks at. -/
  sizes : ∀ page ∈ sweep.pages, page.records.length ≤ min limit start.limits.pageItems
  /-- The page that has just been read names a user exactly if there is a record of the item that
  lies beyond the page. -/
  beyond : ∀ front page, sweep.pages = front ++ [page] →
    (page.lastEvaluated.isSome = true ↔ ∃ record,
      sweep.store.state.record? record.key = some record ∧ record.content = content ∧
        ∀ other ∈ page.records, compare other.user record.user = .lt)
  /-- There are no more pages than it takes to show the records. -/
  length_le : sweep.pages.length ≤
    pagesFor (start.state.records.filter (·.content = content)).length
      (min limit start.limits.pageItems)
  /-- With as many pages there is no next one, and not before. -/
  ended_iff : sweep.next = none ↔ sweep.pages.length =
    pagesFor (start.state.records.filter (·.content = content)).length
      (min limit start.limits.pageItems)
  /-- Until then the store has an answer, unless it is switched off. -/
  goesOn : ∀ position, sweep.next = some position → sweep.store.available = true →
    ∃ page, sweep.store.answer (.queryEngagement ⟨content, limit, position⟩) =
      (.ok page, sweep.store)
  /-- Hence reading on leads to the end. -/
  ends : sweep.store.available = true →
    ∃ last, Relation.ReflTransGen (Step content limit) sweep last ∧ last.next = none

/-! ### Numbers of pages -/

theorem pagesFor_eq {pages rest size : Nat} (positive : 0 < size) (fits : rest ≤ size)
    (more : pages = 0 ∨ 0 < rest) : pagesFor (pages * size + rest) size = pages + 1 := by
  have hdiv : (pages * size + rest + size - 1) / size = pages + (rest + size - 1) / size := by
    rw [Nat.add_assoc, Nat.add_sub_assoc (by omega), Nat.mul_comm, Nat.mul_add_div positive]
  rw [pagesFor, hdiv]
  obtain rfl | hrest := Nat.eq_zero_or_pos rest
  · rw [Nat.div_eq_of_lt (by omega)]
    omega
  · have hone : (rest + size - 1) / size = 1 := Nat.div_eq_of_lt_le (by omega) (by omega)
    omega

theorem pagesFor_mono {records more : Nat} (h : records ≤ more) (size : Nat) :
    pagesFor records size ≤ pagesFor more size :=
  max_le_max (Nat.le_refl 1) (Nat.div_le_div_right (by omega))

theorem lt_pagesFor {pages rest size : Nat} (positive : 0 < size) (more : pages = 0 ∨ 0 < rest) :
    pages < pagesFor (pages * size + rest) size := by
  obtain hfits | hmore := Nat.le_total rest size
  · rw [pagesFor_eq positive hfits more]
    exact Nat.lt_succ_self pages
  · refine Nat.lt_of_lt_of_le ?_ (pagesFor_mono (Nat.add_le_add_left hmore _) size)
    rw [pagesFor_eq positive (Nat.le_refl size) (.inr positive)]
    exact Nat.lt_succ_self pages

/-! ### Steps -/

variable {sweep : Sweep} {start later : MemoryStore} {content : ContentId} {limit : Nat}
  {position : Option UserId} {page : EngagementPage} {user : UserId}

/-- The sweep with one more page. -/
def add (sweep : Sweep) (page : EngagementPage) : Sweep :=
  { sweep with pages := sweep.pages ++ [page] }

@[simp]
theorem shown_add (sweep : Sweep) (page : EngagementPage) :
    (sweep.add page).shown = sweep.shown ++ page.records := by
  simp [add, shown]

@[simp]
theorem next_add (sweep : Sweep) (page : EngagementPage) :
    (sweep.add page).next = page.lastEvaluated.map some := by
  simp [add, next]

theorem forall_mem_add {P : EngagementPage → Prop} (old : ∀ other ∈ sweep.pages, P other)
    (new : P page) : ∀ other ∈ (sweep.add page).pages, P other :=
  List.forall_mem_append.2 ⟨old, List.forall_mem_singleton.2 new⟩

theorem ahead_of_next (h : sweep.next = some position) (content : ContentId) :
    sweep.ahead content = sweep.store.state.recordsAfter content position := by
  rw [ahead, h]

theorem ahead_of_ended (h : sweep.next = none) (content : ContentId) :
    sweep.ahead content = [] := by
  rw [ahead, h]

/-- What a sweep keeps to: what has been shown and what is ahead are together the records that the
item had at the start, and every page that is followed by another one is full. -/
structure Tracks (sweep : Sweep) (start : MemoryStore) (content : ContentId) (limit : Nat) :
    Prop where
  part : sweep.store.state.PartOf start.state
  pageItems : sweep.store.pageItems = start.pageItems
  whole : sweep.shown ++ sweep.ahead content = start.state.recordsAfter content none
  sizes : ∀ page ∈ sweep.pages, page.records.length ≤ min limit start.limits.pageItems
  filled : ∀ page ∈ sweep.pages, page.records = [] → start.state.recordsAfter content none = []
  more : sweep.next ≠ none → sweep.pages = [] ∨ sweep.ahead content ≠ []
  full : sweep.next ≠ none →
    sweep.shown.length = sweep.pages.length * min limit start.limits.pageItems
  last : sweep.next = none → sweep.pages.length =
    pagesFor (start.state.recordsAfter content none).length (min limit start.limits.pageItems)

theorem tracks_start (start : MemoryStore) (content : ContentId) (limit : Nat) :
    Tracks ⟨start, []⟩ start content limit where
  part := .refl _
  pageItems := rfl
  whole := rfl
  sizes _ h := by cases h
  filled _ h := by cases h
  more _ := .inl rfl
  full _ := (Nat.zero_mul _).symm
  last h := by cases h

theorem Tracks.limits_pageItems (tracks : sweep.Tracks start content limit) :
    sweep.store.limits.pageItems = start.limits.pageItems :=
  congrArg (max · 1) tracks.pageItems

theorem Tracks.pairwise (tracks : sweep.Tracks start content limit) (keyed : start.state.Keyed) :
    (sweep.shown ++ sweep.ahead content).Pairwise fun a b => compare a.user b.user = .lt :=
  tracks.whole ▸ StoreState.recordsAfter_pairwise keyed content none

/-- A page that shows all that is ahead is the last one. -/
theorem Tracks.add_last (tracks : sweep.Tracks start content limit) (goesOn : sweep.next ≠ none)
    (positive : 0 < min limit start.limits.pageItems) (hlast : page.lastEvaluated = none)
    (hrecords : page.records = sweep.ahead content)
    (hsize : page.records.length ≤ min limit start.limits.pageItems) :
    (sweep.add page).Tracks start content limit := by
  have hnext : (sweep.add page).next = none := by rw [next_add, hlast, Option.map_none]
  have hwhole := tracks.whole
  have hmore := tracks.more goesOn
  rw [← hrecords] at hwhole hmore
  refine {
    part := tracks.part
    pageItems := tracks.pageItems
    whole := ?_
    sizes := forall_mem_add tracks.sizes hsize
    filled := forall_mem_add tracks.filled fun hnil => ?_
    more := absurd hnext
    full := absurd hnext
    last := fun _ => ?_ }
  · rw [ahead_of_ended hnext content, List.append_nil, shown_add, hwhole]
  · have hpages := hmore.resolve_right (not_not_intro hnil)
    rw [← hwhole, hnil, shown, hpages]
    rfl
  · have hrest : sweep.pages.length = 0 ∨ 0 < page.records.length :=
      hmore.imp List.length_eq_zero_iff.2 List.length_pos_of_ne_nil
    rw [← hwhole, List.length_append, tracks.full goesOn, pagesFor_eq positive hsize hrest]
    exact List.length_append

/-- A page that shows the first part of what is ahead is full, and the others remain ahead. -/
theorem Tracks.add_full (tracks : sweep.Tracks start content limit) (goesOn : sweep.next ≠ none)
    (positive : 0 < min limit start.limits.pageItems) (hlast : page.lastEvaluated = some user)
    (hrecords : page.records ++ sweep.store.state.recordsAfter content (some user) =
      sweep.ahead content)
    (hrest : sweep.store.state.recordsAfter content (some user) ≠ [])
    (hsize : page.records.length = min limit start.limits.pageItems) :
    (sweep.add page).Tracks start content limit := by
  have hnext : (sweep.add page).next = some (some user) := by
    rw [next_add, hlast, Option.map_some]
  have hahead : (sweep.add page).ahead content =
      sweep.store.state.recordsAfter content (some user) := ahead_of_next hnext content
  refine {
    part := tracks.part
    pageItems := tracks.pageItems
    whole := ?_
    sizes := forall_mem_add tracks.sizes hsize.le
    filled := forall_mem_add tracks.filled fun hnil => ?_
    more := fun _ => .inr (hahead ▸ hrest)
    full := fun _ => ?_
    last := fun hended => ?_ }
  · rw [hahead, shown_add, List.append_assoc, hrecords, tracks.whole]
  · rw [hnil, List.length_nil] at hsize
    omega
  · rw [shown_add, List.length_append, tracks.full goesOn, hsize, add, List.length_append,
      List.length_singleton, Nat.succ_mul]
  · rw [hnext] at hended
    cases hended

end Sweep

theorem MemoryStore.answer_queryEngagement {store : MemoryStore}
    (available : store.available = true) (query : EngagementQuery) :
    store.answer (.queryEngagement query) =
      (store.state.queryEngagement store.limits query, store) := by
  rw [answer, if_pos available, StoreState.perform]
  cases store.state.queryEngagement store.limits query <;> rfl

theorem MemoryStore.queryEngagement_of_answer {store later : MemoryStore} {query : EngagementQuery}
    {page : EngagementPage} (h : store.answer (.queryEngagement query) = (.ok page, later)) :
    store.state.queryEngagement store.limits query = .ok page ∧ later = store := by
  cases available : store.available with
  | false =>
    rw [answer_of_unavailable available] at h
    cases h
  | true =>
    rw [answer_queryEngagement available, Prod.mk.injEq] at h
    exact ⟨h.1, h.2.symm⟩

namespace Sweep

variable {sweep : Sweep} {start later : MemoryStore} {content : ContentId} {limit : Nat}
  {position : Option UserId} {page : EngagementPage}

/-- A page shows the first records that are ahead. -/
theorem Tracks.read (tracks : sweep.Tracks start content limit) (keyed : start.state.Keyed)
    (next : sweep.next = some position)
    (hpage : sweep.store.state.queryEngagement sweep.store.limits ⟨content, limit, position⟩ =
      .ok page) : (sweep.add page).Tracks start content limit := by
  have goesOn : sweep.next ≠ none := by simp [next]
  have hahead := ahead_of_next next content
  have positive := (StoreState.queryEngagement_eq_ok hpage).1
  have hcases := StoreState.queryEngagement_cases (tracks.part.keyed keyed) hpage
  rw [tracks.limits_pageItems] at positive hcases
  obtain ⟨hlast, hrecords, hsize⟩ | ⟨user, hlast, hrecords, hrest, hsize⟩ := hcases
  · exact tracks.add_last goesOn positive hlast (hrecords.trans hahead.symm) hsize
  · exact tracks.add_full goesOn positive hlast (hrecords.trans hahead.symm) hrest hsize

/-- The removal of records that have been shown leaves those ahead as they are. -/
theorem Tracks.remove (tracks : sweep.Tracks start content limit) (keyed : start.state.Keyed)
    {keys : List EngagementKey} (shown : keys ⊆ sweep.shown.map (·.key))
    (state : later.state = sweep.store.state.removeRecords keys)
    (pageItems : later.pageItems = sweep.store.pageItems) :
    Tracks ⟨later, sweep.pages⟩ start content limit := by
  have hsame : next ⟨later, sweep.pages⟩ = sweep.next := rfl
  have hahead : ahead ⟨later, sweep.pages⟩ content = sweep.ahead content := by
    cases hnext : sweep.next with
    | none => rw [ahead_of_ended hnext, ahead_of_ended (hsame.trans hnext)]
    | some position =>
      -- what is ahead comes after all that has been shown, so none of it is removed
      have hself := ahead_of_next hnext content
      rw [hself, ahead_of_next (hsame.trans hnext), state]
      refine StoreState.recordsAfter_removeRecords (tracks.part.keyed keyed)
        fun record hrecord hkey => ?_
      obtain ⟨other, hother, heq⟩ := List.mem_map.1 (shown hkey)
      have hlt : compare other.user record.user = .lt :=
        (List.pairwise_append.1 (tracks.pairwise keyed)).2.2 other hother record (hself ▸ hrecord)
      have huser : other.user = record.user := congrArg EngagementKey.user heq
      simp [huser, ReflCmp.compare_self] at hlt
  refine {
    part := ?_
    pageItems := pageItems.trans tracks.pageItems
    whole := ?_
    sizes := tracks.sizes
    filled := tracks.filled
    more := ?_
    full := tracks.full
    last := tracks.last }
  · rw [state]
    exact (StoreState.PartOf.removeRecords _ keys).trans tracks.part
  · rw [hahead]
    exact tracks.whole
  · rw [hahead]
    exact tracks.more

/-- Each step keeps to what a sweep keeps to. -/
theorem Tracks.step {later : Sweep} (tracks : sweep.Tracks start content limit)
    (keyed : start.state.Keyed) (step : Step content limit sweep later) :
    later.Tracks start content limit := by
  cases step with
  | read next answer =>
    obtain ⟨hpage, rfl⟩ := MemoryStore.queryEngagement_of_answer answer
    exact tracks.read keyed next hpage
  | remove shown state pageItems => exact tracks.remove keyed shown state pageItems

theorem tracks_of_steps (keyed : start.state.Keyed)
    (steps : Relation.ReflTransGen (Step content limit) ⟨start, []⟩ sweep) :
    sweep.Tracks start content limit := by
  induction steps with
  | refl => exact tracks_start start content limit
  | tail _ step ih => exact ih.step keyed step

/-- A request for a batch of keys that have been shown is a removal, however much of the batch the
store does. -/
theorem Step.of_batch {keys : List EngagementKey} (shown : keys ⊆ sweep.shown.map (·.key)) :
    Step content limit sweep
      ⟨(sweep.store.answer (.deleteEngagements keys)).2, sweep.pages⟩ := by
  obtain ⟨state, heq, rfl | change⟩ := sweep.store.answer_eq (.deleteEngagements keys)
  · rw [heq]
    exact .remove (List.nil_subset _) rfl rfl
  · rw [heq]
    cases change with
    | read h => cases h
    | edit edits => cases edits
    | erase part => exact .remove (List.Subset.trans part shown) rfl rfl

/-! ### What has been enumerated -/

theorem next_of_pages {front : List EngagementPage} (h : sweep.pages = front ++ [page]) :
    sweep.next = page.lastEvaluated.map some := by
  simp [next, h]

theorem shown_of_pages {front : List EngagementPage} (h : sweep.pages = front ++ [page]) :
    sweep.shown = front.flatMap (·.records) ++ page.records := by
  simp [shown, h]

theorem Tracks.exists_beyond (tracks : sweep.Tracks start content limit)
    (keyed : start.state.Keyed) (hnext : sweep.next ≠ none) (hpages : sweep.pages ≠ []) :
    ∃ record, sweep.store.state.record? record.key = some record ∧ record.content = content ∧
      ∀ other ∈ sweep.shown, compare other.user record.user = .lt := by
  obtain ⟨position, hposition⟩ := Option.ne_none_iff_exists'.1 hnext
  obtain ⟨record, hrecord⟩ :=
    List.exists_mem_of_ne_nil _ ((tracks.more hnext).resolve_left hpages)
  have hcross := (List.pairwise_append.1 (tracks.pairwise keyed)).2.2
  obtain ⟨hstored, hcontent, -⟩ := (StoreState.mem_recordsAfter_iff (tracks.part.keyed keyed)).1
    (ahead_of_next hposition content ▸ hrecord)
  exact ⟨record, hstored, hcontent, fun other hother => hcross other hother record hrecord⟩

/-- When the last page names no user, no record of the item lies beyond that page. -/
theorem Tracks.not_beyond (tracks : sweep.Tracks start content limit) (keyed : start.state.Keyed)
    {front : List EngagementPage} (hpages : sweep.pages = front ++ [page])
    (hended : sweep.next = none) {record : EngagementRecord}
    (hstored : sweep.store.state.record? record.key = some record)
    (hcontent : record.content = content) :
    ¬∀ other ∈ page.records, compare other.user record.user = .lt := by
  intro hafter
  have hwhole := tracks.whole
  have ordered := tracks.pairwise keyed
  rw [ahead_of_ended hended content, List.append_nil] at hwhole ordered
  have hrecord : record ∈ start.state.recordsAfter content none :=
    (StoreState.mem_recordsAfter_iff keyed).2
      ⟨tracks.part.records _ record hstored, hcontent, fun _ h => by cases h⟩
  -- a page without records is the only one, and then the item has no records
  have hpage : page.records ≠ [] := fun hnil => by
    rw [tracks.filled page (by simp [hpages]) hnil] at hrecord
    cases hrecord
  obtain ⟨other, hother⟩ := List.exists_mem_of_ne_nil _ hpage
  rw [← hwhole, shown_of_pages hpages, List.mem_append] at hrecord
  rw [shown_of_pages hpages] at ordered
  rcases hrecord with hbefore | hself
  · have hlt := (List.pairwise_append.1 ordered).2.2 record hbefore other hother
    have hgt := hafter other hother
    rw [OrientedCmp.gt_of_lt hlt] at hgt
    cases hgt
  · have hlt := hafter record hself
    simp [ReflCmp.compare_self] at hlt

/-- The last page names a user exactly if a record of the item lies beyond it. -/
theorem Tracks.beyond (tracks : sweep.Tracks start content limit) (keyed : start.state.Keyed)
    {front : List EngagementPage} (hpages : sweep.pages = front ++ [page]) :
    page.lastEvaluated.isSome = true ↔ ∃ record,
      sweep.store.state.record? record.key = some record ∧ record.content = content ∧
        ∀ other ∈ page.records, compare other.user record.user = .lt := by
  have hnext := next_of_pages hpages
  cases hlast : page.lastEvaluated with
  | some user =>
    have hgoesOn : sweep.next ≠ none := by simp [hnext, hlast]
    obtain ⟨record, hstored, hcontent, hafter⟩ :=
      tracks.exists_beyond keyed hgoesOn (by simp [hpages])
    refine iff_of_true rfl ⟨record, hstored, hcontent, fun other hother => hafter other ?_⟩
    exact shown_of_pages hpages ▸ List.mem_append_right _ hother
  | none =>
    have hended : sweep.next = none := by rw [hnext, hlast, Option.map_none]
    refine iff_of_false Bool.false_ne_true ?_
    rintro ⟨record, hstored, hcontent, hafter⟩
    exact tracks.not_beyond keyed hpages hended hstored hcontent hafter

/-- A sweep takes as many pages as the records need, and ends with the last of these. -/
theorem Tracks.length_cases (tracks : sweep.Tracks start content limit)
    (positive : 0 < min limit start.limits.pageItems) :
    let needed := pagesFor (start.state.recordsAfter content none).length
      (min limit start.limits.pageItems)
    sweep.next = none ∧ sweep.pages.length = needed ∨
      sweep.next ≠ none ∧ sweep.pages.length < needed := by
  by_cases hnext : sweep.next = none
  · exact .inl ⟨hnext, tracks.last hnext⟩
  · have hmore : sweep.pages.length = 0 ∨ 0 < (sweep.ahead content).length :=
      (tracks.more hnext).imp List.length_eq_zero_iff.2 List.length_pos_of_ne_nil
    have hlt := lt_pagesFor positive hmore
    rw [← tracks.full hnext, ← List.length_append, tracks.whole] at hlt
    exact .inr ⟨hnext, hlt⟩

theorem Tracks.exists_answer (tracks : sweep.Tracks start content limit)
    (positive : 0 < min limit start.limits.pageItems) (available : sweep.store.available = true)
    (position : Option UserId) :
    ∃ page, sweep.store.answer (.queryEngagement ⟨content, limit, position⟩) =
      (.ok page, sweep.store) := by
  have hlimit : min limit sweep.store.limits.pageItems ≠ 0 := by
    rw [tracks.limits_pageItems]
    exact positive.ne'
  rw [MemoryStore.answer_queryEngagement available, StoreState.queryEngagement]
  dsimp only
  rw [if_neg hlimit]
  exact ⟨_, rfl⟩

/-- Reading on leads to the end, since no more pages are read than the records need. -/
theorem Tracks.exists_ended (tracks : sweep.Tracks start content limit)
    (keyed : start.state.Keyed) (positive : 0 < min limit start.limits.pageItems)
    (available : sweep.store.available = true) (left : Nat)
    (enough : pagesFor (start.state.recordsAfter content none).length
      (min limit start.limits.pageItems) ≤ sweep.pages.length + left) :
    ∃ last, Relation.ReflTransGen (Step content limit) sweep last ∧ last.next = none := by
  -- induction on the number of pages that may still be read
  induction left generalizing sweep with
  | zero =>
    obtain ⟨hnext, -⟩ | ⟨-, hlt⟩ := tracks.length_cases positive
    · exact ⟨sweep, .refl, hnext⟩
    · omega
  | succ left ih =>
    cases hnext : sweep.next with
    | none => exact ⟨sweep, .refl, hnext⟩
    | some position =>
      obtain ⟨page, answer⟩ := tracks.exists_answer positive available position
      have hstep : Step content limit sweep (sweep.add page) := .read hnext answer
      have hlength : (sweep.add page).pages.length = sweep.pages.length + 1 := List.length_append
      obtain ⟨last, steps, hended⟩ := ih (tracks.step keyed hstep) available (by omega)
      exact ⟨last, .head hstep steps, hended⟩

/-- The records of an item are read page by page, each page after the user that the one before it
names, while records that have been shown are removed. Whatever the limits are, the pages come to an
end, and together they show every record that the item had at the start once. -/
theorem enumerates_records (reachable : start.Reachable) (positive : 0 < limit)
    (steps : Relation.ReflTransGen (Step content limit) ⟨start, []⟩ sweep) :
    sweep.Enumerates start content limit := by
  have keyed := reachable.keyed
  have tracks := tracks_of_steps keyed steps
  have hrecords := StoreState.recordsAfter_none keyed content
  have hsize : 0 < min limit start.limits.pageItems :=
    Nat.lt_min.2 ⟨positive, start.limits.pageItems_pos⟩
  have hlength := tracks.length_cases hsize
  rw [hrecords] at hlength
  refine {
    shows := ?_
    ordered := (List.pairwise_append.1 (tracks.pairwise keyed)).1
    complete := fun hended => ?_
    sizes := tracks.sizes
    beyond := fun _ _ => tracks.beyond keyed
    length_le := hlength.elim (fun h => h.2.le) fun h => h.2.le
    ended_iff := ?_
    goesOn := fun position _ available => tracks.exists_answer hsize available position
    ends := fun available =>
      tracks.exists_ended keyed hsize available _ (Nat.le_add_left _ _) }
  · rw [← hrecords, ← tracks.whole]
    exact List.prefix_append _ _
  · rw [← hrecords, ← tracks.whole, ahead_of_ended hended content, List.append_nil]
  · exact ⟨fun h => (hlength.resolve_right fun h' => h'.1 h).2,
      fun h => by_contra fun hnext => absurd h (hlength.resolve_left fun h' => hnext h'.1).2.ne⟩

end Sweep

namespace Sample

/-- A record of a user on an item, before it is stored. -/
def recordOn (name : String) (item : Nat) : EngagementRecord :=
  .neutral ⟨name⟩ ⟨⟨.ofNat 1⟩, ⟨.ofNat item⟩⟩ ⟨.ofNat 1⟩

/-- A store that shows two records at a time, with three records on one item, one of them that of
the user with the empty name, and one on another item. -/
def sweptStore : MemoryStore :=
  [recordOn "ben" 2, recordOn "" 2, recordOn "ann" 3, recordOn "ann" 2].foldl
    (fun store record => (store.answer (.putEngagement record)).2) { pageItems := 2 }

/-- The first page of the records on the item. -/
def firstPage : EngagementPage :=
  ⟨[(recordOn "" 2).written, (recordOn "ann" 2).written], some ⟨"ann"⟩⟩

/-- The second page is read when the records on the first one have gone. -/
def swept : Sweep where
  store := (sweptStore.answer (.deleteEngagements (firstPage.records.map (·.key)))).2
  pages := [firstPage, ⟨[(recordOn "ben" 2).written], none⟩]

theorem swept_steps : Relation.ReflTransGen (Sweep.Step ⟨.ofNat 2⟩ 25) ⟨sweptStore, []⟩ swept := by
  have read : Sweep.Step ⟨.ofNat 2⟩ 25 ⟨sweptStore, []⟩ ⟨sweptStore, [firstPage]⟩ :=
    .read rfl (by decide +kernel)
  have removed : Sweep.Step ⟨.ofNat 2⟩ 25 ⟨sweptStore, [firstPage]⟩ ⟨swept.store, [firstPage]⟩ :=
    .of_batch (List.Subset.refl _)
  have readOn : Sweep.Step ⟨.ofNat 2⟩ 25 ⟨swept.store, [firstPage]⟩ swept :=
    .read rfl (by decide +kernel)
  exact ((Relation.ReflTransGen.single read).tail removed).tail readOn

/-- The pages show the three records, although two of them have gone before the second page. -/
theorem swept_enumerates :
    sweptStore.Reachable ∧ 0 < 25 ∧
      Relation.ReflTransGen (Sweep.Step ⟨.ofNat 2⟩ 25) ⟨sweptStore, []⟩ swept ∧
      swept.Enumerates sweptStore ⟨.ofNat 2⟩ 25 ∧ swept.next = none ∧
      swept.shown.map (·.user.name) = ["", "ann", "ben"] ∧
      swept.store.state.records.map (·.user.name) = ["ben", "ann"] := by
  have reachable : sweptStore.Reachable :=
    ((((MemoryStore.Reachable.new rfl).answer _).answer _).answer _).answer _
  exact ⟨reachable, by decide, swept_steps,
    Sweep.enumerates_records reachable (by decide) swept_steps, rfl, rfl, by decide +kernel⟩

end Sample

end HiveForum
