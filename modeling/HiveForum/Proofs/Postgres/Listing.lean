import HiveForum.Postgres.Store
import HiveForum.Proofs.Browse.Walking
import HiveForum.Proofs.Postgres.Committing

/-!
# Both stores serve the same listings

The database drops the items that do not match before it counts a page, and takes a full page to
mean that there may be more. The store in memory counts first, and knows where the index ends.
Either way a page continues the listing, so that a scan shows the same items over both; at most it
names a position from which to go on over one of them when nothing follows.

## Main definitions

* `Postgres.candidates`: the rows that a page is taken from.
* `Postgres.Store.world`, `MemoryStore.world`: worlds whose store is a database, or is in memory.

## Main results

* `Postgres.holds_pageCondition`: the rows that the database puts on a page.
* `HoldsItems.map_shown_mergeSort`: put in order, these rows show the listing.
* `Postgres.run_queryContent`: what the database answers shows the first items of the listing.
* `Scan.served_alike`: scans over both stores show the same items.
-/

namespace HiveForum

open Sql

namespace Sql

/-! ### Rows in order -/

theorem Value.orderLines?_pair {a b c d : Value} {first second : Ordering}
    (hfirst : a.order? c = some first) (hsecond : b.order? d = some second) :
    orderLines? [a, b] [c, d] = some (first.then second) := by
  rw [orderLines?, hfirst]
  cases first
  · rfl
  · dsimp only
    rw [orderLines?, hsecond]
    cases second <;> rfl
  · rfl

end Sql

namespace Postgres

variable {row : Row} {item : ContentItem}

theorem value?_sortColumn (shows : row.ShowsItem item) (sort : SortKey) :
    row.value? (sortColumn sort) = some (.bigint (item.sortValue sort)) := by
  cases sort
  · exact shows.createdAt
  · exact shows.lastActivityAt

theorem orderLines?_position (a b : IndexKey) :
    Value.orderLines? [.bigint a.sortValue, .uuid a.id.uuid]
      [.bigint b.sortValue, .uuid b.id.uuid] = some (compare a b) := Value.orderLines?_pair rfl rfl

/-- Rows are ordered as the items that they show are. -/
theorem precedes_eq {row' : Row} {item' : ContentItem} (shows : row.ShowsItem item)
    (shows' : row'.ShowsItem item') (sort : SortKey) (direction : Direction) :
    Row.precedes [sortColumn sort, .contentId] direction row row' =
      ContentItem.precedes sort direction item item' := by
  have hlines : Value.orderLines?
      ([sortColumn sort, .contentId].map fun column => (row.value? column).getD .null)
      ([sortColumn sort, .contentId].map fun column => (row'.value? column).getD .null) =
        some (compare (item.indexKey sort) (item'.indexKey sort)) := by
    simp only [List.map_cons, List.map_nil, value?_sortColumn shows, value?_sortColumn shows',
      shows.id, shows'.id]
    exact orderLines?_position (item.indexKey sort) (item'.indexKey sort)
  simp only [Row.precedes, hlines, ContentItem.precedes]
  cases direction with
  | ascending =>
    change _ = (compare (item.indexKey sort) (item'.indexKey sort)).isLE
    cases compare (item.indexKey sort) (item'.indexKey sort) <;> rfl
  | descending =>
    change _ = (compare (item'.indexKey sort) (item.indexKey sort)).isLE
    have hswap : compare (item'.indexKey sort) (item.indexKey sort) =
        (compare (item.indexKey sort) (item'.indexKey sort)).swap := Std.OrientedCmp.eq_swap
    rw [hswap]
    cases compare (item.indexKey sort) (item'.indexKey sort) <;> rfl

/-! ### The rows of a page -/

theorem beq_wanted_passed (direction : Direction) (candidate position : IndexKey) :
    (compare candidate position == (passed direction).wanted) =
      direction.isAfter candidate position := by
  cases direction with
  | ascending => rfl
  | descending =>
    have hswap : compare position candidate = (compare candidate position).swap :=
      Std.OrientedCmp.eq_swap
    change (compare candidate position == .lt) = (compare position candidate == .gt)
    rw [hswap]
    cases compare candidate position <;> rfl

/-- The columns of the row are compared with the position as its position is. -/
theorem truth_passed (shows : row.ShowsItem item) {query : ContentQuery} {start : IndexKey}
    (hstart : query.startAfter = some start) :
    (Condition.compare (passed query.direction)
      [.column (sortColumn query.sort), .column .contentId]
      [.param 2, .typed (.param 3) .uuid]).truth (queryContent query).params row =
        some (query.direction.isAfter (item.indexKey query.sort) start) := by
  have hleft : [Term.column (sortColumn query.sort), .column .contentId].mapM
      (Term.value? (queryContent query).params row) =
        some [.bigint (item.indexKey query.sort).sortValue,
          .uuid (item.indexKey query.sort).id.uuid] := by
    simp only [List.mapM_cons, Term.value?, value?_sortColumn shows, shows.id]
    rfl
  have hright : [Term.param 2, .typed (.param 3) .uuid].mapM
      (Term.value? (queryContent query).params row) =
        some [.bigint start.sortValue, .uuid start.id.uuid] := by
    simp only [List.mapM_cons, Term.value?, queryContent, hstart]
    rfl
  rw [Condition.truth, hleft, hright]
  change (Value.orderLines? _ _).bind _ = _
  rw [orderLines?_position]
  exact congrArg some (beq_wanted_passed query.direction (item.indexKey query.sort) start)

/-- The row lies past the position that a walk resumes after, if there is one. -/
theorem truth_past (shows : row.ShowsItem item) (query : ContentQuery) :
    (Condition.either (.isNull (.typed (.param 2) .bigint))
      (.compare (passed query.direction) [.column (sortColumn query.sort), .column .contentId]
        [.param 2, .typed (.param 3) .uuid])).truth (queryContent query).params row =
      some (query.direction.isPast query.startAfter (item.indexKey query.sort)) := by
  have hnull : (Condition.isNull (.typed (.param 2) .bigint)).truth (queryContent query).params
      row = some query.startAfter.isNone := by
    cases hstart : query.startAfter <;>
      simp [Condition.truth, Term.value?, queryContent, hstart, Value.ofBigint?]
  cases hstart : query.startAfter with
  | none =>
    rw [hstart] at hnull
    rw [Condition.truth, hnull]
    -- a comparison with null is unknown, which makes no difference here
    cases (Condition.compare (passed query.direction)
      [.column (sortColumn query.sort), .column .contentId]
      [.param 2, .typed (.param 3) .uuid]).truth (queryContent query).params row with
    | none => rfl
    | some b => cases b <;> rfl
  | some start =>
    rw [Condition.truth_either hnull (truth_passed shows hstart), hstart]
    rfl

theorem beq_zero_int64_size (tags : SortedSet TagId) :
    (compare (Saturating.int64 tags.size) (Int64.ofNat 0) == .eq) = tags.isEmpty := by
  have hzero : Saturating.int64 tags.size = Int64.ofNat 0 ↔ tags.toList = [] := by
    have hofNat : (Int64.ofNat 0).toInt = 0 := rfl
    rw [← Int64.toInt_inj, Saturating.toInt_int64, hofNat, Saturating.clamp, SortedSet.size,
      ← List.length_eq_zero_iff]
    omega
  rw [Bool.eq_iff_iff, beq_iff_eq, Std.LawfulEqOrd.compare_eq_iff_eq, hzero, SortedSet.isEmpty,
    List.isEmpty_iff]

/-- The row has one of the tags of the filter, if there are any. -/
theorem truth_tags (shows : row.ShowsItem item) (query : ContentQuery) :
    (Condition.either (.equal (.cardinality (.typed (.param 4) .uuids)) (.integer 0))
      (.overlaps (.column .tagIds) (.typed (.param 4) .uuids))).truth (queryContent query).params
        row = some (item.matchesTags query.tags) := by
  obtain ⟨ids, hids, htags⟩ := shows.tags
  let filter := query.tags.toList.map TagId.uuid
  have hparam : (Term.typed (.param 4) .uuids).value? (queryContent query).params row =
      some (.uuids filter) := rfl
  have hcardinality : (Term.cardinality (.typed (.param 4) .uuids)).value?
      (queryContent query).params row = some (.bigint (Saturating.int64 query.tags.size)) := by
    have hlength : (filter.map Value.uuid).length = query.tags.size := by
      rw [List.length_map, List.length_map]
      rfl
    rw [Term.value?, hparam, ← hlength]
    rfl
  have hempty : (Condition.equal (.cardinality (.typed (.param 4) .uuids)) (.integer 0)).truth
      (queryContent query).params row = some query.tags.isEmpty := by
    rw [Condition.truth, hcardinality]
    exact congrArg some (beq_zero_int64_size query.tags)
  have hoverlaps : (Condition.overlaps (.column .tagIds) (.typed (.param 4) .uuids)).truth
      (queryContent query).params row = some (query.tags.toList.any item.tags.contains) := by
    rw [Condition.truth, hparam, Term.value?, hids]
    refine congrArg some (Bool.eq_iff_iff.2 ?_)
    rw [List.any_eq_true, List.any_eq_true, ← htags]
    constructor
    · rintro ⟨_, hrow, hmem⟩
      obtain ⟨id, hid, rfl⟩ := List.mem_map.1 hrow
      obtain ⟨_, hfilter, heq⟩ := List.mem_map.1 (List.contains_iff_mem.1 hmem)
      obtain ⟨tag, htag, rfl⟩ := List.mem_map.1 hfilter
      cases heq
      exact ⟨tag, htag, SortedSet.contains_iff.2 (SortedSet.mem_ofList.2 (List.mem_map_of_mem hid))⟩
    · rintro ⟨tag, htag, hcontains⟩
      obtain ⟨id, hid, rfl⟩ :=
        List.mem_map.1 (SortedSet.mem_ofList.1 (SortedSet.contains_iff.1 hcontains))
      exact ⟨.uuid id, List.mem_map_of_mem hid, List.contains_iff_mem.2
        (List.mem_map_of_mem (List.mem_map_of_mem htag))⟩
  exact Condition.truth_either hempty hoverlaps

/-- The rows of a page are those of the items of the scope that a walk comes by after the position,
and that match the filter. -/
theorem holds_pageCondition (shows : row.ShowsItem item) (query : ContentQuery) :
    (pageCondition (sortColumn query.sort) query.direction).holds (queryContent query).params row =
      (decide (item.scope = query.scope) &&
        query.direction.isPast query.startAfter (item.indexKey query.sort) &&
        item.matchesTags query.tags) := by
  have hscope : (matching .scopeId 1).truth (queryContent query).params row = _ :=
    truth_matching shows.scope rfl rfl
  rw [pageCondition, Condition.holds_of_truth (Condition.truth_both
    (Condition.truth_both hscope (truth_past shows query)) (truth_tags shows query))]
  congr 2
  rw [decide_eq_decide, Value.uuid.injEq]
  obtain ⟨⟨scope⟩, _⟩ := query
  obtain ⟨⟨scope'⟩, _⟩ := item
  simp

/-- The rows that a page is taken from, before they are put in order. -/
def candidates (rows : List Row) (query : ContentQuery) : List Row :=
  rows.filter ((pageCondition (sortColumn query.sort) query.direction).holds
    (queryContent query).params)

end Postgres

/-- The item that a row shows, if it shows one. -/
def Sql.Row.shown (row : Row) : ContentItem := (ContentItem.ofRow row).toOption.getD default

theorem Sql.Row.ShowsItem.shown_eq {row : Row} {item : ContentItem} (shows : row.ShowsItem item) :
    row.shown = item := by
  rw [Row.shown, ContentItem.ofRow_eq_ok_iff.2 shows]
  rfl

namespace HoldsItems

open Postgres

variable {rows : List Row} {store : StoreState} {row : Row}

theorem filed (holds : HoldsItems rows store) : store.Filed :=
  fun key item hitem => (holds.complete key item hitem).1

/-- Each row shows an item of the store. -/
theorem shows (holds : HoldsItems rows store) (hrow : row ∈ rows) : row.ShowsItem row.shown := by
  obtain ⟨item, hread, -⟩ := holds.sound row hrow
  have hshows := ContentItem.ofRow_eq_ok_iff.1 hread
  exact hshows.shown_eq.symm ▸ hshows

theorem item?_shown (holds : HoldsItems rows store) (hrow : row ∈ rows) :
    store.item? row.shown.key = some row.shown :=
  holds.found hrow (ContentItem.ofRow_eq_ok_iff.2 (holds.shows hrow))

theorem mem_candidates_iff (holds : HoldsItems rows store) (query : ContentQuery) :
    row ∈ candidates rows query ↔ row ∈ rows ∧ row.shown.scope = query.scope ∧
      query.direction.isPast query.startAfter (row.shown.indexKey query.sort) = true ∧
      row.shown.matchesTags query.tags = true := by
  rw [candidates, List.mem_filter]
  refine and_congr_right fun hrow => ?_
  rw [holds_pageCondition (holds.shows hrow) query, Bool.and_eq_true, Bool.and_eq_true,
    decide_eq_true_iff, and_assoc]

/-- The rows that a page is taken from show what is to be listed. -/
theorem mem_map_shown_candidates_iff (holds : HoldsItems rows store) {course : Course} {limit : Nat}
    {reached : Option IndexKey} {item : ContentItem} :
    item ∈ (candidates rows (course.query limit reached)).map Row.shown ↔
      item ∈ course.listed store reached := by
  rw [List.mem_map, Course.mem_listed_iff, Course.Finds, holds.filed.mem_scopeItems_iff]
  constructor
  · rintro ⟨row, hrow, rfl⟩
    obtain ⟨hmem, hscope, hpast, htags⟩ := (holds.mem_candidates_iff _).1 hrow
    exact ⟨⟨⟨holds.item?_shown hmem, hscope⟩, htags⟩, hpast⟩
  · rintro ⟨⟨⟨hitem, hscope⟩, htags⟩, hpast⟩
    obtain ⟨-, row, hmem, hread⟩ := holds.complete _ _ hitem
    have hshown := (ContentItem.ofRow_eq_ok_iff.1 hread).shown_eq
    refine ⟨row, (holds.mem_candidates_iff _).2 ⟨hmem, ?_⟩, hshown⟩
    rw [hshown]
    exact ⟨hscope, hpast, htags⟩

theorem candidates_pairwise (holds : HoldsItems rows store) (query : ContentQuery) :
    ((candidates rows query).map Row.shown).Pairwise fun a b => a.id ≠ b.id := by
  refine List.pairwise_map.2 ((holds.distinct.filter _).imp_of_mem fun {a b} ha hb hne hid => ?_)
  obtain ⟨hamem, hascope, -⟩ := (holds.mem_candidates_iff query).1 ha
  obtain ⟨hbmem, hbscope, -⟩ := (holds.mem_candidates_iff query).1 hb
  refine hne _ _ (ContentItem.ofRow_eq_ok_iff.2 (holds.shows hamem))
    (ContentItem.ofRow_eq_ok_iff.2 (holds.shows hbmem)) ?_
  rw [ContentItem.key, ContentItem.key, hascope, hbscope, hid]

/-- Put in order, they show the listing. -/
theorem map_shown_mergeSort (holds : HoldsItems rows store) (course : Course) (limit : Nat)
    (reached : Option IndexKey) :
    ((candidates rows (course.query limit reached)).mergeSort
      (Row.precedes [sortColumn course.sort, .contentId] course.direction)).map Row.shown =
        course.listed store reached := by
  have hshows : ∀ row ∈ candidates rows (course.query limit reached),
      row.ShowsItem row.shown := fun row hrow =>
    holds.shows ((holds.mem_candidates_iff _).1 hrow).1
  rw [List.map_mergeSort fun a ha b hb =>
    precedes_eq (hshows a ha) (hshows b hb) course.sort course.direction]
  exact Course.sort_eq_listed holds.filed (holds.candidates_pairwise _)
    fun _ => holds.mem_map_shown_candidates_iff

end HoldsItems

theorem Sql.DatabaseSession.setCurrent_current (session : DatabaseSession) :
    session.setCurrent session.current = session := by
  obtain ⟨committed, working⟩ := session
  cases working <;> rfl

namespace Postgres

variable {rows : List Row} {store : StoreState} {database : Database} {session : DatabaseSession}
  {course : Course} {limit : Nat} {reached : Option IndexKey}

theorem mapM_ofRow_project (shows : ∀ row ∈ rows, row.ShowsItem row.shown) :
    (rows.map (Row.project Relation.contentItems.columns)).mapM ContentItem.ofRow =
      .ok (rows.map Row.shown) := by
  induction rows with
  | nil => rfl
  | cons row rows ih =>
    obtain ⟨hrow, hrows⟩ := List.forall_mem_cons.1 shows
    rw [List.map_cons, List.mapM_cons, ContentItem.ofRow_eq_ok_iff.2 hrow.project, ih hrows]
    rfl

theorem cut_rowLimit {params : List Value} {position : Nat}
    (hparam : params[position - 1]? = some (rowLimit limit))
    (fits : min limit rows.length ≤ 9223372036854775807) :
    cut params (some (.param position)) rows = rows.take limit := by
  have hcut : cut params (some (.param position)) rows =
      rows.take (Saturating.int64 limit).toInt.toNat := by
    rw [cut, Option.bind_some, Term.value?, hparam]
    rfl
  rw [hcut, List.take_eq_take_iff, Saturating.toInt_int64, Saturating.clamp]
  omega

/-- The rows that the database answers with show the first items that are to be listed. -/
theorem run_queryContent (holds : HoldsItems database.contentItems store)
    (fits : min limit (store.scopeItems course.scope).length ≤ 9223372036854775807) :
    ∃ answer, (queryContent (course.query limit reached)).run database = (.ok answer, database) ∧
      everyRow ContentItem.ofRow answer = .ok ((course.listed store reached).take limit) := by
  let query := course.query limit reached
  let ordered := (candidates database.contentItems query).mergeSort
    (Row.precedes [sortColumn course.sort, .contentId] course.direction)
  have hshown : ordered.map Row.shown = course.listed store reached :=
    holds.map_shown_mergeSort course limit reached
  have hlength : ordered.length = (course.listed store reached).length := by
    rw [← hshown, List.length_map]
  have hfew := course.length_listed_le store reached
  have hcut : cut (queryContent query).params (some (.param 5)) ordered = ordered.take limit :=
    cut_rowLimit rfl (by omega)
  have hrun : (queryContent query).run database =
      (.ok ⟨(cut (queryContent query).params (some (.param 5)) ordered).map
        (Row.project Relation.contentItems.columns), _⟩, database) := rfl
  refine ⟨_, hrun, ?_⟩
  have hshows : ∀ row ∈ ordered.take limit, row.ShowsItem row.shown := fun row hrow =>
    holds.shows ((holds.mem_candidates_iff query).1
      (List.mem_mergeSort.1 (List.mem_of_mem_take hrow))).1
  rw [everyRow, hcut, mapM_ofRow_project hshows, List.map_take, hshown]

/-- A page that is full names the position of its last item, whether more follow or not. -/
theorem continues_take (filed : store.Filed) (pos : 0 < limit) :
    course.Continues store reached
      ⟨(course.listed store reached).take limit,
        resumePoint limit course.position ((course.listed store reached).take limit)⟩ := by
  refine ⟨fun hnone => ?_, fun next hsome => ?_⟩
  · dsimp only [resumePoint] at hnone ⊢
    split at hnone
    · rename_i hfull
      rw [List.getLast?_eq_none_iff.1 (Option.map_eq_none_iff.1 hnone), List.length_nil] at hfull
      omega
    · rename_i hfull
      rw [List.length_take] at hfull
      exact List.take_of_length_le (by omega)
  · dsimp only [resumePoint] at hsome
    split at hsome
    · obtain ⟨last, hlast, rfl⟩ := Option.map_eq_some_iff.1 hsome
      have hlisted := List.mem_of_mem_take (List.mem_of_getLast? hlast)
      rw [Course.listed_of_append filed (List.take_append_drop limit _).symm hlast,
        List.take_append_drop]
      exact ⟨rfl, Course.length_rest_lt filed (List.mem_filter.1 hlisted).1⟩
    · cases hsome

/-- A world with a database. -/
def Store.world {σ : Type} (others : World σ) : World (DatabaseSession × σ) :=
  others.withStore fun request session =>
    ((Store.answer {} DatabaseSession.peer request session).1.value,
      (Store.answer {} DatabaseSession.peer request session).2)

/-- A database answers by pages that continue the listing. -/
theorem Store.lists_world {σ : Type} (others : World σ) (state : σ)
    (holds : HoldsItems session.current.contentItems store) (pos : 0 < limit)
    (fits : min limit (store.scopeItems course.scope).length ≤ 9223372036854775807) :
    (Store.world others).Lists course limit store (session, state) := by
  refine World.lists_withStore state fun reached => ⟨_, ?_, continues_take holds.filed pos⟩
  obtain ⟨answer, hrun, hread⟩ := run_queryContent holds fits
  have hreply := DatabaseSession.reply_query hrun
  rw [DatabaseSession.setCurrent_current] at hreply
  have hplan : plan (.queryContent (course.query limit reached)) =
      one (queryContent (course.query limit reached)) fun answer =>
        (everyRow ContentItem.ofRow answer).bind fun items =>
          .ok ⟨items, resumePoint limit course.position items⟩ := if_neg (Nat.ne_of_gt pos)
  rw [Store.answer, if_pos rfl, hplan, one, Plan.run, hreply]
  dsimp only [answered, Except.bind]
  rw [hread]

end Postgres

/-- A world with a store in memory. -/
def MemoryStore.world {σ : Type} (others : World σ) : World (MemoryStore × σ) :=
  others.withStore fun request memory => memory.answer request

theorem MemoryStore.lists_world {σ : Type} (others : World σ) (state : σ) {memory : MemoryStore}
    {course : Course} {limit : Nat} (filed : memory.state.Filed)
    (available : memory.available = true) (pos : 0 < limit) :
    (MemoryStore.world others).Lists course limit memory.state (memory, state) := by
  refine World.lists_withStore state fun reached => ?_
  have hpos : (course.query limit reached).limit ≠ 0 := Nat.ne_of_gt pos
  obtain ⟨page, hpage⟩ : ∃ page,
      memory.state.queryContent memory.limits (course.query limit reached) = .ok page :=
    ⟨_, if_neg hpos⟩
  refine ⟨page, ?_, StoreState.continues_of_queryContent filed hpage⟩
  rw [answer, if_pos available, StoreState.perform, hpage]
  rfl

/-! ### Scans over both stores -/

/-- A database and a store in memory that hold the same items serve the same listings. Whatever the
page sizes are, a scan comes to an end over both of them with pages that agree, and all its pages
together show the same items in the same order. -/
theorem Scan.served_alike {σ : Type} (others : World σ) (state : σ) (settings : Settings)
    (scan : Scan) {session : DatabaseSession} {memory : MemoryStore} {rounds pages : Nat}
    (holds : HoldsItems session.current.contentItems memory.state)
    (available : memory.available = true)
    (fits : min (scan.roundSize settings) (memory.state.scopeItems scan.scope).length ≤
      9223372036854775807)
    (enoughRounds : (memory.state.scopeItems scan.scope).length < rounds)
    (enoughPages : (memory.state.scopeItems scan.scope).length < pages) :
    (∃ collected collected',
      (collect settings rounds scan).run (Postgres.Store.world others) (session, state) =
        (.ok collected, session, state) ∧
      (collect settings rounds scan).run (MemoryStore.world others) (memory, state) =
        (.ok collected', memory, state) ∧
      scan.course.Agree memory.state scan.startAfter scan.pageSize collected collected') ∧
    ∃ shown shown',
      (scan.drain settings rounds pages scan.startAfter).run (Postgres.Store.world others)
        (session, state) = (.ok shown, session, state) ∧
      (scan.drain settings rounds pages scan.startAfter).run (MemoryStore.world others)
        (memory, state) = (.ok shown', memory, state) ∧
      shown.flatMap (·.items) = shown'.flatMap (·.items) := by
  have filed := holds.filed
  have hpos : 0 < scan.roundSize settings := scan.query_limit_pos settings none
  have byDatabase : (Postgres.Store.world others).Lists scan.course (scan.roundSize settings)
      memory.state (session, state) := Postgres.Store.lists_world others state holds hpos fits
  have byMemory : (MemoryStore.world others).Lists scan.course (scan.roundSize settings)
      memory.state (memory, state) := MemoryStore.lists_world others state filed available hpos
  refine ⟨?_, ?_⟩
  · obtain ⟨collected, hrun, hcuts⟩ := scan.run_collect byDatabase filed enoughRounds
    obtain ⟨collected', hrun', hcuts'⟩ := scan.run_collect byMemory filed enoughRounds
    exact ⟨collected, collected', hrun, hrun', hcuts.agree hcuts'⟩
  · have enough := Nat.lt_of_le_of_lt
      (scan.course.length_listed_le memory.state scan.startAfter) enoughPages
    obtain ⟨shown, hrun, hshown⟩ := scan.run_drain byDatabase filed enoughRounds pages enough
    obtain ⟨shown', hrun', hshown'⟩ := scan.run_drain byMemory filed enoughRounds pages enough
    exact ⟨shown, shown', hrun, hrun', hshown.trans hshown'.symm⟩

namespace Sample

/-- The posts of the hive, one on each page. -/
def hiveScan : Scan := ⟨⟨.ofNat 1⟩, .created, .ascending, .empty, 1, none⟩

/-- The store in memory with the post and the vote. -/
def votedMemory : MemoryStore := { state := votedForum.store }

/-- What is not for the store. -/
def quietHost : Host := { stamps := ⟨0, 0⟩ }

/-- Both stores list the post, although only one of them knows that nothing follows it. -/
theorem hiveScan_served_alike :
    (∃ collected collected',
      (collect { storePageSize := 1 } 2 hiveScan).run (Postgres.Store.world (Host.world {}))
        (⟨votedDatabase, none⟩, quietHost) = (.ok collected, ⟨votedDatabase, none⟩, quietHost) ∧
      (collect { storePageSize := 1 } 2 hiveScan).run (MemoryStore.world (Host.world {}))
        (votedMemory, quietHost) = (.ok collected', votedMemory, quietHost) ∧
      hiveScan.course.Agree votedForum.store none 1 collected collected') ∧
    ∃ shown shown',
      (hiveScan.drain { storePageSize := 1 } 2 2 none).run (Postgres.Store.world (Host.world {}))
        (⟨votedDatabase, none⟩, quietHost) = (.ok shown, ⟨votedDatabase, none⟩, quietHost) ∧
      (hiveScan.drain { storePageSize := 1 } 2 2 none).run (MemoryStore.world (Host.world {}))
        (votedMemory, quietHost) = (.ok shown', votedMemory, quietHost) ∧
      shown.flatMap (·.items) = shown'.flatMap (·.items) := by
  have hone : (votedMemory.state.scopeItems hiveScan.scope).length = 1 := rfl
  have holds : HoldsItems (DatabaseSession.current ⟨votedDatabase, none⟩).contentItems
      votedMemory.state := votedDatabase_holds.items
  exact Scan.served_alike (Host.world {}) quietHost { storePageSize := 1 } hiveScan holds rfl
    (by decide) (by rw [hone]; decide) (by rw [hone]; decide)

end Sample

end HiveForum
