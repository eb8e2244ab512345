import HiveForum.Proofs.Browse.Partition
import HiveForum.Proofs.Forum.Lineage

/-!
# Reading pages while others write

Others may write to the store between any two calls of a client that reads a listing page by page,
and may delete the very item that a cursor points at. An item that is there all the time and does
not move is nevertheless read once, in its place. Only an index by last activity lets items move.

## Main definitions

* `ListRequest.Retains`: an item is still listed where it was.

## Main results

* `ListRequest.pages_stable`: such items are on the pages, each once and in order.
-/

namespace HiveForum

open Program

namespace ListRequest

/-- An item is still stored, and where the listing goes by activity there has been none on it. (The
time of creation never changes.) -/
def Retains (request : ListRequest) (item : ContentItem) (forum : Forum) : Prop :=
  ∃ now, forum.store.item? item.key = some now ∧
    (request.sort = .lastActivity → now.lastActivityAt = item.lastActivityAt)

/-- The forums that are met with while some items are kept: these are stored as what they were. -/
structure Keeping (request : ListRequest) (kept : ContentItem → Prop) (forum : Forum) : Prop where
  filed : forum.store.Filed
  kept : ∀ item, kept item → ∃ now, forum.store.item? item.key = some now ∧
    now.asCreated = item.asCreated ∧
      (request.sort = .lastActivity → now.lastActivityAt = item.lastActivityAt)

variable {request : ListRequest} {kept : ContentItem → Prop} {forum : Forum} {site : Site}
  {conditions : Conditions} {settings : Settings} {limits : List Int64} {pages : List ListPage}

theorem Keeping.of_answer {effect : Effect} {after : Forum} {reply : effect.Reply}
    (h : request.Keeping kept forum) (answer : site.Answer conditions effect forum reply after)
    (retained : ∀ item, kept item → request.Retains item after) : request.Keeping kept after where
  filed := answer.filed h.filed
  kept item hitem := by
    obtain ⟨before, hbefore, hsame, -⟩ := h.kept item hitem
    obtain ⟨now, hnow, hactivity⟩ := retained item hitem
    exact ⟨now, hnow, (answer.asCreated_eq hbefore hnow).trans hsame, hactivity⟩

theorem position_eq {item now : ContentItem} (same : now.asCreated = item.asCreated)
    (activity : request.sort = .lastActivity → now.lastActivityAt = item.lastActivityAt) :
    request.course.position now = request.course.position item := by
  have hid : now.id = item.id := ContentItem.field_eq same ContentItem.id fun _ => rfl
  have hvalue : now.sortValue request.sort = item.sortValue request.sort := by
    cases hsort : request.sort with
    | created => exact ContentItem.field_eq same ContentItem.createdAt fun _ => rfl
    | lastActivity => exact activity hsort
  have hposition : (⟨now.sortValue request.sort, now.id⟩ : IndexKey) =
      ⟨item.sortValue request.sort, item.id⟩ := by rw [hid, hvalue]
  exact hposition

theorem stays_of_kept {item : ContentItem} (hitem : kept item)
    (scope : item.scope = request.scope) (tags : item.matchesTags request.tags = true) :
    request.course.Stays (request.Keeping kept) (request.course.position item) := by
  intro forum h
  obtain ⟨now, hnow, hsame, hactivity⟩ := h.kept item hitem
  have hkey := h.filed _ now hnow
  have hstored : forum.store.item? now.key = some now := hkey ▸ hnow
  have hscope : now.scope = request.scope := (congrArg ContentKey.scope hkey).trans scope
  have htags : now.tags = item.tags := ContentItem.field_eq hsame ContentItem.tags fun _ => rfl
  refine ⟨now, ⟨h.filed.mem_scopeItems_iff.2 ⟨hstored, hscope⟩, ?_⟩, position_eq hsame hactivity⟩
  rw [ContentItem.matchesTags, htags]
  exact tags

theorem position_of_id {item shown : ContentItem} (hitem : kept item)
    (scope : item.scope = request.scope) (h : request.Keeping kept forum)
    (finds : request.course.Finds forum.store shown) (id : shown.id = item.id) :
    request.course.position shown = request.course.position item := by
  obtain ⟨now, hnow, hsame, hactivity⟩ := h.kept item hitem
  obtain ⟨hstored, hscope⟩ := h.filed.mem_scopeItems_iff.1 finds.1
  have hkey : shown.key = item.key := by
    simp only [ContentItem.key, id, scope.trans hscope.symm]
  rw [hkey, hnow] at hstored
  exact Option.some.inj hstored ▸ position_eq hsame hactivity

/-- A list in strict order has one member at a position that it has a member at. -/
private theorem exists_filter_eq_singleton {course : Course} {items : List ContentItem}
    (ordered : items.Pairwise fun a b =>
      course.direction.isAfter (course.position b) (course.position a) = true)
    {position : IndexKey} {p : ContentItem → Bool}
    (found : ∃ item ∈ items, p item = true)
    (only : ∀ item ∈ items, p item = true → course.position item = position) :
    ∃ item, items.filter p = [item] ∧ course.position item = position := by
  have hordered := ordered.filter p
  have hfiltered : ∀ item ∈ items.filter p, course.position item = position := fun item hitem =>
    only item (List.mem_filter.1 hitem).1 (List.mem_filter.1 hitem).2
  obtain ⟨item, hitem, hp⟩ := found
  have hmem : item ∈ items.filter p := List.mem_filter.2 ⟨hitem, hp⟩
  cases hlist : items.filter p with
  | nil =>
    rw [hlist] at hmem
    cases hmem
  | cons first rest =>
    rw [hlist] at hordered hfiltered
    cases rest with
    | nil => exact ⟨first, rfl, hfiltered first List.mem_cons_self⟩
    | cons second rest =>
      have hafter := (List.pairwise_cons.1 hordered).1 second List.mem_cons_self
      rw [hfiltered first List.mem_cons_self,
        hfiltered second (List.mem_cons_of_mem _ List.mem_cons_self),
        Direction.isAfter_self] at hafter
      cases hafter

/-- A client reads a listing page by page until there is no next page, while others do what they
will to the store between any two of its calls. Every item that is listed from the start, is still
stored after each call and stays where it is in the index is read exactly once, at its place; and
all that is read comes in strict order. -/
theorem pages_stable {caller : Caller} {hive : ScopeId} {rounds : Nat}
    {others pool : Thread.Pool} {after : Forum} (filed : forum.store.Filed)
    (listed : ∀ item, kept item → forum.store.item? item.key = some item ∧
      item.scope = request.scope ∧ item.matchesTags request.tags = true)
    (run : Thread.Pool.Steps
      ((site.responses conditions).within fun later => ∀ item, kept item →
        request.Retains item later)
      (⟨List ListPage,
        .running (browseContent settings rounds caller hive request limits none)⟩ :: others) forum
      (⟨List ListPage, .running (.done pages)⟩ :: pool) after)
    (ended : ∃ last, pages.getLast? = some last ∧ last.nextCursor = none) :
    (∀ item, kept item → ∃ shown,
      (pages.flatMap (·.items)).filter (fun other => other.id = item.id) = [shown] ∧
        shown.indexKey request.sort = item.indexKey request.sort) ∧
      (pages.flatMap (·.items)).Pairwise fun a b =>
        request.direction.isAfter (b.indexKey request.sort) (a.indexKey request.sort) = true := by
  have now : request.Keeping kept forum :=
    ⟨filed, fun item hitem => ⟨item, (listed item hitem).1, rfl, fun _ => rfl⟩⟩
  have serves : site.Serves ((site.responses conditions).within fun later => ∀ item, kept item →
      request.Retains item later) (request.Keeping kept) False :=
    ⟨fun answer => ⟨conditions, fun h => h.elim, answer.1⟩, fun _ h => h.filed⟩
  have client : Thread.Meets _ (.running
      (browseContent settings rounds caller hive request limits none)) _ none _ forum :=
    .running (meets_browseContent serves now rfl (fun h => h.elim) (fun h => h.elim)
      fun h => h.elim)
  obtain ⟨thread, _, hpool, hthread⟩ := run.meets_head
    (fun answer hbefore => hbefore.of_answer answer.1 answer.2) client
  cases hpool
  obtain ⟨-, hpages⟩ := hthread.of_result?.1 pages rfl trivial
  have hreads := hpages.reads
  refine ⟨fun item hitem => ?_, hreads.ordered⟩
  obtain ⟨-, hscope, htags⟩ := listed item hitem
  refine exists_filter_eq_singleton hreads.ordered ?_ fun shown hshown hid => ?_
  · obtain ⟨shown, hshown, hposition⟩ :=
      List.mem_map.1 (hpages.mem_of_stays ended (stays_of_kept hitem hscope htags) rfl)
    exact ⟨shown, hshown, decide_eq_true (congrArg IndexKey.id hposition)⟩
  · obtain ⟨_, hmet, hfinds⟩ := hreads.found shown hshown
    exact position_of_id hitem hscope hmet hfinds (of_decide_eq_true hid)

end ListRequest

namespace Sample

/-- A site whose store looks at two entries in one query. -/
def narrowSite : Site := { site with limits := ⟨2, 25, by decide⟩ }

/-- The posts of the hive, oldest first. -/
def oldestFirst : ListRequest := { ListRequest.posts ⟨.ofNat 1⟩ with direction := .ascending }

/-- The forum without the second of the posts. -/
def thinnedForum : Forum := ⟨busyForum.store.removeItem (postOf 4).key, posts⟩

theorem sort_posts : ContentItem.sort .created .ascending posts = posts :=
  List.mergeSort_of_pairwise (by decide)

theorem queryContent_busyForum :
    busyForum.store.queryContent narrowSite.limits (oldestFirst.course.query 25 none) =
      .ok ⟨[postOf 2, postOf 4], some ((postOf 4).indexKey .created)⟩ := by
  have index : busyForum.store.itemsAfter (oldestFirst.course.query 25 none) = posts := sort_posts
  rw [StoreState.queryContent, if_neg (by decide), index]
  rfl

/-- The second round goes on after that post, although it is gone. -/
theorem queryContent_thinnedForum :
    thinnedForum.store.queryContent narrowSite.limits
      (oldestFirst.course.query 25 (some ((postOf 4).indexKey .created))) =
      .ok ⟨[postOf 5], none⟩ := by
  have index : thinnedForum.store.itemsAfter
      (oldestFirst.course.query 25 (some ((postOf 4).indexKey .created))) = [postOf 5] :=
    List.mergeSort_of_pairwise (by decide)
  rw [StoreState.queryContent, if_neg (by decide), index]
  rfl

/-- The member reads the posts in two rounds. Between these somebody deletes the post that the first
round has come to; the other two are read all the same. -/
theorem run_stable {Holds : Forum → Prop} (before : Holds busyForum) (after : Holds thinnedForum) :
    Thread.Pool.Steps ((narrowSite.responses .calm).within Holds)
      [⟨List ListPage,
          .running (browseContent {} 2 caller ⟨.ofNat 1⟩ oldestFirst [0] none)⟩,
        ⟨Unit, .running (call (.deleteContent (postOf 4).key))⟩] busyForum
      [⟨List ListPage, .running (.done [⟨posts, none⟩])⟩, ⟨Unit, .running (.done ())⟩]
      thinnedForum := by
  have asked : (narrowSite.responses .calm).Answers (.membership caller ⟨.ofNat 1⟩) busyForum
      (.ok .owner) busyForum := .role caller ⟨.ofNat 1⟩ busyForum
  have first : busyForum.store.perform narrowSite.limits
      (.queryContent (oldestFirst.course.query 25 none)) =
      .ok (⟨[postOf 2, postOf 4], some ((postOf 4).indexKey .created)⟩, busyForum.store) := by
    simp only [StoreState.perform, queryContent_busyForum, Except.map]
  have second : thinnedForum.store.perform narrowSite.limits
      (.queryContent (oldestFirst.course.query 25 (some ((postOf 4).indexKey .created)))) =
      .ok (⟨[postOf 5], none⟩, thinnedForum.store) := by
    simp only [StoreState.perform, queryContent_thinnedForum, Except.map]
  have delete : busyForum.store.perform narrowSite.limits (.deleteContent (postOf 4).key) =
      .ok ((), thinnedForum.store) := rfl
  have hfirst : ContentItem.sort .created .ascending ([] ++ [postOf 2, postOf 4]) =
      [postOf 2, postOf 4] := List.mergeSort_of_pairwise (by decide)
  have hsecond : ContentItem.sort .created .ascending ([postOf 2, postOf 4] ++ [postOf 5]) =
      posts := sort_posts
  have reads : Thread.Steps ((narrowSite.responses .calm).within Holds)
      (.running (browseContent {} 2 caller ⟨.ofNat 1⟩ oldestFirst [0] none)) busyForum _
      busyForum := .perform ⟨asked, before⟩ <| .perform ⟨.carriedOut first, before⟩ .none
  have deletes : Thread.Steps ((narrowSite.responses .calm).within Holds)
      (.running (call (.deleteContent (postOf 4).key))) busyForum (.running (.done ()))
      thinnedForum := .perform ⟨.carriedOut delete, after⟩ .none
  let scan : Scan := ⟨⟨.ofNat 1⟩, .created, .ascending, .empty, 25, none⟩
  let proceed (page : ListPage) : Program (List ListPage) :=
    if page.nextCursor.isNone then .done [page]
    else (browseContent {} 2 caller ⟨.ofNat 1⟩ oldestFirst [] page.nextCursor).bind fun pages =>
      .done (page :: pages)
  let finish (collected : Program Collected) : Program (List ListPage) :=
    (collected.bind fun collected => .done (oldestFirst.page collected)).bind proceed
  refine .trans (.of_thread reads [] _) (.trans (.of_thread deletes [_] []) (.of_thread ?_ [] _))
  -- the page is not full after the first round, and the index is exhausted after the second one
  change Thread.Steps _ (.running (finish (if (ContentItem.sort .created .ascending
      ([] ++ [postOf 2, postOf 4])).length < scan.pageSize then
    collectFrom {} scan 1 (some ((postOf 4).indexKey .created))
      (ContentItem.sort .created .ascending ([] ++ [postOf 2, postOf 4])) else _))) _ _ _
  rw [hfirst]
  refine .perform ⟨.carriedOut second, after⟩ ?_
  change Thread.Steps _ (.running (finish (.done (.ofHeld scan true
    (ContentItem.sort .created .ascending ([postOf 2, postOf 4] ++ [postOf 5])))))) _ _ _
  rw [hsecond]
  exact .none

/-- The posts that nobody deletes are read once each, although the member goes on from one that has
been deleted meanwhile. -/
theorem posts_stable :
    Thread.Pool.Steps
        ((narrowSite.responses .calm).within fun later => ∀ item, item ∈ [postOf 2, postOf 5] →
          oldestFirst.Retains item later)
        [⟨List ListPage,
            .running (browseContent {} 2 caller ⟨.ofNat 1⟩ oldestFirst [0] none)⟩,
          ⟨Unit, .running (call (.deleteContent (postOf 4).key))⟩] busyForum
        [⟨List ListPage, .running (.done [⟨posts, none⟩])⟩, ⟨Unit, .running (.done ())⟩]
        thinnedForum ∧
      (∀ item, item ∈ [postOf 2, postOf 5] → ∃ shown,
        (([⟨posts, none⟩] : List ListPage).flatMap (·.items)).filter
            (fun other => other.id = item.id) = [shown] ∧
          shown.indexKey .created = item.indexKey .created) ∧
      (([⟨posts, none⟩] : List ListPage).flatMap (·.items)).Pairwise fun a b =>
        Direction.ascending.isAfter (b.indexKey .created) (a.indexKey .created) = true := by
  have retained : ∀ store : StoreState, store.item? (postOf 2).key = some (postOf 2) →
      store.item? (postOf 5).key = some (postOf 5) → ∀ item, item ∈ [postOf 2, postOf 5] →
        oldestFirst.Retains item ⟨store, posts⟩ := by
    intro store h₂ h₅
    simp only [List.forall_mem_cons, List.not_mem_nil, false_imp_iff, implies_true, and_true]
    exact ⟨⟨_, h₂, fun _ => rfl⟩, ⟨_, h₅, fun _ => rfl⟩⟩
  have listed : ∀ item, item ∈ [postOf 2, postOf 5] →
      busyForum.store.item? item.key = some item ∧ item.scope = oldestFirst.scope ∧
        item.matchesTags oldestFirst.tags = true := by decide
  have run := @run_stable
    (fun later => ∀ item, item ∈ [postOf 2, postOf 5] → oldestFirst.Retains item later)
    (retained busyForum.store rfl rfl) (retained thinnedForum.store rfl rfl)
  exact ⟨run, ListRequest.pages_stable filed_busyForum listed run ⟨_, rfl, rfl⟩⟩

end Sample

end HiveForum
