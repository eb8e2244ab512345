import HiveForum.Proofs.Browse.Pages
import HiveForum.Proofs.Forum.Run
import HiveForum.Proofs.Program.Ending

/-!
# Pages partition a listing

While nothing changes and nothing goes wrong, the pages of a listing show what there is to list,
each item once and in the order of the listing. Whatever the limits of the pages, and however few
entries the store looks at in one query, the walk ends, and every page but the last is full.

## Main definitions

* `ListRequest.Partitions`: pages that partition a listing.

## Main results

* `ListRequest.ends_browseContent`: the walk through the pages comes to an end.
* `ListRequest.pages_partition`: reading a listing to its end gives such pages.
-/

namespace HiveForum

open Program

namespace ListRequest

/-- Pages partition what a request lists in a store. -/
structure Partitions (settings : Settings) (request : ListRequest) (store : StoreState)
    (limits : List Int64) (pages : List ListPage) : Prop where
  /-- Together they show the items of the scope that match the filter. -/
  complete : ∀ item, item ∈ pages.flatMap (·.items) ↔
    item ∈ store.scopeItems request.scope ∧ item.matchesTags request.tags = true
  /-- The items come one after another in the order of the listing, hence each once. -/
  ordered : (pages.flatMap (·.items)).Pairwise fun a b =>
    request.direction.isAfter (b.indexKey request.sort) (a.indexKey request.sort) = true
  /-- There is a last page, and it is the only one without a next one. -/
  ended : ∃ front last, pages = front ++ [last] ∧ last.nextCursor = none ∧
    ∀ page ∈ front, page.nextCursor.isSome
  /-- Each page has been asked for with a limit. -/
  length_le : pages.length ≤ limits.length
  /-- A page with a next one has as many items as asked for, and no page has more. -/
  sizes : ∀ entry ∈ pages.zip limits, entry.1.items.length ≤ request.size settings entry.2 ∧
    (entry.1.nextCursor.isSome → entry.1.items.length = request.size settings entry.2)

variable {site : Site} {forum : Forum} {settings : Settings} {request : ListRequest}
  {limits : List Int64} {pages : List ListPage}

/-- Pages that follow one another in a forum that does not change partition a listing, if there are
more limits than items. -/
theorem Pages.partitions (h : request.Pages settings (· = forum) none limits pages)
    (filed : forum.store.Filed)
    (enough : (forum.store.scopeItems request.scope).length < limits.length) :
    request.Partitions settings forum.store limits pages := by
  have hreads := h.reads
  have hfound : ∀ item ∈ pages.flatMap (·.items), request.course.Finds forum.store item := by
    intro item hitem
    obtain ⟨_, rfl, hfinds⟩ := hreads.found item hitem
    exact hfinds
  have hnodup : (pages.flatMap (·.items)).Nodup := by
    refine hreads.ordered.imp fun {a b} hafter heq => ?_
    rw [heq, Direction.isAfter_self] at hafter
    cases hafter
  have hlength : (pages.flatMap (·.items)).length ≤
      (forum.store.scopeItems request.scope).length :=
    (List.subperm_of_subset hnodup fun item hitem => (hfound item hitem).1).length_le
  have hended := h.ended_or.resolve_right (by omega)
  refine ⟨fun item => ⟨hfound item, fun hfinds => ?_⟩, hreads.ordered, hended, h.length_le,
    h.sizes⟩
  have hstays : request.course.Stays (· = forum) (request.course.position item) := by
    rintro _ rfl
    exact ⟨item, hfinds, rfl⟩
  have hlast : ∃ last, pages.getLast? = some last ∧ last.nextCursor = none := by
    obtain ⟨front, last, rfl, hnone, -⟩ := hended
    exact ⟨last, List.getLast?_concat, hnone⟩
  obtain ⟨other, hother, hposition⟩ := List.mem_map.1 (h.mem_of_stays hlast hstays rfl)
  obtain ⟨hstored, hscope⟩ := filed.mem_scopeItems_iff.1 hfinds.1
  obtain ⟨hstored', hscope'⟩ := filed.mem_scopeItems_iff.1 (hfound other hother).1
  have hid : other.id = item.id := congrArg IndexKey.id hposition
  have hkey : other.key = item.key := by
    simp only [ContentItem.key, hid, hscope'.trans hscope.symm]
  rw [hkey, hstored] at hstored'
  exact Option.some.inj hstored' ▸ hother

/-- The pages of a listing follow one another in a forum that does not change, and the walk comes to
an end. -/
theorem ends_browseContent (settings : Settings) {caller : Caller} {hive : ScopeId} {rounds : Nat}
    (limits : List Int64) (filed : forum.store.Filed)
    (listable : site.MayList forum.store caller hive request.scope)
    (filter : request.tags.size ≤ Limit.filterTags)
    (enoughRounds : (forum.store.scopeItems request.scope).length < rounds) :
    Thread.Ends (site.responses .calm)
      (fun result later => later = forum ∧ ∃ pages, result = .ok pages ∧
        request.Pages settings (· = forum) none limits pages)
      (.running (browseContent settings rounds caller hive request limits none)) forum := by
  have serves : site.Serves (site.responses .calm) (· = forum) True :=
    ⟨fun answer => ⟨.calm, fun _ => rfl, answer⟩, by rintro _ rfl; exact filed⟩
  have bound : ∃ ahead, request.course.Ahead (· = forum) none ahead ∧ ahead.length < rounds := by
    refine ⟨(forum.store.scopeItems request.scope).map request.course.position, ?_, ?_⟩
    · rintro _ rfl item hitem -
      exact List.mem_map_of_mem hitem
    · rwa [List.length_map]
  have hmeets : (browseContent settings rounds caller hive request limits none).Meets
      (site.responses .calm) (Forum.reading (· = forum) True) none _ forum :=
    meets_browseContent serves rfl rfl (fun _ _ heq => heq ▸ listable) (fun _ => filter)
      fun _ => bound
  refine (Thread.Meets.ends (site.exists_answer .calm) (.running hmeets)
    (not_not_intro trivial)).imp ?_
  rintro (error | pages) later ⟨hok, herror⟩
  · exact absurd trivial (herror error rfl)
  · obtain ⟨rfl, hpages⟩ := hok pages rfl
    exact ⟨rfl, pages, rfl, hpages⟩

/-- A caller reads a listing from its start to its end, with whatever limits. If every item is
stored under its own key, nothing changes meanwhile and no call fails, the walk ends after finitely
many pages, and these partition what is listed. -/
theorem pages_partition (settings : Settings) {caller : Caller} {hive : ScopeId} {rounds : Nat}
    (filed : forum.store.Filed)
    (listable : site.MayList forum.store caller hive request.scope)
    (filter : request.tags.size ≤ Limit.filterTags)
    (enoughRounds : (forum.store.scopeItems request.scope).length < rounds)
    (enoughLimits : (forum.store.scopeItems request.scope).length < limits.length) :
    Thread.Ends (site.responses .calm)
      (fun result later => later = forum ∧
        ∃ pages, result = .ok pages ∧ request.Partitions settings forum.store limits pages)
      (.running (browseContent settings rounds caller hive request limits none)) forum := by
  refine (ends_browseContent settings limits filed listable filter enoughRounds).imp ?_
  rintro _ _ ⟨rfl, pages, rfl, hpages⟩
  exact ⟨rfl, pages, rfl, hpages.partitions filed enoughLimits⟩

end ListRequest

namespace Sample

/-- A post of the member. -/
def postOf (n : Nat) : ContentItem := .newPost ⟨.ofNat 1⟩ ⟨.ofNat n⟩ caller.user "body" [] 0

/-- Three posts of one time in the hive. -/
def posts : List ContentItem := [postOf 2, postOf 4, postOf 5]

/-- The forum with the posts. -/
def busyForum : Forum :=
  ⟨posts.foldl (fun store post => store.putItem post.key post) .empty, posts⟩

theorem filed_busyForum : busyForum.store.Filed :=
  ((StoreState.filed_empty.putItem rfl).putItem rfl).putItem rfl

/-- The member reads the posts, the first page with one item on it. -/
theorem posts_partition :
    busyForum.store.Filed ∧
      Thread.Ends (site.responses .calm)
        (fun result later => later = busyForum ∧ ∃ pages, result = .ok pages ∧
          (ListRequest.posts ⟨.ofNat 1⟩).Partitions {} busyForum.store [1, 0, -1, 2] pages)
        (.running (browseContent {} 4 caller ⟨.ofNat 1⟩ (.posts ⟨.ofNat 1⟩) [1, 0, -1, 2] none))
        busyForum := by
  have listable : site.MayList busyForum.store caller ⟨.ofNat 1⟩ ⟨.ofNat 1⟩ :=
    ⟨⟨.owner, rfl⟩, .inl rfl⟩
  exact ⟨filed_busyForum, ListRequest.pages_partition {} filed_busyForum listable (by decide)
    (by decide) (by decide)⟩

end Sample

end HiveForum
