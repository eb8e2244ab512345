import HiveForum.Proofs.Browse.Filling

/-!
# Pages one after another

A client reads a listing page by page, each from the cursor of the page before. The cursor says no
more than where that page ends, so that the pages are as good as one long page: what is read comes
in strict order, and once there is no next page every position that stays has been read.

## Main definitions

* `ListRequest.course`, `ListRequest.size`: what a request lists, and how many items are on a page.
* `ListRequest.Pages`: pages that follow one another, with the limits that were asked for.
* `Site.MayList`: a caller may list a scope.

## Main results

* `ListRequest.Pages.reads`, `ListRequest.Pages.mem_of_stays`: what is read comes in order, and
  includes what stays.
* `ListRequest.Pages.ended_or`: there is a last page, or as many items as limits have been read.
* `ListRequest.meets_browseContent`: following the cursors gives pages that follow one another.
-/

namespace HiveForum

open Program

/-- A caller may list a scope: it is their hive, or that of the comments of a post in it. -/
structure Site.MayList (site : Site) (store : StoreState) (caller : Caller) (hive scope : ScopeId) :
    Prop where
  member : ∃ role, site.directory.checkMember caller hive = .ok role
  scope : scope = hive ∨ ∃ post, store.item? ⟨hive, scope.asContent⟩ = some post ∧ post.kind = .post

namespace ListRequest

/-- What a request lists. -/
def course (request : ListRequest) : Course :=
  ⟨request.scope, request.sort, request.direction, request.tags⟩

/-- The number of items that a request asks for with some limit, one at least. -/
def size (settings : Settings) (request : ListRequest) (limit : Int64) : Nat :=
  max ({ request with limit }.pageLimit settings) 1

/-- A page as it is shown to the client. -/
def page (request : ListRequest) (collected : Collected) : ListPage where
  items := collected.items
  nextCursor := collected.next.map fun position => Cursor.encode ⟨request.listing, position⟩

/-- Pages that follow one another, each from where the one before ends, until there is no next page
or no more limit. -/
inductive Pages (settings : Settings) (request : ListRequest) (met : Forum → Prop) :
    Option IndexKey → List Int64 → List ListPage → Prop where
  | stop {start : Option IndexKey} : Pages settings request met start [] []
  | last {start : Option IndexKey} {limit : Int64} {limits : List Int64} {collected : Collected}
      (fills : request.course.Fills met start (request.size settings limit) collected)
      (last : collected.next = none) :
      Pages settings request met start (limit :: limits) [request.page collected]
  | more {start : Option IndexKey} {limit : Int64} {limits : List Int64} {collected : Collected}
      {position : IndexKey} {pages : List ListPage}
      (fills : request.course.Fills met start (request.size settings limit) collected)
      (next : collected.next = some position)
      (rest : Pages settings request met (some position) limits pages) :
      Pages settings request met start (limit :: limits) (request.page collected :: pages)

variable {settings : Settings} {request : ListRequest} {met : Forum → Prop}
  {start : Option IndexKey} {limits : List Int64} {pages : List ListPage} {collected : Collected}

@[simp]
theorem page_items (request : ListRequest) (collected : Collected) :
    (request.page collected).items = collected.items := rfl

@[simp]
theorem isSome_page_nextCursor (request : ListRequest) (collected : Collected) :
    (request.page collected).nextCursor.isSome = collected.next.isSome := Option.isSome_map

/-- What is read comes in the order of the listing, and lies after the start. -/
theorem Pages.reads (h : request.Pages settings met start limits pages) :
    request.course.Reads met start (pages.flatMap (·.items)) := by
  induction h with
  | stop => exact ⟨.nil, fun _ h => (by cases h), fun _ h => by cases h⟩
  | last fills =>
    rw [List.flatMap_singleton, page_items]
    exact fills.toReads
  | more fills next _ ih =>
    obtain ⟨hpast, hbefore⟩ := fills.next_spec next
    rw [List.flatMap_cons, page_items]
    refine ⟨List.pairwise_append.2 ⟨fills.ordered, ih.ordered, fun a ha b hb => ?_⟩, ?_, ?_⟩
    · exact Direction.isAfter_of_not_isAfter (hbefore a ha) (ih.past b hb)
    · refine List.forall_mem_append.2 ⟨fills.past, fun item hitem => ?_⟩
      exact Direction.isPast_trans hpast (ih.past item hitem)
    · exact List.forall_mem_append.2 ⟨fills.found, ih.found⟩

/-- Once there is no next page every position that stays has been read. -/
theorem Pages.mem_of_stays (h : request.Pages settings met start limits pages)
    (ended : ∃ last, pages.getLast? = some last ∧ last.nextCursor = none) {position : IndexKey}
    (stays : request.course.Stays met position)
    (past : request.direction.isPast start position = true) :
    position ∈ (pages.flatMap (·.items)).map request.course.position := by
  induction h with
  | stop =>
    obtain ⟨last, hlast, -⟩ := ended
    cases hlast
  | last fills last =>
    rw [List.flatMap_singleton, page_items]
    refine (fills.stays position stays past).resolve_right ?_
    rintro ⟨next, hnext, -⟩
    rw [last] at hnext
    cases hnext
  | @more start limit limits collected next pages fills hnext rest ih =>
    rw [List.flatMap_cons, List.map_append, List.mem_append]
    obtain hshown | ⟨next', hnext', hafter⟩ := fills.stays position stays past
    · exact .inl hshown
    · obtain rfl : next = next' := Option.some.inj (hnext.symm.trans hnext')
      refine .inr (ih ?_ hafter)
      obtain ⟨last, hlast, hnone⟩ := ended
      cases rest with
      | stop =>
        cases hlast
        have hnone : (request.page collected).nextCursor = none := hnone
        have hsome := request.isSome_page_nextCursor collected
        rw [hnone, hnext] at hsome
        cases hsome
      | _ => exact ⟨last, hlast, hnone⟩

theorem Pages.sizes (h : request.Pages settings met start limits pages) :
    ∀ entry ∈ pages.zip limits, entry.1.items.length ≤ request.size settings entry.2 ∧
      (entry.1.nextCursor.isSome → entry.1.items.length = request.size settings entry.2) := by
  induction h with
  | stop => simp
  | last fills last =>
    refine List.forall_mem_singleton.2 ⟨fills.fits, ?_⟩
    rw [isSome_page_nextCursor, last]
    exact fun h => by cases h
  | more fills next _ ih =>
    exact List.forall_mem_cons.2 ⟨⟨fills.fits, fun _ => fills.full _ next⟩, ih⟩

/-- There is a last page, and it is the only one without a next one, or the limits have been used
up by pages with at least one item each. -/
theorem Pages.ended_or (h : request.Pages settings met start limits pages) :
    (∃ front last, pages = front ++ [last] ∧ last.nextCursor = none ∧
        ∀ page ∈ front, page.nextCursor.isSome) ∨
      limits.length ≤ (pages.flatMap (·.items)).length := by
  induction h with
  | stop => exact .inr (Nat.le_refl 0)
  | last fills last => exact .inl ⟨[], _, rfl, by rw [page, last]; rfl, fun _ h => by cases h⟩
  | @more start limit limits collected next pages fills hnext rest ih =>
    refine ih.imp ?_ fun hlength => ?_
    · rintro ⟨front, last, rfl, hlast, hfront⟩
      refine ⟨_ :: front, last, rfl, hlast, List.forall_mem_cons.2 ⟨?_, hfront⟩⟩
      rw [isSome_page_nextCursor, hnext]
      rfl
    · have hfull := fills.full next hnext
      have hpos : 1 ≤ request.size settings limit := Nat.le_max_right _ 1
      simp only [List.flatMap_cons, List.length_append, List.length_cons, page_items]
      omega

theorem Pages.length_le (h : request.Pages settings met start limits pages) :
    pages.length ≤ limits.length := by
  induction h with
  | stop => exact Nat.le_refl 0
  | last => simp
  | more _ _ _ ih => simpa using ih

/-! ### Reading pages -/

theorem start_nextCursor (request : ListRequest) (collected : Collected) :
    ({ request with cursor := (request.page collected).nextCursor } : ListRequest).start =
      .ok collected.next := by
  have hlisting : ∀ cursor, ({ request with cursor } : ListRequest).listing = request.listing :=
    fun _ => rfl
  cases hnext : collected.next with
  | none => simp only [page, hnext, Option.map_none, ListRequest.start]
  | some position =>
    simp only [page, hnext, Option.map_some, ListRequest.start, hlisting,
      Cursor.decode_encode ⟨request.listing, position⟩, Except.map]

variable {site : Site} {responses : Responses Forum} {steady : Prop} {forum : Forum}
  {caller : Caller} {hive : ScopeId} {rounds : Nat}

/-- What a page of a request is. -/
abbrev Shows (settings : Settings) (request : ListRequest) (met : Forum → Prop)
    (start : Option IndexKey) (shown : ListPage) : Prop :=
  ∃ collected, request.course.Fills met start (request.size settings request.limit) collected ∧
    shown = request.page collected

/-- A page is filled, or the listing fails. It does not fail if nothing goes wrong. -/
theorem meets_listItems (serves : site.Serves responses met steady) (now : met forum)
    (hstart : request.start = .ok start)
    (filter : steady → request.tags.size ≤ Limit.filterTags)
    (bound : steady → ∃ ahead, request.course.Ahead met start ahead ∧ ahead.length < rounds) :
    (listItems settings rounds request).Meets responses (Forum.reading met steady) none
      (fun shown _ => request.Shows settings met start shown) forum := by
  rw [listItems]
  by_cases htags : Limit.filterTags < request.tags.size
  · simp only [checkTagCount, if_pos htags]
    intro _ _ hsteady
    have hsize := filter hsteady
    omega
  · let scan : Scan := {
      scope := request.scope
      sort := request.sort
      direction := request.direction
      tags := request.tags
      limit := request.pageLimit settings
      startAfter := start }
    have hcollect : (collect settings rounds scan).Meets responses (Forum.reading met steady) none
        _ forum := Scan.meets_collect serves rounds now bound
    simp only [checkTagCount, if_neg htags, hstart]
    change ((collect settings rounds scan).bind _).Meets _ _ _ _ _
    refine Meets.andThen hcollect fun collected middle _ hfills later _ _ => ?_
    exact ⟨collected, hfills middle id, rfl⟩

/-- A page is filled, or the listing fails. It does not fail if nothing goes wrong and the caller
may list the scope. -/
theorem meets_listContent (serves : site.Serves responses met steady) (now : met forum)
    (hstart : request.start = .ok start)
    (listable : steady → ∀ forum, met forum →
      site.MayList forum.store caller hive request.scope)
    (filter : steady → request.tags.size ≤ Limit.filterTags)
    (bound : steady → ∃ ahead, request.course.Ahead met start ahead ∧ ahead.length < rounds) :
    (listContent settings rounds caller hive request).Meets responses (Forum.reading met steady)
      none (fun shown _ => request.Shows settings met start shown) forum := by
  have hitems : ∀ forum, met forum → (listItems settings rounds request).Meets responses
      (Forum.reading met steady) none (fun shown _ => request.Shows settings met start shown)
      forum := fun forum hmet => meets_listItems serves hmet hstart filter bound
  rw [listContent]
  intro later reply after hrely answer
  have hlater := hrely now
  obtain ⟨conditions, calm, answer⟩ := serves.answers answer
  obtain rfl := answer.eq_of_isQuiet rfl
  refine ⟨rfl, ?_⟩
  cases reply with
  | error error =>
    intro _ _ hsteady
    obtain rfl := calm hsteady
    obtain ⟨role, hrole⟩ := (listable hsteady after hlater).member
    obtain ⟨hreply, -⟩ := answer.of_membership Conditions.honest_calm
    rw [hrole] at hreply
    cases hreply
  | ok role =>
    dsimp only [Program.ofExcept, done_bind]
    split
    · rename_i hscope
      intro last reply after hrely answer
      have hlast := hrely hlater
      obtain ⟨conditions, calm, answer⟩ := serves.answers answer
      obtain rfl := answer.eq_of_isQuiet rfl
      have hpost := fun hsteady : steady => (listable hsteady after hlast).scope.resolve_left hscope
      refine ⟨rfl, ?_⟩
      cases reply with
      | error error =>
        intro _ _ hsteady
        obtain rfl := calm hsteady
        obtain ⟨post, hstored, -⟩ := hpost hsteady
        obtain ⟨-, hfailed | ⟨-, hrefused⟩⟩ := answer.of_error Conditions.honest_calm
        · simp [StoreState.perform, hstored] at hfailed
        · exact hrefused
      | ok post =>
        dsimp only [Program.ofExcept, done_bind]
        split
        · rename_i hkind
          intro _ _ hsteady
          obtain ⟨stored, hstored, hpostKind⟩ := hpost hsteady
          obtain ⟨hfound, -⟩ := answer.getContent
          rw [hstored] at hfound
          exact hkind (Option.some.inj hfound ▸ hpostKind)
        · exact hitems after hlast
    · exact hitems after hlater

/-- Following the cursors gives pages that follow one another, or the listing fails. -/
theorem meets_browseContent (serves : site.Serves responses met steady) (now : met forum)
    {cursor : Option String} (hstart : ({ request with cursor } : ListRequest).start = .ok start)
    (listable : steady → ∀ forum, met forum →
      site.MayList forum.store caller hive request.scope)
    (filter : steady → request.tags.size ≤ Limit.filterTags)
    (bound : steady → ∃ ahead, request.course.Ahead met none ahead ∧ ahead.length < rounds) :
    (browseContent settings rounds caller hive request limits cursor).Meets responses
      (Forum.reading met steady) none
      (fun pages later => met later ∧ request.Pages settings met start limits pages) forum := by
  induction limits generalizing cursor start forum with
  | nil => exact fun _ rely _ => ⟨rely now, .stop⟩
  | cons limit limits ih =>
    have hahead : steady → ∃ ahead, request.course.Ahead met start ahead ∧
        ahead.length < rounds := by
      intro hsteady
      obtain ⟨ahead, hahead, hlength⟩ := bound hsteady
      exact ⟨ahead, fun forum now item hitem _ => hahead forum now item hitem rfl, hlength⟩
    have hpage : (listContent settings rounds caller hive
        { request with limit, cursor }).Meets responses (Forum.reading met steady) none _ forum :=
      meets_listContent serves now hstart listable filter hahead
    rw [browseContent]
    refine Meets.andThen hpage fun shown middle moves hshown => ?_
    have hmiddle := Forum.met_of_moves moves now
    obtain ⟨collected, hfills, rfl⟩ := hshown middle id
    have hfills : request.course.Fills met start (request.size settings limit) collected := hfills
    change Meets _ (if (request.page collected).nextCursor.isNone then
        .done [request.page collected]
      else (browseContent settings rounds caller hive request limits
        (request.page collected).nextCursor).bind fun pages =>
          .done (request.page collected :: pages)) _ _ _ _
    cases hnext : collected.next with
    | none =>
      have hnone : (request.page collected).nextCursor = none := by rw [page, hnext]; rfl
      rw [hnone, if_pos Option.isNone_none]
      exact fun _ rely _ => ⟨rely hmiddle, .last hfills hnext⟩
    | some position =>
      have hsome : ¬(request.page collected).nextCursor.isNone = true := by
        rw [page, hnext]
        exact Bool.false_ne_true
      have hcursor := request.start_nextCursor collected
      rw [hnext] at hcursor
      rw [if_neg hsome]
      refine Meets.andThen (ih hmiddle hcursor) fun pages last _ hpages later rely _ => ?_
      obtain ⟨hlater, hrest⟩ := hpages later rely
      exact ⟨hlater, .more hfills hnext hrest⟩

end ListRequest

end HiveForum
