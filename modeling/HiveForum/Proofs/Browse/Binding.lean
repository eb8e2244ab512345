import HiveForum.Proofs.Browse.Cursors
import HiveForum.Proofs.Browse.Partition
import HiveForum.Proofs.Forum.Plain

/-!
# Cursors are bound to their listings

The cursor of a page leads on in the listing that the page belongs to, whatever the limit of the
next page and however the tags of its filter are written down. With another scope, index or
direction it is refused, and so it is with other tags, unless the fingerprints of both filters are
the same. The bytes that are hashed for the fingerprints tell the filters apart, hence nothing but a
collision of the hashes, cut to eight bytes, lets a cursor through to a listing that is not its own.

## Main definitions

* `fingerprintBytes`: the part of the hash of a filter that cursors carry.
* `Contract.lax`: the contract that asks for nothing.
* `ListRequest.ofTags`: a request with its tags written down as a list.
* `ListRequest.Issues`: a page has been issued for a request.
* `ListRequest.checkAccess`, `ListRequest.readFrom`: what a listing checks, and what it reads then.
* `ListRequest.Accepts`, `ListRequest.Refuses`: what becomes of a request with a cursor.

## Main results

* `filterBytes_injective`: filters are told by the bytes that are hashed for them.
* `ListRequest.issues_of_steps`: the cursor of a page is the position of its last item.
* `ListRequest.accepts_of_start`, `ListRequest.exists_refuses`: a request is served if its cursor
  can be read, and refused otherwise.
* `ListRequest.nextCursor_bound_to_listing`: a cursor leads on in its own listing, and in no other.
-/

namespace HiveForum

open Program

/-! ### Filters and fingerprints -/

theorem BigEndian.decode_inj {bytes bytes' : List UInt8} (hlength : bytes.length = bytes'.length) :
    decode bytes = decode bytes' ↔ bytes = bytes' := by
  refine ⟨fun h => ?_, congrArg _⟩
  rw [← encode_decode bytes, ← encode_decode bytes', h, hlength]

/-- Lists of tags are told by the bytes of the tags, one after another. -/
theorem TagId.flatMap_bytes_injective {tags tags' : List TagId}
    (h : tags.flatMap (·.uuid.bytes) = tags'.flatMap (·.uuid.bytes)) : tags = tags' := by
  induction tags generalizing tags' with
  | nil =>
    cases tags' with
    | nil => rfl
    | cons tag' tags' =>
      have hlength := congrArg List.length h
      simp only [List.flatMap_nil, List.length_nil, List.flatMap_cons, List.length_append,
        Uuid.length_bytes] at hlength
      omega
  | cons tag tags ih =>
    cases tags' with
    | nil =>
      have hlength := congrArg List.length h
      simp only [List.flatMap_nil, List.length_nil, List.flatMap_cons, List.length_append,
        Uuid.length_bytes] at hlength
      omega
    | cons tag' tags' =>
      have hlength : tag.uuid.bytes.length = tag'.uuid.bytes.length := by simp
      obtain ⟨htag, htags⟩ := List.append_inj h hlength
      rw [show tag = tag' from congrArg TagId.mk (Uuid.bytes_injective htag), ih htags]

/-- Filters are told by the bytes that are hashed for them. -/
theorem filterBytes_injective : Function.Injective filterBytes := fun _ _ h =>
  SortedSet.ext_mem fun _ => by rw [TagId.flatMap_bytes_injective h]

theorem SortedSet.ofList_eq_iff {tags tags' : List TagId} :
    ofList tags = ofList tags' ↔ ∀ tag, tag ∈ tags ↔ tag ∈ tags' := by
  refine ⟨fun h tag => ?_, fun h => ext_mem fun tag => ?_⟩
  · rw [← mem_ofList, h, mem_ofList]
  · rw [mem_ofList, mem_ofList, h]

/-- The part of the hash of a filter that cursors carry. -/
def fingerprintBytes (tags : SortedSet TagId) : List UInt8 :=
  (Sha256.digest (filterBytes tags)).take 8

@[simp]
theorem length_fingerprintBytes (tags : SortedSet TagId) : (fingerprintBytes tags).length = 8 := by
  simp [fingerprintBytes]

theorem toNat_filterFingerprint (tags : SortedSet TagId) :
    (filterFingerprint tags).toNat = BigEndian.decode (fingerprintBytes tags) := by
  have hlt := BigEndian.decode_lt (fingerprintBytes tags)
  rw [length_fingerprintBytes] at hlt
  exact UInt64.toNat_ofNat_of_lt' hlt

theorem filterFingerprint_eq_iff {tags tags' : SortedSet TagId} :
    filterFingerprint tags = filterFingerprint tags' ↔
      fingerprintBytes tags = fingerprintBytes tags' := by
  have hlength : (fingerprintBytes tags).length = (fingerprintBytes tags').length := by simp
  rw [← BigEndian.decode_inj hlength, ← toNat_filterFingerprint, ← toNat_filterFingerprint,
    UInt64.toNat_inj]

/-! ### What a page is issued with -/

/-- The contract that asks for nothing. -/
def Contract.lax (σ : Type) : Contract σ where
  rely _ _ := True
  guarantee _ _ := True
  failing _ _ := True
  endless := True
  rely_refl _ := trivial
  rely_trans _ _ := trivial

section

variable {σ : Type} {responses : Responses σ} {settings : Settings} {rounds : Nat}
  {caller : Caller} {hive : ScopeId} {request : ListRequest} {state : σ}

theorem Program.Plain.meets_lax {α : Type} {p : Program α} (h : p.Plain) :
    p.Meets responses (.lax σ) none (fun _ _ => True) state := by
  induction h generalizing state with
  | done => exact fun _ _ _ => trivial
  | fail => exact fun _ _ => trivial
  | perform _ ih => exact fun _ _ _ _ _ => ⟨trivial, ih _⟩

/-- Whatever the store answers, the next page starts after the last item of the page. -/
theorem Scan.meets_collectFrom_lax (scan : Scan) {start : Option IndexKey}
    {held : List ContentItem} :
    (collectFrom settings scan rounds start held).Meets responses (.lax σ) none
      (fun collected _ => collected.next = none ∨
        collected.next = collected.items.getLast?.map (·.indexKey scan.sort)) state := by
  induction rounds generalizing start held state with
  | zero => exact trivial
  | succ rounds ih =>
    rw [collectFrom]
    intro later reply after _ _
    refine ⟨trivial, ?_⟩
    cases reply with
    | error error => exact fun _ _ => trivial
    | ok page =>
      simp only [Program.ofExcept, done_bind]
      cases page.lastEvaluated with
      | none => exact fun _ _ _ => Collected.next_eq_or scan true _
      | some position =>
        dsimp only
        split
        · exact ih
        · exact fun _ _ _ => Collected.next_eq_or scan false _

namespace ListRequest

/-- A request with its tags written down as a list. -/
def ofTags (request : ListRequest) (tags : List TagId) : ListRequest :=
  { request with tags := .ofList tags }

/-- A page has been issued for a request. -/
structure Issues (request : ListRequest) (page : ListPage) : Prop where
  /-- There are not too many tags in the filter. -/
  filter : request.tags.size ≤ Limit.filterTags
  /-- The cursor is the position of the last item, bound to the listing of the request. -/
  cursor : ∀ text, page.nextCursor = some text → ∃ position,
    page.items.getLast?.map (·.indexKey request.sort) = some position ∧
      text = Cursor.encode ⟨request.listing, position⟩

/-- What is read for a request from a position on. -/
def readFrom (settings : Settings) (rounds : Nat) (request : ListRequest)
    (start : Option IndexKey) : Program ListPage :=
  (collect settings rounds {
    scope := request.scope
    sort := request.sort
    direction := request.direction
    tags := request.tags
    limit := request.pageLimit settings
    startAfter := start }).bind fun collected => .done (request.page collected)

/-- A caller may list what a request is for. -/
def checkAccess (caller : Caller) (hive : ScopeId) (request : ListRequest) : Program Unit :=
  (authorize caller hive).bind fun _ =>
    if request.scope ≠ hive then
      (call (.getContent ⟨hive, request.scope.asContent⟩)).bind fun post =>
        if post.kind ≠ .post then .fail (.badRequest .listingsOfPostsOnly) else .done ()
    else .done ()

theorem listItems_of_start {start : Option IndexKey}
    (filter : request.tags.size ≤ Limit.filterTags) (hstart : request.start = .ok start) :
    listItems settings rounds request = request.readFrom settings rounds start := by
  rw [listItems, hstart, checkTagCount, if_neg (Nat.not_lt.2 filter)]
  rfl

/-- A request with too many tags, or whose cursor cannot be read, makes no sense. -/
theorem exists_listItems_eq_fail
    (h : ¬∃ start, request.tags.size ≤ Limit.filterTags ∧ request.start = .ok start) :
    ∃ reason, ∀ settings rounds,
      listItems settings rounds request = .fail (.badRequest reason) := by
  by_cases filter : request.tags.size ≤ Limit.filterTags
  · cases hstart : request.start with
    | ok start => exact absurd ⟨start, filter, hstart⟩ h
    | error error =>
      refine ⟨.cursor error, fun settings rounds => ?_⟩
      rw [listItems, hstart, checkTagCount, if_neg (Nat.not_lt.2 filter)]
      rfl
  · refine ⟨.limit (.tooManyTags Limit.filterTags), fun settings rounds => ?_⟩
    rw [listItems, checkTagCount, if_pos (Nat.lt_of_not_le filter)]
    rfl

theorem listContent_eq : listContent settings rounds caller hive request =
    (request.checkAccess caller hive).bind fun _ => listItems settings rounds request := by
  rw [listContent, checkAccess, bind_assoc]
  refine congrArg ((authorize caller hive).bind ·) (funext fun _ => ?_)
  split
  · rw [bind_assoc]
    refine congrArg ((call _).bind ·) (funext fun post => ?_)
    split <;> rfl
  · rfl

theorem plain_checkAccess : (request.checkAccess caller hive).Plain := by
  refine (plain_authorize caller hive).bind fun _ => ?_
  split
  · refine (plain_call _).bind fun post => ?_
    split
    · exact .fail _
    · exact .done ()
  · exact .done ()

/-- Whatever the store answers, a page that is listed has been issued. -/
theorem meets_listItems_lax :
    (listItems settings rounds request).Meets responses (.lax σ) none
      (fun page _ => request.Issues page) state := by
  by_cases h : ∃ start, request.tags.size ≤ Limit.filterTags ∧ request.start = .ok start
  · obtain ⟨start, filter, hstart⟩ := h
    rw [listItems_of_start filter hstart]
    refine Meets.andThen (Scan.meets_collectFrom_lax _) fun collected middle _ hnext => ?_
    refine fun later _ _ => ⟨filter, fun text htext => ?_⟩
    obtain ⟨position, hposition, rfl⟩ := Option.map_eq_some_iff.1 htext
    obtain hnone | hlast := hnext middle trivial
    · cases hposition.symm.trans hnone
    · exact ⟨position, hlast.symm.trans hposition, rfl⟩
  · obtain ⟨reason, hfail⟩ := exists_listItems_eq_fail h
    rw [hfail]
    exact fun _ _ => trivial

/-- A run of a listing that ends with a page has issued it. -/
theorem issues_of_steps {page : ListPage} {after : σ}
    (served : Thread.Steps responses (.running (listContent settings rounds caller hive request))
      state (.running (.done page)) after) : request.Issues page := by
  have hmeets : (listContent settings rounds caller hive request).Meets responses (.lax σ) none
      (fun page _ => request.Issues page) state := by
    rw [listContent_eq]
    exact (plain_checkAccess.meets_lax).andThen fun _ _ _ _ => meets_listItems_lax
  exact (served.meets (.running hmeets)).1.of_result?.1 page rfl trivial

/-! ### What becomes of a cursor -/

/-- The request is served from the position of its cursor on. -/
structure Accepts (request : ListRequest) (position : IndexKey) : Prop where
  /-- What comes after the position is read. -/
  reads : ∀ settings rounds,
    listItems settings rounds request = request.readFrom settings rounds (some position)
  /-- Where nothing goes wrong, those who may list the scope are shown the next page. -/
  shows : ∀ {site : Site} {forum : Forum} {settings : Settings} {rounds : Nat} {caller : Caller}
    {hive : ScopeId}, forum.store.Filed → site.MayList forum.store caller hive request.scope →
    (forum.store.scopeItems request.scope).length < rounds →
    Thread.Ends (site.responses .calm)
      (fun result later => later = forum ∧ ∃ page, result = .ok page ∧
        request.Shows settings (· = forum) (some position) page)
      (.running (listContent settings rounds caller hive request)) forum

/-- The request makes no sense. -/
structure Refuses (request : ListRequest) (reason : BadRequest) : Prop where
  /-- Nothing is read. -/
  fails : ∀ settings rounds, listItems settings rounds request = .fail (.badRequest reason)
  /-- No run ends with a page. -/
  noPage : ∀ {σ : Type} {responses : Responses σ} {settings : Settings} {rounds : Nat}
    {caller : Caller} {hive : ScopeId} {state after : σ} {page : ListPage},
    ¬Thread.Steps responses (.running (listContent settings rounds caller hive request)) state
      (.running (.done page)) after
  /-- Where nothing goes wrong, those who may list the scope are given the reason. -/
  reports : ∀ {site : Site} {forum : Forum} {settings : Settings} {rounds : Nat} {caller : Caller}
    {hive : ScopeId}, site.MayList forum.store caller hive request.scope →
    Thread.Ends (site.responses .calm)
      (fun result later => later = forum ∧ result = .error (.badRequest reason))
      (.running (listContent settings rounds caller hive request)) forum

/-- Those who may list a scope pass the checks, if nothing goes wrong. -/
theorem meets_checkAccess {site : Site} {forum : Forum} {failing : OperationError → Forum → Prop}
    (listable : site.MayList forum.store caller hive request.scope) :
    (request.checkAccess caller hive).Meets (site.responses .calm)
      ((Forum.reading (· = forum) True).withFailing failing) none (fun _ _ => True) forum := by
  intro before reply after hrely answer
  have hbefore : before = forum := hrely rfl
  have hafter := answer.eq_of_isQuiet rfl
  obtain ⟨role, hrole⟩ := listable.member
  obtain ⟨rfl, -⟩ := answer.of_membership Conditions.honest_calm
  rw [hrole, hafter, hbefore]
  refine ⟨rfl, ?_⟩
  dsimp only [Program.ofExcept, done_bind]
  split
  · rename_i hscope
    obtain ⟨post, hstored, hkind⟩ := listable.scope.resolve_left hscope
    intro before reply after hrely answer
    have hbefore : before = forum := hrely rfl
    have hafter := answer.eq_of_isQuiet rfl
    rw [hafter, hbefore]
    refine ⟨rfl, ?_⟩
    cases reply with
    | error error =>
      obtain ⟨-, hfailed | ⟨-, hrefused⟩⟩ := answer.of_error Conditions.honest_calm
      · simp [StoreState.perform, hbefore, hstored] at hfailed
      · exact hrefused.elim
    | ok found =>
      obtain ⟨hfound, -⟩ := answer.getContent
      rw [hbefore] at hfound
      obtain rfl := Option.some.inj (hstored.symm.trans hfound)
      dsimp only [Program.ofExcept, done_bind]
      rw [if_neg (not_not_intro hkind)]
      exact fun _ _ _ => trivial
  · exact fun _ _ _ => trivial

/-- A request whose cursor is read is served from the position of the cursor on. -/
theorem accepts_of_start {position : IndexKey} (filter : request.tags.size ≤ Limit.filterTags)
    (hstart : request.start = .ok (some position)) : request.Accepts position where
  reads settings rounds := listItems_of_start filter hstart
  shows {site forum settings rounds caller hive} filed listable enough := by
    have serves : site.Serves (site.responses .calm) (· = forum) True :=
      ⟨fun answer => ⟨.calm, fun _ => rfl, answer⟩, by rintro _ rfl; exact filed⟩
    have bound : ∃ ahead, request.course.Ahead (· = forum) (some position) ahead ∧
        ahead.length < rounds := by
      refine ⟨(forum.store.scopeItems request.scope).map request.course.position, ?_, ?_⟩
      · rintro _ rfl item hitem -
        exact List.mem_map_of_mem hitem
      · rwa [List.length_map]
    have hmeets : (listContent settings rounds caller hive request).Meets
        (site.responses .calm) (Forum.reading (· = forum) True) none _ forum :=
      meets_listContent serves rfl hstart (fun _ _ heq => heq ▸ listable) (fun _ => filter)
        fun _ => bound
    have hkept : (listContent settings rounds caller hive request).Meets
        (site.responses .calm) (Forum.reading (· = forum) True) none
        (fun page later => later = forum ∧
          request.Shows settings (· = forum) (some position) page) forum := by
      rw [← bind_done (listContent settings rounds caller hive request)]
      refine hmeets.andThen fun page middle moves hpage later hrely _ => ?_
      have hmiddle := @Forum.met_of_moves (· = forum) True _ _ moves rfl
      exact ⟨hrely hmiddle, hpage middle id⟩
    refine (Thread.Meets.ends (site.exists_answer .calm) (.running hkept)
      (not_not_intro trivial)).imp ?_
    rintro (error | page) later ⟨hok, herror⟩
    · exact absurd trivial (herror error rfl)
    · exact ⟨(hok page rfl).1, page, rfl, (hok page rfl).2⟩

/-- A request with too many tags, or whose cursor cannot be read, is refused. -/
theorem exists_refuses
    (h : ¬∃ start, request.tags.size ≤ Limit.filterTags ∧ request.start = .ok start) :
    ∃ reason, request.Refuses reason := by
  obtain ⟨reason, hfail⟩ := exists_listItems_eq_fail h
  refine ⟨reason, hfail, fun {σ responses settings rounds caller hive state after page} steps => ?_,
    fun {site forum settings rounds caller hive} listable => ?_⟩
  · have hmeets : (listContent settings rounds caller hive request).Meets responses (.lax σ) none
        (fun _ _ => False) state := by
      rw [listContent_eq]
      refine (plain_checkAccess.meets_lax).andThen fun _ _ _ _ => ?_
      rw [hfail]
      exact fun _ _ => trivial
    exact (steps.meets (.running hmeets)).1.of_result?.1 page rfl trivial
  · have hmeets : (listContent settings rounds caller hive request).Meets (site.responses .calm)
        ((Forum.reading (· = forum) True).withFailing fun error later =>
          later = forum ∧ error = .badRequest reason) none (fun _ _ => False) forum := by
      rw [listContent_eq]
      refine (meets_checkAccess listable).andThen fun _ middle moves _ => ?_
      have hmiddle := @Forum.met_of_moves (· = forum) True _ _ moves rfl
      rw [hfail]
      exact fun later hrely => ⟨hrely hmiddle, rfl⟩
    refine (Thread.Meets.ends (site.exists_answer .calm) (.running hmeets)
      (not_not_intro trivial)).imp ?_
    rintro (error | page) later ⟨hok, herror⟩
    · obtain ⟨hlater, rfl⟩ := herror error rfl
      exact ⟨hlater, rfl⟩
    · exact (hok page rfl).elim

/-- The cursor of a position can be read for a listing exactly if the listing is its own. -/
theorem start_eq_ok_iff {listing : Listing} {position : IndexKey} {start : Option IndexKey}
    (hcursor : request.cursor = some (Cursor.encode ⟨listing, position⟩)) :
    request.start = .ok start ↔ request.listing = listing ∧ start = some position := by
  rw [ListRequest.start, hcursor]
  dsimp only
  constructor
  · intro h
    cases hdecode : Cursor.decode (Cursor.encode ⟨listing, position⟩) request.listing with
    | error error =>
      rw [hdecode] at h
      cases h
    | ok cursor =>
      rw [hdecode] at h
      cases h
      obtain ⟨hlisting, hencode⟩ := Cursor.decode_eq_ok_iff.1 hdecode
      obtain rfl := Cursor.encode_injective hencode
      exact ⟨hlisting.symm, rfl⟩
  · rintro ⟨rfl, rfl⟩
    rw [Cursor.decode_encode ⟨request.listing, position⟩]
    rfl

theorem listing_eq_iff {request other : ListRequest} {tags tags' : List TagId} :
    (other.ofTags tags').listing = (request.ofTags tags).listing ↔
      other.scope = request.scope ∧ other.sort = request.sort ∧
        other.direction = request.direction ∧
        fingerprintBytes (.ofList tags') = fingerprintBytes (.ofList tags) := by
  rw [← filterFingerprint_eq_iff]
  exact Listing.mk.injEq _ _ _ _ _ _ _ _ ▸ Iff.rfl

/-- The cursor that is issued with a page leads on in its own listing, and in no other. It is the
position of the last item of the page. Any request with the same scope, index, direction and tags,
whatever its limit and however its tags are written down, goes on from there. A request with another
scope, index or direction, or with tags whose fingerprint is another one, is refused. Different tags
have different bytes hashed, so that a cursor gets through to another listing only where two hashes
begin alike. -/
theorem nextCursor_bound_to_listing {tags : List TagId} {page : ListPage} {text : String}
    {after : σ}
    (served : Thread.Steps responses
      (.running (listContent settings rounds caller hive (request.ofTags tags))) state
      (.running (.done page)) after)
    (issued : page.nextCursor = some text) :
    ∃ position, page.items.getLast?.map (·.indexKey request.sort) = some position ∧
      ∀ (other : ListRequest) (tags' : List TagId),
        let next : ListRequest := { other.ofTags tags' with cursor := some text }
        (other.scope = request.scope ∧ other.sort = request.sort ∧
          other.direction = request.direction ∧ (∀ tag, tag ∈ tags' ↔ tag ∈ tags) →
            next.Accepts position) ∧
        (other.scope ≠ request.scope ∨ other.sort ≠ request.sort ∨
          other.direction ≠ request.direction ∨
          (¬∀ tag, tag ∈ tags' ↔ tag ∈ tags) ∧
            fingerprintBytes (.ofList tags') ≠ fingerprintBytes (.ofList tags) →
            ∃ reason, next.Refuses reason) ∧
        (filterBytes (.ofList tags') = filterBytes (.ofList tags) ↔
          ∀ tag, tag ∈ tags' ↔ tag ∈ tags) ∧
        ((¬∃ reason, next.Refuses reason) →
          other.scope = request.scope ∧ other.sort = request.sort ∧
            other.direction = request.direction ∧
            ((∀ tag, tag ∈ tags' ↔ tag ∈ tags) ∨
              filterBytes (.ofList tags') ≠ filterBytes (.ofList tags) ∧
                fingerprintBytes (.ofList tags') = fingerprintBytes (.ofList tags))) := by
  obtain ⟨filter, cursor⟩ := issues_of_steps served
  obtain ⟨position, hlast, rfl⟩ := cursor text issued
  refine ⟨position, hlast, fun other tags' => ?_⟩
  intro next
  have hbytes : filterBytes (.ofList tags') = filterBytes (.ofList tags) ↔
      ∀ tag, tag ∈ tags' ↔ tag ∈ tags :=
    filterBytes_injective.eq_iff.trans SortedSet.ofList_eq_iff
  have hstart : ∀ start, next.start = .ok start ↔
      (other.ofTags tags').listing = (request.ofTags tags).listing ∧ start = some position :=
    fun start => start_eq_ok_iff rfl
  have hrefused : (other.ofTags tags').listing ≠ (request.ofTags tags).listing →
      ∃ reason, next.Refuses reason := by
    intro hlisting
    refine exists_refuses ?_
    rintro ⟨start, -, h⟩
    exact hlisting ((hstart start).1 h).1
  refine ⟨?_, ?_, hbytes, ?_⟩
  · rintro ⟨hscope, hsort, hdirection, htags⟩
    have htags : SortedSet.ofList tags' = .ofList tags := SortedSet.ofList_eq_iff.2 htags
    have hfilter : (SortedSet.ofList tags').size ≤ Limit.filterTags := htags ▸ filter
    refine accepts_of_start hfilter ((hstart _).2 ⟨?_, rfl⟩)
    exact listing_eq_iff.2 ⟨hscope, hsort, hdirection, htags ▸ rfl⟩
  · intro hother
    refine hrefused fun hlisting => ?_
    obtain ⟨hscope, hsort, hdirection, hfingerprint⟩ := listing_eq_iff.1 hlisting
    obtain h | h | h | ⟨-, h⟩ := hother
    · exact h hscope
    · exact h hsort
    · exact h hdirection
    · exact h hfingerprint
  · intro hnone
    have hlisting := not_not.1 fun hlisting => hnone (hrefused hlisting)
    obtain ⟨hscope, hsort, hdirection, hfingerprint⟩ := listing_eq_iff.1 hlisting
    refine ⟨hscope, hsort, hdirection, ?_⟩
    exact (em _).imp_right fun htags => ⟨fun h => htags (hbytes.1 h), hfingerprint⟩

end ListRequest

end

namespace Sample

/-- A post of the member with two tags. -/
def taggedPost (n : Nat) : ContentItem :=
  .newPost ⟨.ofNat 1⟩ ⟨.ofNat n⟩ caller.user "body" [⟨.ofNat 7⟩, ⟨.ofNat 8⟩] 0

/-- Two such posts. -/
def taggedPosts : List ContentItem := [taggedPost 2, taggedPost 4]

/-- The forum with the posts. -/
def taggedForum : Forum :=
  ⟨taggedPosts.foldl (fun store post => store.putItem post.key post) .empty, taggedPosts⟩

/-- A page of the oldest post. -/
def oldestPost : ListRequest :=
  { ListRequest.posts ⟨.ofNat 1⟩ with direction := .ascending, limit := 1 }

/-- The page that is issued for posts with both tags. -/
def oldestPage : ListPage :=
  (oldestPost.ofTags [⟨.ofNat 7⟩, ⟨.ofNat 8⟩]).page
    ⟨[taggedPost 2], some ((taggedPost 2).indexKey .created)⟩

theorem oldestPage_steps :
    Thread.Steps (site.responses .calm)
      (.running (listContent {} 3 caller ⟨.ofNat 1⟩ (oldestPost.ofTags [⟨.ofNat 7⟩, ⟨.ofNat 8⟩])))
      taggedForum (.running (.done oldestPage)) taggedForum := by
  let request := oldestPost.ofTags [⟨.ofNat 7⟩, ⟨.ofNat 8⟩]
  have asked : (site.responses .calm).Answers (.membership caller ⟨.ofNat 1⟩) taggedForum
      (.ok .owner) taggedForum := .role caller ⟨.ofNat 1⟩ taggedForum
  have sorted : ContentItem.sort .created .ascending taggedPosts = taggedPosts :=
    List.mergeSort_of_pairwise (by decide)
  have index : taggedForum.store.itemsAfter (request.course.query 25 none) = taggedPosts := sorted
  have page : taggedForum.store.queryContent site.limits (request.course.query 25 none) =
      .ok ⟨taggedPosts, none⟩ := by
    rw [StoreState.queryContent, if_neg (by decide), index]
    rfl
  have read : taggedForum.store.perform site.limits
      (.queryContent (request.course.query 25 none)) =
      .ok (⟨taggedPosts, none⟩, taggedForum.store) := by
    simp only [StoreState.perform, page, Except.map]
  refine .perform asked (.perform (.carriedOut read) ?_)
  change Thread.Steps _ (.running (.done (request.page (.ofHeld
    ⟨⟨.ofNat 1⟩, .created, .ascending, request.tags, 1, none⟩ true
    (ContentItem.sort .created .ascending ([] ++ taggedPosts)))))) _ _ _
  rw [List.nil_append, sorted]
  exact .none

/-- The cursor leads on to the next post with both tags, in whatever order these are named, and is
refused where the posts are listed by activity. -/
theorem oldestPage_bound_to_listing :
    Thread.Steps (site.responses .calm)
        (.running (listContent {} 3 caller ⟨.ofNat 1⟩
          (oldestPost.ofTags [⟨.ofNat 7⟩, ⟨.ofNat 8⟩])))
        taggedForum (.running (.done oldestPage)) taggedForum ∧
      ∃ text, oldestPage.nextCursor = some text ∧
        ({ (ListRequest.ofTags { oldestPost with limit := 20 }
          [⟨.ofNat 8⟩, ⟨.ofNat 7⟩, ⟨.ofNat 8⟩]) with cursor := some text } : ListRequest).Accepts
            ((taggedPost 2).indexKey .created) ∧
        ∃ reason, ({ (ListRequest.ofTags { oldestPost with sort := .lastActivity }
          [⟨.ofNat 7⟩, ⟨.ofNat 8⟩]) with cursor := some text } : ListRequest).Refuses reason := by
  refine ⟨oldestPage_steps, _, rfl, ?_⟩
  obtain ⟨position, hlast, h⟩ := ListRequest.nextCursor_bound_to_listing oldestPage_steps rfl
  obtain rfl := Option.some.inj hlast
  refine ⟨(h _ _).1 ⟨rfl, rfl, rfl, fun tag => ?_⟩, (h _ _).2.1 (.inr (.inl (by decide)))⟩
  simp only [List.mem_cons, List.not_mem_nil, or_false]
  tauto

end Sample

end HiveForum
