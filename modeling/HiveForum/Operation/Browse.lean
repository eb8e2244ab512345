import HiveForum.Operation.Settings
import HiveForum.Program.Basic

/-!
# Listings

A listing walks an index of a scope page by page. The store looks at a bounded slice of the index
for each call and drops items that do not match the tag filter afterwards, so a page is collected
in rounds, each from where the store left off, until it is full or the index is exhausted.

## Main definitions

* `ListRequest`: what a listing is asked for.
* `Scan`: a walk that fills one page.
* `collect`: the page of a scan, in rounds.
* `listItems`, `listContent`: a page with the cursor of the next one.
* `browseContent`: the pages of a listing, one after another.
-/

namespace HiveForum

open Program

/-- What a listing is asked for. -/
structure ListRequest where
  scope : ScopeId
  /-- The page size; the default one if it is not positive. -/
  limit : Int64 := 0
  sort : SortKey := .created
  direction : Direction
  /-- The tag filter; an empty one accepts every item. -/
  tags : SortedSet TagId := .empty
  /-- The cursor of the page before; none for the first page. -/
  cursor : Option String := none
deriving DecidableEq

/-- The posts of a hive, newest first. -/
def ListRequest.posts (hive : ScopeId) : ListRequest := { scope := hive, direction := .descending }

/-- The comments of a post, oldest first. -/
def ListRequest.comments (post : ContentId) : ListRequest :=
  { scope := post.asScope, direction := .ascending }

/-- A page of a listing. -/
structure ListPage where
  items : List ContentItem
  /-- The cursor of the next page; none after the last one. -/
  nextCursor : Option String
deriving DecidableEq, Inhabited

/-- A walk that fills one page. -/
structure Scan where
  scope : ScopeId
  sort : SortKey
  direction : Direction
  tags : SortedSet TagId
  limit : Nat
  /-- The position that the walk starts after; none for its start. -/
  startAfter : Option IndexKey
deriving DecidableEq, Inhabited

namespace Scan

/-- The items of a scope in order of creation, one batch at a time. -/
def children (scope : ScopeId) (startAfter : Option IndexKey) : Scan where
  scope := scope
  sort := .created
  direction := .ascending
  tags := .empty
  limit := Limit.batchWrite
  startAfter := startAfter

/-- The number of items on the page, one at least. -/
def pageSize (scan : Scan) : Nat := max scan.limit 1

/-- The number of index entries asked of the store in one round. -/
def roundSize (settings : Settings) (scan : Scan) : Nat :=
  if scan.pageSize ≤ settings.storePageSize then settings.storePageSize else scan.pageSize

/-- The query of a round that resumes after a position. -/
def query (settings : Settings) (scan : Scan) (startAfter : Option IndexKey) : ContentQuery where
  scope := scan.scope
  sort := scan.sort
  direction := scan.direction
  limit := scan.roundSize settings
  startAfter := startAfter
  tags := scan.tags

theorem pageSize_pos (scan : Scan) : 0 < scan.pageSize := by
  rw [pageSize]
  omega

theorem query_limit_pos (settings : Settings) (scan : Scan) (startAfter : Option IndexKey) :
    0 < (scan.query settings startAfter).limit := by
  have hpos := scan.pageSize_pos
  change 0 < scan.roundSize settings
  rw [roundSize]
  split <;> omega

end Scan

/-- A page with the position after which the next one starts. -/
structure Collected where
  items : List ContentItem
  /-- The position of the last item; none after the last page. -/
  next : Option IndexKey
deriving DecidableEq, Inhabited

/-- The page of the items that a scan holds when it stops; `exhausted` tells whether it reached
the end of the index. A page that is cut, or that is full before the end, has a next one. -/
def Collected.ofHeld (scan : Scan) (exhausted : Bool) (held : List ContentItem) : Collected :=
  let items := held.take scan.pageSize
  let last := items.getLast?.map (·.indexKey scan.sort)
  { items
    next :=
      if scan.pageSize < held.length then last
      else if held.length = scan.pageSize ∧ ¬exhausted then last
      else none }

/-- Fills the page of a scan in `rounds` rounds at most, from a position on and with items held
from rounds before. -/
def collectFrom (settings : Settings) (scan : Scan) :
    (rounds : Nat) → Option IndexKey → List ContentItem → Program Collected
  | 0, _, _ => unfinished
  | rounds + 1, startAfter, held => do
    let page ← call (.queryContent (scan.query settings startAfter))
    let held := ContentItem.sort scan.sort scan.direction (held ++ page.items)
    match page.lastEvaluated with
    | none => return .ofHeld scan true held
    | some position =>
      if held.length < scan.pageSize then collectFrom settings scan rounds (some position) held
      else return .ofHeld scan false held

/-- The page of a scan. -/
def collect (settings : Settings) (rounds : Nat) (scan : Scan) : Program Collected :=
  collectFrom settings scan rounds scan.startAfter []

/-- The page size of a request. -/
def ListRequest.pageLimit (settings : Settings) (request : ListRequest) : Nat :=
  if request.limit ≤ 0 then settings.defaultLimit else request.limit.toInt.toNat

/-- The listing that the cursors of a request belong to. -/
def ListRequest.listing (request : ListRequest) : Listing :=
  .ofTags request.scope request.sort request.direction request.tags

/-- The position that the cursor of a request gives. -/
def ListRequest.start (request : ListRequest) : Except CursorError (Option IndexKey) :=
  match request.cursor with
  | none => .ok none
  | some text => (Cursor.decode text request.listing).map fun cursor => some cursor.position

/-- The page of a request. -/
def listItems (settings : Settings) (rounds : Nat) (request : ListRequest) : Program ListPage := do
  ofExcept .ofLimit (checkTagCount request.tags.size Limit.filterTags)
  let start ← ofExcept .ofCursor request.start
  let collected ← collect settings rounds {
    scope := request.scope
    sort := request.sort
    direction := request.direction
    tags := request.tags
    limit := request.pageLimit settings
    startAfter := start }
  return {
    items := collected.items
    nextCursor := collected.next.map fun position => Cursor.encode ⟨request.listing, position⟩ }

/-- A page of the posts of a hive, or of the comments of a post in it. -/
def listContent (settings : Settings) (rounds : Nat) (caller : Caller) (hive : ScopeId)
    (request : ListRequest) : Program ListPage := do
  let _ ← authorize caller hive
  if request.scope ≠ hive then
    let post ← call (.getContent ⟨hive, request.scope.asContent⟩)
    if post.kind ≠ .post then
      fail (.badRequest .listingsOfPostsOnly)
  listItems settings rounds request

/-- The pages of a listing with the given limits, each from the cursor of the one before. The walk
starts at a cursor and ends after the last page, or when there are no more limits. -/
def browseContent (settings : Settings) (rounds : Nat) (caller : Caller) (hive : ScopeId)
    (request : ListRequest) : (limits : List Int64) → (cursor : Option String) →
    Program (List ListPage)
  | [], _ => return []
  | limit :: limits, cursor => do
    let page ← listContent settings rounds caller hive { request with limit, cursor }
    if page.nextCursor.isNone then return [page]
    return page :: (← browseContent settings rounds caller hive request limits page.nextCursor)

end HiveForum
