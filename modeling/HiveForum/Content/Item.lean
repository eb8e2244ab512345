import HiveForum.Collection.SortedSet
import HiveForum.Content.Order

/-!
# Content items

A post lives in the scope of its hive, a comment in the scope of its post. Each item carries the
counts of the votes, comments and reports on it.

## Main definitions

* `ContentItem`: a post or a comment with its counts.
* `ContentItem.newPost`, `ContentItem.newComment`: items as they are created.
* `ContentItem.indexKey`: where an item stands in an index.
* `ContentItem.matchesTags`: the tag filter of listings.
* `ContentItem.sort`: items in scan order.

## Main results

* `ContentItem.sort_perm`, `ContentItem.sort_pairwise`: sorting permutes the items into scan order.
-/

namespace HiveForum

open Std

/-- Whether an item is a post or a comment. -/
inductive ContentKind where
  | post
  | comment
deriving DecidableEq, Inhabited

namespace ContentKind

/-- The name of a kind in stored rows. -/
def name : ContentKind → String
  | .post => "post"
  | .comment => "comment"

/-- The kind with the given name. -/
def ofName? : String → Option ContentKind
  | "post" => some .post
  | "comment" => some .comment
  | _ => none

@[simp]
theorem ofName?_name (kind : ContentKind) : ofName? kind.name = some kind := by
  cases kind <;> rfl

end ContentKind

/-- Where an item is stored: its scope and its identifier. -/
structure ContentKey where
  scope : ScopeId
  id : ContentId
deriving DecidableEq, Inhabited

/-- A post or a comment, with its counts. -/
structure ContentItem where
  scope : ScopeId
  id : ContentId
  /-- The hive that the item belongs to; the scope itself for a post. -/
  hive : ScopeId
  kind : ContentKind
  author : UserId
  body : String
  /-- The time of creation in microseconds. -/
  createdAt : Int64
  /-- The time of creation or of the latest comment, in microseconds. -/
  lastActivityAt : Int64
  upVotes : Int64
  downVotes : Int64
  comments : Int64
  reports : Int64
  /-- Whether the text is hidden because of reports. -/
  obfuscated : Bool
  reviewed : Bool
  pinned : Bool
  tags : SortedSet TagId
deriving DecidableEq, Inhabited

namespace ContentItem

/-- An item without counts, flags and tags. -/
def fresh (scope hive : ScopeId) (id : ContentId) (kind : ContentKind) (author : UserId)
    (body : String) (createdAt : Int64) : ContentItem where
  scope := scope
  id := id
  hive := hive
  kind := kind
  author := author
  body := body
  createdAt := createdAt
  lastActivityAt := createdAt
  upVotes := 0
  downVotes := 0
  comments := 0
  reports := 0
  obfuscated := false
  reviewed := false
  pinned := false
  tags := .empty

/-- A new post in a hive. -/
def newPost (hive : ScopeId) (id : ContentId) (author : UserId) (body : String)
    (tags : List TagId) (createdAt : Int64) : ContentItem :=
  { fresh hive hive id .post author body createdAt with tags := .ofList tags }

/-- A new comment on a post of a hive. -/
def newComment (hive : ScopeId) (post id : ContentId) (author : UserId) (body : String)
    (createdAt : Int64) : ContentItem :=
  fresh post.asScope hive id .comment author body createdAt

/-- Where the item is stored. -/
def key (item : ContentItem) : ContentKey := ⟨item.scope, item.id⟩

/-- The value that an index sorts the item by. -/
def sortValue (item : ContentItem) : SortKey → Int64
  | .created => item.createdAt
  | .lastActivity => item.lastActivityAt

/-- Where the item stands in an index. -/
def indexKey (item : ContentItem) (sort : SortKey) : IndexKey := ⟨item.sortValue sort, item.id⟩

/-- Whether the item carries one of the tags of a filter; an empty filter accepts every item. -/
def matchesTags (item : ContentItem) (filter : SortedSet TagId) : Bool :=
  filter.isEmpty || filter.toList.any item.tags.contains

/-- Whether the walk visits `a` no later than `b`. -/
def precedes (sort : SortKey) (direction : Direction) (a b : ContentItem) : Bool :=
  (direction.compare (a.indexKey sort) (b.indexKey sort)).isLE

/-- The items in scan order; items at one position keep their order. -/
def sort (sort : SortKey) (direction : Direction) (items : List ContentItem) : List ContentItem :=
  items.mergeSort (precedes sort direction)

/-- Sorting permutes the items. -/
theorem sort_perm (sortKey : SortKey) (direction : Direction) (items : List ContentItem) :
    (sort sortKey direction items).Perm items :=
  List.mergeSort_perm items _

/-- Sorted items are in scan order. -/
theorem sort_pairwise (sortKey : SortKey) (direction : Direction) (items : List ContentItem) :
    (sort sortKey direction items).Pairwise
      (fun a b => precedes sortKey direction a b = true) := by
  apply List.pairwise_mergeSort
  · intro a b c hab hbc
    have hab : (direction.compare (a.indexKey sortKey) (b.indexKey sortKey)).isLE = true := hab
    exact TransCmp.isLE_trans hab hbc
  · intro a b
    have hswap : direction.compare (a.indexKey sortKey) (b.indexKey sortKey) =
        (direction.compare (b.indexKey sortKey) (a.indexKey sortKey)).swap :=
      OrientedCmp.eq_swap
    unfold precedes
    rw [hswap]
    cases direction.compare (b.indexKey sortKey) (a.indexKey sortKey) <;> rfl

end ContentItem

end HiveForum
