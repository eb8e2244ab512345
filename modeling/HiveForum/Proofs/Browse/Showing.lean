import HiveForum.Proofs.Browse.Partition
import HiveForum.Proofs.Browse.Walking

/-!
# What a walk through the pages shows

The items of a scope stand in an index in one order only. Whoever knows them in this order knows
what the pages of a listing show, one after another, when they are read to the end.

## Main definitions

* `Site.Shows`: what a listing shows to whoever reads it to the end.

## Main results

* `Direction.isAfter_ascending`, `Direction.isAfter_descending`: the sort values decide first.
* `Site.shows_of_ordered`: a listing shows the items of its scope in order.
-/

namespace HiveForum

/-- A walk from small to large comes by the larger sort value later. -/
theorem Direction.isAfter_ascending {a b : IndexKey} (h : a.sortValue < b.sortValue) :
    Direction.ascending.isAfter b a = true := by
  have hvalues : Ord.compare a.sortValue b.sortValue = .lt := Std.compare_eq_lt.2 h
  rw [Direction.isAfter_iff]
  change (Ord.compare a.sortValue b.sortValue).then (Ord.compare a.id b.id) = .lt
  rw [hvalues]
  rfl

/-- A walk from large to small comes by the smaller sort value later. -/
theorem Direction.isAfter_descending {a b : IndexKey} (h : b.sortValue < a.sortValue) :
    Direction.descending.isAfter b a = true :=
  Direction.isAfter_iff.2 (Direction.isAfter_iff.1 (Direction.isAfter_ascending h))

/-- Whoever may list the scope of a request and reads its pages to the end, while nothing changes
and no call fails, is shown these items one after another, whatever the limits of the pages. -/
def Site.Shows (site : Site) (forum : Forum) (request : ListRequest) (items : List ContentItem) :
    Prop :=
  ∀ (settings : Settings) (caller : Caller) (hive : ScopeId) (rounds : Nat) (limits : List Int64),
    site.MayList forum.store caller hive request.scope →
    (forum.store.scopeItems request.scope).length < rounds →
    (forum.store.scopeItems request.scope).length < limits.length →
    Thread.Ends (site.responses .calm)
      (fun result later => later = forum ∧
        ∃ pages, result = .ok pages ∧ pages.flatMap (·.items) = items)
      (.running (browseContent settings rounds caller hive request limits none)) forum

/-- The pages of a listing show the items of the scope as any list has them that has them in
order. -/
theorem Site.shows_of_ordered {site : Site} {forum : Forum} {request : ListRequest}
    {items : List ContentItem} (filed : forum.store.Filed)
    (filter : request.tags.size ≤ Limit.filterTags) (ordered : request.course.Ordered items)
    (complete : ∀ item, item ∈ items ↔
      item ∈ forum.store.scopeItems request.scope ∧ item.matchesTags request.tags = true) :
    site.Shows forum request items := by
  intro settings caller hive rounds limits listable enoughRounds enoughLimits
  refine (ListRequest.ends_browseContent settings limits filed listable filter enoughRounds).imp ?_
  rintro _ _ ⟨rfl, pages, rfl, hpages⟩
  have partitions := hpages.partitions filed enoughLimits
  refine ⟨rfl, pages, rfl, Course.Ordered.eq_of_mem_iff partitions.ordered ordered fun item => ?_⟩
  rw [partitions.complete, complete]

end HiveForum
