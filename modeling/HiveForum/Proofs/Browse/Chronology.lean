import HiveForum.Proofs.Browse.Showing
import HiveForum.Proofs.Forum.Dating

/-!
# Listings in order of creation

Posts are listed by their times of creation, the latest first, and comments with the earliest first.
The times of creation come from a clock whose time stamps increase even where the wall clock stands
still or goes back. So a listing shows what has been written in the order in which it was written,
whatever else operations have spent time stamps on.

## Main definitions

* `Forum.Succession`: operations run one after another.
* `Forum.standing`: the items of a scope that are stored still, in the order of their creation.

## Main results

* `Forum.listings_chronological`: listings show items in the order of their creation.
-/

namespace HiveForum

namespace Forum

/-- What operations have made of the blank forum that were run one after another, with their
journal. Anything may go wrong, and an operation may be dropped anywhere. -/
inductive Succession (site : Site) : Forum × Journal → Prop where
  | blank : Succession site (.blank, [])
  | next {state after : Forum × Journal} {invocation : Invocation}
      {thread : Thread invocation.operation.Result} (succession : Succession site state)
      (run : Thread.Steps (site.responses .wild).journaled invocation.thread.2 state thread
        after) : Succession site after

/-- The items that were stored in a scope and are still there, as they are now, in the order in
which they were stored. -/
def standing (forum : Forum) (scope : ScopeId) : List ContentItem :=
  forum.created.filterMap fun first =>
    (forum.store.item? first.key).filter fun item =>
      decide (first.scope = scope) && decide (item.asCreated = first)

variable {site : Site} {forum : Forum} {scope : ScopeId}

theorem Succession.dated {state : Forum × Journal} (h : Succession site state) :
    Dated .none state := by
  induction h with
  | blank => exact dated_blank
  | next _ run ih => exact ih.steps run

/-- The standing items of a scope are those that are stored in it. -/
theorem Dated.mem_standing_iff {journal : Journal} (h : Dated .none (forum, journal))
    {item : ContentItem} :
    item ∈ forum.standing scope ↔ item ∈ forum.store.scopeItems scope := by
  have filed : forum.store.Filed := h.filed
  rw [filed.mem_scopeItems_iff, standing, List.mem_filterMap]
  constructor
  · rintro ⟨first, -, hitem⟩
    obtain ⟨hstored, hfirst⟩ := Option.filter_eq_some_iff.1 hitem
    simp only [Bool.and_eq_true, decide_eq_true_eq] at hfirst
    obtain ⟨hscope, rfl⟩ := hfirst
    exact ⟨hstored, hscope⟩
  · rintro ⟨hstored, rfl⟩
    refine ⟨item.asCreated, h.recorded _ item hstored, Option.filter_eq_some_iff.2 ⟨hstored, ?_⟩⟩
    simp only [Bool.and_eq_true, decide_eq_true_eq, and_true]
    rfl

/-- If items were stored at increasing times, those that stand were. -/
theorem pairwise_standing (increasing : (forum.created.map (·.createdAt)).Pairwise (· < ·)) :
    (forum.standing scope).Pairwise fun a b => a.createdAt < b.createdAt := by
  have created : ∀ {first item : ContentItem}, (forum.store.item? first.key).filter
      (fun item => decide (first.scope = scope) && decide (item.asCreated = first)) = some item →
        item.createdAt = first.createdAt := by
    intro first item hitem
    have hfirst := (Option.filter_eq_some_iff.1 hitem).2
    simp only [Bool.and_eq_true, decide_eq_true_eq] at hfirst
    rw [← hfirst.2]
    rfl
  rw [standing, List.pairwise_filterMap]
  refine (List.pairwise_map.1 increasing).imp fun {first last} hlt a ha b hb => ?_
  rwa [created ha, created hb]

theorem Dated.perm_standing {journal : Journal} (dated : Dated .none (forum, journal))
    (increasing : (forum.created.map (·.createdAt)).Pairwise (· < ·)) :
    (forum.standing scope).Perm (forum.store.scopeItems scope) := by
  have nodup : (forum.standing scope).Nodup := (pairwise_standing increasing).imp fun hlt heq =>
    Std.ne_of_lt hlt (congrArg ContentItem.createdAt heq)
  have nodup' : (forum.store.scopeItems scope).Nodup :=
    (StoreState.scopeItems_pairwise dated.filed scope).imp fun hne heq =>
      hne (congrArg ContentItem.id heq)
  exact (List.perm_ext_iff_of_nodup nodup nodup').2 fun _ => dated.mem_standing_iff

theorem Dated.shows_comments {journal : Journal} (dated : Dated .none (forum, journal))
    (increasing : (forum.created.map (·.createdAt)).Pairwise (· < ·)) (post : ContentId) :
    site.Shows forum (.comments post) (forum.standing post.asScope) := by
  refine Site.shows_of_ordered dated.filed (Nat.zero_le _) ?_ fun item => ?_
  · exact (pairwise_standing increasing).imp fun hlt => Direction.isAfter_ascending hlt
  · exact dated.mem_standing_iff.trans (and_iff_left rfl).symm

/-- Operations are run one after another on the blank forum, each as far as it gets, and take their
time stamps from a clock; the wall clock may show anything. As long as the clock has not come to its
last time stamp, no two time stamps are equal, items that were stored later have later times of
creation, and these are some of the time stamps. So the comments of a post are listed in the order
in which they were written, and the posts of a hive in the reverse order. -/
theorem listings_chronological {journal : Journal} {walls : List Int}
    (succession : Succession site (forum, journal))
    (clocked : journal.stamps = StampClock.readings 0 walls)
    (early : ∀ time ∈ journal.stamps, time.toInt < 9223372036854775807) :
    journal.stamps.Pairwise (· < ·) ∧
      (forum.created.map (·.createdAt)).Sublist journal.stamps ∧
      (forum.created.map (·.createdAt)).Pairwise (· < ·) ∧
      (∀ post : ContentId, site.Shows forum (.comments post) (forum.standing post.asScope)) ∧
      ∀ hive, site.Shows forum (.posts hive) (forum.standing hive).reverse := by
  have dated := succession.dated
  have stamps : journal.stamps.Pairwise (· < ·) := by
    rw [clocked] at early ⊢
    exact (StampClock.pairwise_readings (List.forall_mem_cons.2 ⟨by decide, early⟩)).of_cons
  have times : (forum.created.map (·.createdAt)).Sublist journal.stamps := by
    simpa [Draft.stamps] using dated.times
  have created := stamps.sublist times
  refine ⟨stamps, times, created, dated.shows_comments created, fun hive => ?_⟩
  refine Site.shows_of_ordered dated.filed (Nat.zero_le _) ?_ fun item => ?_
  · exact List.pairwise_reverse.2 ((pairwise_standing created).imp
      fun hlt => Direction.isAfter_descending hlt)
  · rw [List.mem_reverse]
    exact dated.mem_standing_iff.trans (and_iff_left rfl).symm

end Forum

namespace Sample

/-- The wall clock goes back to before the epoch, and the comment is written later still. -/
theorem replied_chronological :
    ∃ journal : Journal, Forum.Succession site (repliedForum, journal) ∧
      journal.stamps = StampClock.readings 0 [5, -3] ∧
      (∀ time ∈ journal.stamps, time.toInt < 9223372036854775807) ∧
      journal.stamps.Pairwise (· < ·) ∧
      (repliedForum.created.map (·.createdAt)).Sublist journal.stamps ∧
      (repliedForum.created.map (·.createdAt)).Pairwise (· < ·) ∧
      (∀ post : ContentId,
        site.Shows repliedForum (.comments post) (repliedForum.standing post.asScope)) ∧
      ∀ hive, site.Shows repliedForum (.posts hive) (repliedForum.standing hive).reverse := by
  obtain ⟨posted, hposted, writes⟩ := @writePost_steps .wild (fun _ => True) trivial trivial
  obtain ⟨replied, hreplied, replies⟩ := @writeReply_steps .wild (fun _ => True) posted trivial
    fun _ => trivial
  have anyhow : ∀ {effect : Effect} {state after : Forum × Journal} {reply : effect.Reply},
      ((site.responses .wild).within fun _ => True).journaled.Answers effect state reply after →
        (site.responses .wild).journaled.Answers effect state reply after :=
    fun answer => ⟨answer.1.1, answer.2⟩
  have first := @Forum.Succession.next site _ _ writePost _ .blank (writes.imp anyhow)
  have both := @Forum.Succession.next site _ _ writeReply _ first (replies.imp anyhow)
  rw [hposted] at hreplied
  have clocked : replied.stamps = StampClock.readings 0 [5, -3] := hreplied.trans readings_replied
  have early : ∀ time ∈ replied.stamps, time.toInt < 9223372036854775807 :=
    hreplied ▸ early_replied
  exact ⟨replied, both, clocked, early, Forum.listings_chronological both clocked early⟩

end Sample

end HiveForum
