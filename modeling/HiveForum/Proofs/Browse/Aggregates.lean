import HiveForum.Proofs.Browse.Chronology
import HiveForum.Proofs.Forum.Undisturbed

/-!
# What posts tell about their comments

A post carries the number of its comments and the time of the latest one, both kept by the
operations on the comments. Where nothing disturbs these, the number is that of the comments that
its listing shows, and the posts of a hive can be listed by their latest comments.

## Main results

* `Forum.Undisturbed.shows_by_activity`: a listing by activity shows the posts of a hive by their
  latest comments.
* `Forum.aggregates_agree`: the counts and times of posts agree with the listings of their comments.
-/

namespace HiveForum

/-- The posts of a hive, by their times of activity, the latest first. -/
def ListRequest.active (hive : ScopeId) : ListRequest :=
  { scope := hive, sort := .lastActivity, direction := .descending }

namespace Forum

variable {site : Site} {forum : Forum} {journal : Journal}

theorem Sound.kind_of_hive {outlook : Outlook} (sound : forum.Sound outlook)
    (distinct : forum.DistinctIds outlook.site) {key : ContentKey} {item : ContentItem}
    (stored : forum.store.item? key = some item)
    (known : (outlook.site.directory.hives.get? item.scope).isSome) : item.kind = .post := by
  cases hkind : item.kind with
  | post => rfl
  | comment =>
    have hplace := sound.places item.asCreated (sound.items key item stored).2
    rw [Places, show item.asCreated.kind = .comment from hkind] at hplace
    obtain ⟨post, hpost, -, -, hscope⟩ := hplace
    rw [show item.scope = post.id.asScope from hscope.symm, distinct.notHive post hpost] at known
    cases known

/-- A listing by activity shows the posts of a hive by their latest comments. -/
theorem Undisturbed.shows_by_activity (undisturbed : Undisturbed site (forum, journal))
    (increasing : journal.stamps.Pairwise (· < ·)) {hive : ScopeId}
    (known : (site.directory.hives.get? hive).isSome) :
    ∃ posts, posts.Perm (forum.standing hive) ∧ (∀ post ∈ posts, post.kind = .post) ∧
      (posts.Pairwise fun a b => b.latestIn forum.created < a.latestIn forum.created) ∧
      ∀ place : Site, place.Shows forum (.active hive) posts := by
  obtain ⟨reachable, dated, hactive⟩ := undisturbed.upheld
  obtain ⟨sound, distinct⟩ := reachable.sound
  have active : forum.store.ActiveIn forum.created := hactive increasing
  have created : (forum.created.map (·.createdAt)).Pairwise (· < ·) :=
    increasing.sublist ((List.sublist_append_left _ _).trans dated.times)
  have posts : ∀ post ∈ forum.standing hive,
      forum.store.item? post.key = some post ∧ post.kind = .post := by
    intro post hpost
    obtain ⟨hstored, hscope⟩ := (dated.filed.mem_scopeItems_iff).1 (dated.mem_standing_iff.1 hpost)
    exact ⟨hstored, sound.kind_of_hive distinct hstored (hscope ▸ known)⟩
  -- no two posts are active at one time
  have differ : (forum.standing hive).Pairwise fun a b => a.lastActivityAt ≠ b.lastActivityAt := by
    refine (pairwise_standing created).imp_of_mem fun {a b} ha hb hlt heq => ?_
    obtain ⟨hstored, hkind⟩ := posts a ha
    obtain ⟨hstored', hkind'⟩ := posts b hb
    rw [active _ a hstored hkind, active _ b hstored' hkind'] at heq
    have hkey := dated.key_eq_of_latestIn created hstored hstored' hkind hkind' heq
    rw [hkey, hstored'] at hstored
    obtain rfl := Option.some.inj hstored
    exact Std.lt_irrefl hlt
  let sorted := (forum.standing hive).mergeSort fun a b =>
    decide (b.lastActivityAt ≤ a.lastActivityAt)
  have perm : sorted.Perm (forum.standing hive) := List.mergeSort_perm _ _
  have descending : sorted.Pairwise fun a b => b.lastActivityAt < a.lastActivityAt := by
    have hsorted : sorted.Pairwise fun a b =>
        decide (b.lastActivityAt ≤ a.lastActivityAt) = true := by
      refine List.pairwise_mergeSort (fun a b c hab hbc => ?_) (fun a b => ?_) _
      · simp only [decide_eq_true_eq] at hab hbc ⊢
        exact Std.le_trans hbc hab
      · simp only [Bool.or_eq_true, decide_eq_true_eq]
        exact Std.le_total
    refine (hsorted.and ((perm.pairwise_iff Ne.symm).2 differ)).imp fun {a b} h => ?_
    exact Std.lt_of_le_of_ne (of_decide_eq_true h.1) h.2.symm
  refine ⟨sorted, perm, fun post hpost => ?_, ?_, fun place => ?_⟩
  · exact (posts post (perm.mem_iff.1 hpost)).2
  · refine descending.imp_of_mem fun {a b} ha hb hlt => ?_
    obtain ⟨hstored, hkind⟩ := posts a (perm.mem_iff.1 ha)
    obtain ⟨hstored', hkind'⟩ := posts b (perm.mem_iff.1 hb)
    rwa [← active _ a hstored hkind, ← active _ b hstored' hkind']
  · refine Site.shows_of_ordered dated.filed (Nat.zero_le _) ?_ fun item => ?_
    · exact descending.imp fun hlt => Direction.isAfter_descending hlt
    · rw [perm.mem_iff]
      exact dated.mem_standing_iff.trans (and_iff_left rfl).symm

/-- Operations are run one after another on the blank forum, no call fails, and every deletion ends
well; the time stamps come from a clock that has not come to its last one. The listing of the
comments of a post then shows as many as the post counts, all of them comments on it, and its time
of activity is that of the latest comment that was ever written under it, or its own if there was
none. So a listing of a hive by activity shows its posts by their latest comments. -/
theorem aggregates_agree {walls : List Int} (undisturbed : Undisturbed site (forum, journal))
    (clocked : journal.stamps = StampClock.readings 0 walls)
    (early : ∀ time ∈ journal.stamps, time.toInt < 9223372036854775807) :
    (∀ key post, forum.store.item? key = some post → post.kind = .post →
      ((forum.standing post.id.asScope).length : Int) = post.comments.toInt ∧
      (∀ comment ∈ forum.standing post.id.asScope,
        comment.kind = .comment ∧ comment.parentKey = key) ∧
      (∀ place : Site,
        place.Shows forum (.comments post.id) (forum.standing post.id.asScope)) ∧
      post.lastActivityAt = post.latestIn forum.created) ∧
    ∀ hive, (site.directory.hives.get? hive).isSome →
      ∃ posts, posts.Perm (forum.standing hive) ∧ (∀ post ∈ posts, post.kind = .post) ∧
        (posts.Pairwise fun a b => b.latestIn forum.created < a.latestIn forum.created) ∧
        ∀ place : Site, place.Shows forum (.active hive) posts := by
  obtain ⟨reachable, dated, hactive⟩ := undisturbed.upheld
  obtain ⟨sound, distinct⟩ := reachable.sound
  have clock : (0 :: journal.stamps).Pairwise (· < ·) := by
    rw [clocked] at early ⊢
    exact StampClock.pairwise_readings (List.forall_mem_cons.2 ⟨by decide, early⟩)
  have increasing : journal.stamps.Pairwise (· < ·) := clock.of_cons
  have times : (forum.created.map (·.createdAt)).Sublist journal.stamps :=
    (List.sublist_append_left _ _).trans dated.times
  have created := increasing.sublist times
  have room : forum.created.length < 9223372036854775807 := by
    have hstamps := Int64.length_lt_of_pairwise clock
      (List.forall_mem_cons.2 ⟨by decide, early⟩)
    have hlength := times.length_le
    rw [List.length_map] at hlength
    rw [Int64.toInt_zero] at hstamps
    omega
  refine ⟨fun key post hpost hkind => ⟨?_, fun comment hcomment => ?_, fun place =>
    dated.shows_comments created _, hactive increasing key post hpost hkind⟩,
    fun hive known => undisturbed.shows_by_activity increasing known⟩
  · rw [undisturbed.counted room key post hpost hkind, (dated.perm_standing created).length_eq]
  · obtain ⟨hstored, hscope⟩ := dated.filed.mem_scopeItems_iff.1 (dated.mem_standing_iff.1 hcomment)
    obtain ⟨hcommentKind, -, hparent⟩ := sound.parentKey_eq distinct hpost hstored hscope
    exact ⟨hcommentKind, hparent⟩

end Forum

namespace Sample

/-- The member writes the post and the comment, and nothing disturbs this. -/
theorem replied_undisturbed : ∃ journal : Journal,
    journal.stamps = [5, 6] ∧ Forum.Undisturbed site (repliedForum, journal) := by
  have posted : Forum.DistinctIds site laterForum := ⟨by decide, by decide⟩
  have nodup : ([laterPost, reply].map (·.id)).Nodup := by decide
  have notHive : ∀ item ∈ [laterPost, reply],
      site.directory.hives.get? item.id.asScope = none := by decide
  have replied : ∀ store, Forum.DistinctIds site ⟨store, [laterPost, reply]⟩ :=
    fun _ => ⟨nodup, notHive⟩
  obtain ⟨first, hfirst, writes⟩ := @writePost_steps .calm (Forum.DistinctIds site)
    ⟨.nil, fun _ h => by cases h⟩ posted
  obtain ⟨second, hsecond, replies⟩ := @writeReply_steps .calm (Forum.DistinctIds site) first posted
    replied
  have fits : ∀ invocation, Turn.Fits ⟨site.directory, .calm, invocation⟩ site :=
    fun _ => ⟨Conditions.honest_calm, fun _ => id⟩
  have before := @Forum.Undisturbed.turn site _ _ ⟨site.directory, .calm, writePost⟩ _ _ .blank
    (fits _) rfl writes rfl fun h => by cases h
  have after := @Forum.Undisturbed.turn site _ _ ⟨site.directory, .calm, writeReply⟩ _ _ before
    (fits _) rfl replies rfl fun h => by cases h
  refine ⟨second, ?_, after⟩
  rw [hsecond, hfirst]
  rfl

/-- The post tells of one comment and its time. -/
theorem replied_aggregates : ∃ journal : Journal,
    Forum.Undisturbed site (repliedForum, journal) ∧
      journal.stamps = StampClock.readings 0 [5, -3] ∧
      (∀ time ∈ journal.stamps, time.toInt < 9223372036854775807) ∧
      repliedForum.store.item? laterPost.key = some repliedPost ∧
      ((repliedForum.standing laterPost.id.asScope).length : Int) = repliedPost.comments.toInt ∧
      repliedPost.lastActivityAt = repliedPost.latestIn repliedForum.created ∧
      ∃ posts, posts.Perm (repliedForum.standing ⟨.ofNat 1⟩) ∧
        ∀ place : Site, place.Shows repliedForum (.active ⟨.ofNat 1⟩) posts := by
  obtain ⟨journal, hstamps, undisturbed⟩ := replied_undisturbed
  have clocked : journal.stamps = StampClock.readings 0 [5, -3] := hstamps.trans readings_replied
  have early : ∀ time ∈ journal.stamps, time.toInt < 9223372036854775807 := hstamps ▸ early_replied
  obtain ⟨posts, hives⟩ := Forum.aggregates_agree undisturbed clocked early
  obtain ⟨hcount, -, -, hactive⟩ := posts laterPost.key repliedPost rfl rfl
  obtain ⟨active, hperm, -, -, hshows⟩ := hives ⟨.ofNat 1⟩ (by decide)
  exact ⟨journal, undisturbed, clocked, early, rfl, hcount, hactive, active, hperm, hshows⟩

end Sample

end HiveForum
