import HiveForum.Proofs.Deletion.Reckoning
import HiveForum.Proofs.Forum.Dating
import HiveForum.Proofs.Forum.Turns

/-!
# Times of activity

The time of activity of a post is the time of creation of the latest comment that has been written
under it, also if the comment has been deleted since. The comment is stored before the post follows,
so while its operation is at work the post shows the time of the comment before.

## Main definitions

* `ContentItem.replies`, `ContentItem.latestIn`: the comments written under a post, and the time of
  the latest one.
* `Forum.Active`: the times of activity are those of the latest comments.
* `Forum.Upheld`: so they are in a forum that can be reached, if time stamps increase.

## Main results

* `Forum.Active.answer`, `Forum.Upheld.turn`: an effect and a turn keep the times of activity right.
-/

namespace HiveForum

namespace ContentItem

/-- The comments among the items that have been written under a post. -/
def replies (post : ContentItem) (created : List ContentItem) : List ContentItem :=
  created.filter fun item => decide (item.kind = .comment ∧ item.parentKey = post.key)

/-- The time of creation of the last of them; that of the post if there is none. -/
def latestIn (post : ContentItem) (created : List ContentItem) : Int64 :=
  ((post.replies created).getLast?.map (·.createdAt)).getD post.createdAt

variable {post item : ContentItem} {created : List ContentItem}

theorem latestIn_append_reply (kind : item.kind = .comment) (parent : item.parentKey = post.key) :
    post.latestIn (created ++ [item]) = item.createdAt := by
  simp [latestIn, replies, List.filter_append, kind, parent]

theorem latestIn_append_other (other : item.kind = .comment → item.parentKey ≠ post.key) :
    post.latestIn (created ++ [item]) = post.latestIn created := by
  have hnone : ¬(item.kind = .comment ∧ item.parentKey = post.key) := fun h => other h.1 h.2
  simp [latestIn, replies, List.filter_append, hnone]

theorem latestIn_of_replies_eq_nil (nothing : post.replies created = []) :
    post.latestIn created = post.createdAt := by
  rw [latestIn, nothing]
  rfl

theorem mem_replies : item ∈ post.replies created ↔
    item ∈ created ∧ item.kind = .comment ∧ item.parentKey = post.key := by
  rw [replies, List.mem_filter, decide_eq_true_eq]

/-- The time is that of the post or of a comment under it. -/
theorem exists_latestIn (stored : post.asCreated ∈ created) : ∃ item ∈ created,
    item.createdAt = post.latestIn created ∧
      (item = post.asCreated ∨ item ∈ post.replies created) := by
  cases hlast : (post.replies created).getLast? with
  | none =>
    refine ⟨post.asCreated, stored, ?_, .inl rfl⟩
    rw [latestIn, hlast]
    rfl
  | some item =>
    have hmem : item ∈ post.replies created := List.mem_of_getLast? hlast
    refine ⟨item, (mem_replies.1 hmem).1, ?_, .inr hmem⟩
    rw [latestIn, hlast]
    rfl

end ContentItem

/-- The time of activity of every post that is stored is that of its latest comment among these
items. -/
def StoreState.ActiveIn (store : StoreState) (created : List ContentItem) : Prop :=
  ∀ key post, store.item? key = some post → post.kind = .post →
    post.lastActivityAt = post.latestIn created

/-- A timeless effect moves no time of activity. -/
theorem Site.Answer.exists_of_timeless {site : Site} {conditions : Conditions} {effect : Effect}
    {forum after : Forum} {reply : effect.Reply}
    (answer : site.Answer conditions effect forum reply after) (timeless : effect.Timeless)
    {key : ContentKey} {item : ContentItem} (h : after.store.item? key = some item) :
    ∃ before, forum.store.item? key = some before ∧ item.asCreated = before.asCreated ∧
      item.lastActivityAt = before.lastActivityAt := by
  obtain rfl | ⟨request, store, rfl, change, rfl⟩ := answer.change
  · exact ⟨item, h, rfl, rfl⟩
  · have unmoved : ∀ key before after, request.Edits key before after →
        after.asCreated = before.asCreated ∧ after.lastActivityAt = before.lastActivityAt := by
      intro _ _ _ edits
      refine ⟨edits.asCreated_eq, ?_⟩
      cases edits with
      | touch => exact timeless.elim
      | _ => rfl
    rw [Forum.after_store] at h
    refine (change.item?_source (fun after before => after.asCreated = before.asCreated ∧
      after.lastActivityAt = before.lastActivityAt) (fun _ => ⟨rfl, rfl⟩) unmoved
      (fun change item => ⟨change.asCreated_applyTo item, rfl⟩)
      (fun outcome item => ⟨outcome.asCreated_applyTo item, by cases outcome <;> rfl⟩)
      h).resolve_right ?_
    rintro ⟨rfl, -⟩
    exact timeless

/-- The time of activity of an item is moved forward, or there is no item, where no call fails. -/
theorem Site.Answer.of_touchActivity {site : Site} {forum after : Forum} {key : ContentKey}
    {time : Int64} {reply : Except StoreError Unit}
    (h : site.Answer .calm (.store (.touchActivity key time)) forum reply after) :
    forum.store.item? key = none ∧ after = forum ∨
      ∃ item, forum.store.item? key = some item ∧ after = ⟨forum.store.putItem key
        { item with lastActivityAt := max item.lastActivityAt time }, forum.created⟩ := by
  cases reply with
  | ok answer =>
    obtain ⟨store, hok, rfl⟩ := h.of_ok fun _ heq => by cases heq
    cases StoreState.change_of_perform hok with
    | read hread => cases hread
    | edit edits found =>
      cases edits
      exact .inr ⟨_, found, rfl⟩
  | error error =>
    obtain ⟨rfl, hfailed | ⟨-, hrefused⟩⟩ := h.of_error Conditions.honest_calm
    · refine .inl ⟨?_, rfl⟩
      cases hitem : after.store.item? key with
      | none => rfl
      | some item =>
        simp [StoreState.perform, StoreState.updateItem, hitem, Except.map] at hfailed
    · exact hrefused.elim

namespace Forum

/-- The times of activity are those of the latest comments. If an operation has still to move one,
they are those without the comment that has been stored last. -/
def Active (forum : Forum) : Draft → Prop
  | .owing key time => ∃ before comment, forum.created = before ++ [comment] ∧
      comment.kind = .comment ∧ comment.parentKey = key ∧ comment.createdAt = time ∧
        forum.store.ActiveIn before
  | .none => forum.store.ActiveIn forum.created
  | .stamped _ => forum.store.ActiveIn forum.created

variable {site place : Site} {draft draft' : Draft} {forum after : Forum} {journal : Journal}

/-- The times of activity stay right where they stay as they are. -/
theorem Active.unmoved (h : forum.Active draft) (created : after.created = forum.created)
    (items : ∀ key item, after.store.item? key = some item →
      ∃ before, forum.store.item? key = some before ∧ item.asCreated = before.asCreated ∧
        item.lastActivityAt = before.lastActivityAt) : after.Active draft := by
  have active : ∀ {written : List ContentItem}, forum.store.ActiveIn written →
      after.store.ActiveIn written := by
    intro written hactive key post hpost hkind
    obtain ⟨before, hbefore, hsame, htime⟩ := items key post hpost
    have hbeforeKind : before.kind = .post :=
      (ContentItem.field_eq hsame ContentItem.kind fun _ => rfl).symm.trans hkind
    rw [htime, hactive key before hbefore hbeforeKind]
    exact ContentItem.field_eq hsame.symm (ContentItem.latestIn · written) fun _ => rfl
  cases draft with
  | owing key time =>
    obtain ⟨before, comment, hcreated, kind, parent, dated, hactive⟩ := h
    exact ⟨before, comment, created.trans hcreated, kind, parent, dated, active hactive⟩
  | none =>
    rw [Active, created]
    exact active h
  | stamped time =>
    rw [Active, created]
    exact active h

theorem Sound.replies_eq_nil {outlook : Outlook} (sound : forum.Sound outlook) {store : StoreState}
    {post : ContentItem} (distinct : DistinctIds site ⟨store, forum.created ++ [post]⟩) :
    post.replies forum.created = [] := by
  refine List.eq_nil_iff_forall_not_mem.2 fun comment hcomment => ?_
  obtain ⟨hmem, hkind, hparent⟩ := ContentItem.mem_replies.1 hcomment
  have hplace := sound.places comment hmem
  rw [Places, hkind] at hplace
  obtain ⟨above, habove, -, -, hscope⟩ := hplace
  refine distinct.unused_last.items above habove ?_
  have hid : comment.scope.asContent = post.id := congrArg ContentKey.id hparent
  rw [← hid, ← hscope]
  rfl

/-- A post that is stored is as active as it is new. -/
theorem Active.posted {outlook : Outlook} {time : Int64} {post : ContentItem}
    (h : forum.Active (.stamped time)) (sound : forum.Sound outlook)
    (distinct : DistinctIds site
      ⟨forum.store.putItem post.key post, forum.created ++ [post]⟩)
    (fresh : post.asCreated = post) (kind : post.kind = .post) :
    Active ⟨forum.store.putItem post.key post, forum.created ++ [post]⟩ .none := by
  intro key item hitem hkind
  have hother : ∀ {item : ContentItem}, item.latestIn (forum.created ++ [post]) =
      item.latestIn forum.created := fun {item} =>
    ContentItem.latestIn_append_other fun hcomment => by
      rw [kind] at hcomment
      cases hcomment
  rw [hother]
  dsimp only at hitem
  rw [StoreState.item?_putItem] at hitem
  split at hitem
  · obtain rfl := Option.some.inj hitem
    rw [ContentItem.latestIn_of_replies_eq_nil (sound.replies_eq_nil distinct), ← fresh]
    rfl
  · exact h key item hitem hkind

theorem Active.commented {time : Int64} {comment : ContentItem} (h : forum.Active (.stamped time))
    (dated : comment.createdAt = time) (kind : comment.kind = .comment) :
    Active ⟨forum.store.putItem comment.key comment, forum.created ++ [comment]⟩
      (.owing comment.parentKey time) := by
  refine ⟨forum.created, comment, rfl, kind, rfl, dated, fun key item hitem hkind => ?_⟩
  dsimp only at hitem
  rw [StoreState.item?_putItem] at hitem
  split at hitem
  · obtain rfl := Option.some.inj hitem
    rw [kind] at hkind
    cases hkind
  · exact h key item hitem hkind

/-- The time of activity of the post above a comment follows, if the post is stored. -/
theorem Active.touched {key : ContentKey} {time : Int64} (h : forum.Active (.owing key time))
    (filed : forum.store.Filed)
    (recorded : ∀ key item, forum.store.item? key = some item → item.asCreated ∈ forum.created)
    (increasing : (forum.created.map (·.createdAt)).Pairwise (· < ·))
    (touch : forum.store.item? key = none ∧ after = forum ∨
      ∃ post, forum.store.item? key = some post ∧ after = ⟨forum.store.putItem key
        { post with lastActivityAt := max post.lastActivityAt time }, forum.created⟩) :
    after.Active .none := by
  obtain ⟨before, comment, hcreated, kind, rfl, rfl, hactive⟩ := h
  -- posts under other keys are as active as they were
  have others : ∀ key' post, forum.store.item? key' = some post → post.kind = .post →
      key' ≠ comment.parentKey → post.lastActivityAt = post.latestIn forum.created := by
    intro key' post hpost hkind hne
    rw [hactive key' post hpost hkind, hcreated, ContentItem.latestIn_append_other]
    intro _ hparent
    exact hne (hparent.trans (filed key' post hpost)).symm
  obtain ⟨hnone, rfl⟩ | ⟨post, hpost, rfl⟩ := touch
  · intro key' item hitem hkind
    refine others key' item hitem hkind ?_
    rintro rfl
    rw [hnone] at hitem
    cases hitem
  · intro key' item hitem hkind
    dsimp only at hitem ⊢
    rw [StoreState.item?_putItem] at hitem
    split at hitem
    · obtain rfl := Option.some.inj hitem
      have hkind : post.kind = .post := hkind
      have hlast : post.latestIn forum.created = comment.createdAt := by
        rw [hcreated]
        exact ContentItem.latestIn_append_reply kind (filed _ post hpost).symm
      -- the post and all comments on it before are older than the comment
      have hmem : post.asCreated ∈ before := by
        have hmem := recorded _ post hpost
        rw [hcreated] at hmem
        refine (List.mem_append.1 hmem).resolve_right fun hlast => ?_
        have hcomment : post.asCreated.kind = .comment := List.mem_singleton.1 hlast ▸ kind
        rw [show post.asCreated.kind = post.kind from rfl, hkind] at hcomment
        cases hcomment
      obtain ⟨latest, hlatest, htime, -⟩ := ContentItem.exists_latestIn hmem
      have hlater : latest.createdAt < comment.createdAt := by
        rw [hcreated, List.map_append, List.pairwise_append] at increasing
        exact increasing.2.2 _ (List.mem_map_of_mem hlatest) _ (List.mem_singleton_self _)
      have hmax : max post.lastActivityAt comment.createdAt = comment.createdAt := by
        rw [hactive _ post hpost hkind, ← htime]
        exact if_pos (Std.le_of_lt hlater)
      exact hmax.trans hlast.symm
    · rename_i hne
      exact others key' item hitem hkind hne

/-- Where no call fails, an effect by which an item is dated, or a timeless one, keeps the times of
activity right. -/
theorem Active.answer {effect : Effect} {reply : effect.Reply} (h : forum.Active draft)
    (dated : Dated draft (forum, journal)) (increasing : journal.stamps.Pairwise (· < ·))
    (reachable : forum.Reachable site) (after_reachable : after.Reachable site)
    (answer : place.Answer .calm effect forum reply after)
    (passes : dating.Passes draft effect reply draft') : after.Active draft' := by
  obtain ⟨timeless, rfl⟩ | moves := passes
  · refine h.unmoved (answer.created_cases.resolve_right ?_) fun _ _ hitem =>
      answer.exists_of_timeless timeless hitem
    rintro ⟨item, rfl, -⟩
    exact timeless.elim
  · cases moves with
    | take =>
      obtain rfl := answer.eq_of_isQuiet rfl
      exact h
    | post _ fresh kind =>
      obtain ⟨store, hput, rfl⟩ := answer.of_ok fun _ heq => by cases heq
      obtain ⟨-, rfl⟩ := perform_putContent_eq_ok hput
      exact h.posted reachable.sound.1 after_reachable.sound.2 fresh kind
    | comment created _ kind =>
      obtain ⟨store, hput, rfl⟩ := answer.of_ok fun _ heq => by cases heq
      obtain ⟨-, rfl⟩ := perform_putContent_eq_ok hput
      exact h.commented created kind
    | refused =>
      obtain ⟨rfl, -⟩ := answer.of_error Conditions.honest_calm
      exact h
    | touch =>
      have times := increasing.sublist ((List.sublist_append_left _ _).trans dated.times)
      exact h.touched dated.filed dated.recorded times answer.of_touchActivity

/-- Two posts are not active at the same time. -/
theorem Dated.key_eq_of_latestIn {a b : ContentItem} {key key' : ContentKey}
    (dated : Dated draft (forum, journal))
    (increasing : (forum.created.map (·.createdAt)).Pairwise (· < ·))
    (ha : forum.store.item? key = some a) (hb : forum.store.item? key' = some b)
    (kind : a.kind = .post) (kind' : b.kind = .post)
    (h : a.latestIn forum.created = b.latestIn forum.created) : a.key = b.key := by
  obtain ⟨first, hfirst, htime, hcase⟩ := ContentItem.exists_latestIn (dated.recorded _ a ha)
  obtain ⟨second, hsecond, htime', hcase'⟩ := ContentItem.exists_latestIn (dated.recorded _ b hb)
  have nodup : (forum.created.map (·.createdAt)).Nodup := increasing.imp fun hlt => Std.ne_of_lt hlt
  obtain rfl : first = second :=
    List.inj_on_of_nodup_map nodup hfirst hsecond (htime.trans (h.trans htime'.symm))
  have notReply : ∀ {post other : ContentItem} {created : List ContentItem},
      post.kind = .post → post.asCreated ∉ other.replies created := by
    intro post other created hpost hmem
    have hcomment : post.kind = .comment := (ContentItem.mem_replies.1 hmem).2.1
    rw [hpost] at hcomment
    cases hcomment
  obtain rfl | hreply := hcase
  · obtain hsame | hreply := hcase'
    · exact ContentItem.field_eq hsame ContentItem.key fun _ => rfl
    · exact absurd hreply (notReply kind)
  · obtain rfl | hreply' := hcase'
    · exact absurd hreply (notReply kind')
    · have hscope := (ContentItem.mem_replies.1 hreply).2.2
      exact hscope.symm.trans (ContentItem.mem_replies.1 hreply').2.2

/-! ### Turns -/

/-- The forum can be reached and its items are dated, and the times of activity are right if the
time stamps increase. -/
structure Upheld (site : Site) (draft : Draft) (state : Forum × Journal) : Prop where
  reachable : state.1.Reachable site
  dated : Dated draft state
  active : state.2.stamps.Pairwise (· < ·) → state.1.Active draft

theorem upheld_blank : Upheld site .none (.blank, []) where
  reachable := @Reachable.run site [] [] _ .none
  dated := dated_blank
  active _ := fun _ _ h => by cases h

/-- A turn that comes to its end, and in which no call fails, keeps the times of activity right. -/
theorem Upheld.turn {state after : Forum × Journal} {turn : Turn}
    {thread : Thread turn.invocation.operation.Result}
    {result : Except OperationError turn.invocation.operation.Result}
    (h : Upheld site .none state) (fits : turn.Fits site) (calm : turn.conditions = .calm)
    (run : turn.Runs site state thread after) (ended : thread.result? = some result) :
    Upheld site .none after := by
  have follows := turn.invocation.operation.follows_dating turn.invocation.settings
    turn.invocation.horizon
  have keeps : ∀ {draft draft' : Draft} {before later : Forum × Journal} {effect : Effect}
      {reply : effect.Reply}, Upheld site draft before →
        ((turn.responses site).within (Reachable site)).journaled.Answers effect before reply
            later →
          dating.Passes draft effect reply draft' → Upheld site draft' later := by
    rintro _ _ before later _ _ hheld ⟨⟨⟨answer, -⟩, reachable⟩, hjournal⟩ passes
    refine ⟨reachable, hheld.dated.answer ⟨answer, hjournal⟩ passes, fun increasing => ?_⟩
    have stamps : before.2.stamps.Pairwise (· < ·) := by
      rw [hjournal, Journal.stamps_append] at increasing
      exact (List.pairwise_append.1 increasing).1
    have answer : (turn.place site).Answer turn.conditions _ before.1 _ later.1 := answer
    rw [calm] at answer
    exact (hheld.active stamps).answer hheld.dated stamps hheld.reachable reachable answer passes
  obtain ⟨draft, hfollows, hheld⟩ := (run.journaled_reachable fits h.reachable).follows
    (fun hheld answer => Site.Answer.locates answer.1.1.1 hheld.dated.filed) keeps
    (.running follows) h
  obtain ⟨-, -, rfl⟩ | rfl := hfollows.of_result? ended
  · exact hheld
  · exact hheld

end Forum

end HiveForum
