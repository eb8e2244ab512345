import HiveForum.Proofs.Deletion.Cascade
import HiveForum.Proofs.Forum.Run
import HiveForum.Proofs.Program.Ending

/-!
# A deletion removes exactly a tree

However the units of a deletion advance, how large the pages and batches of the store are, and
whatever calls are refused on the way: if the deletion ends well, the tree of its target is gone and
nothing else has changed, but for the count of comments of the post above a deleted comment. To
delete the same target again changes nothing.

## Main definitions

* `Forum.still`: the contract of a program that changes nothing and does not fail.

## Main results

* `Forum.deleteContent_removes_tree`: what is left of a forum by a deletion that ends well.
* `Forum.ends_deleteContent_absent`: a deletion of what is gone ends well and changes nothing.
-/

namespace HiveForum

open Program

namespace Forum

variable {site : Site} {conditions : Conditions} {start later forum : Forum}
  {root : ContentItem} {settings : Settings} {horizon : Nat} {caller : Caller} {target : Target}

/-- A program that runs alone, changes nothing and does not fail. -/
def still : Contract Forum where
  rely forum later := later = forum
  guarantee forum later := later = forum
  failing _ _ := False
  endless := False
  rely_refl _ := rfl
  rely_trans h h' := h'.trans h

/-- A deletion of what is gone ends well and changes nothing, if the caller is a member. -/
theorem ends_deleteContent_absent {role : Role} (settings : Settings) (horizon : Nat)
    (member : site.directory.checkMember caller target.hive = .ok role)
    (absent : forum.store.item? target.content = none) :
    Thread.Ends (site.responses .calm) (fun result later => result = .ok () ∧ later = forum)
      (.running (deleteContent settings horizon caller target)) forum := by
  have hload : (loadTarget target).Meets (site.responses .calm)
      (still.withFailing fun error _ => error = .notFound) none (fun _ _ => False) forum := by
    rintro _ reply after rfl answer
    cases reply with
    | ok item =>
      obtain ⟨hitem, -⟩ := answer.getContent
      rw [absent] at hitem
      cases hitem
    | error error =>
      obtain ⟨rfl, hfailed | ⟨-, hrefused⟩⟩ := answer.of_error Conditions.honest_calm
      · simp only [StoreState.perform, absent, Except.error.injEq] at hfailed
        subst hfailed
        exact ⟨rfl, fun _ _ => rfl⟩
      · exact hrefused.elim
  have hmeets : (deleteContent settings horizon caller target).Meets (site.responses .calm) still
      none (fun _ later => later = forum) forum := by
    rw [deleteContent]
    rintro _ reply after rfl answer
    obtain ⟨rfl, rfl⟩ := answer.of_membership Conditions.honest_calm
    rw [member]
    refine ⟨rfl, Meets.unlessNotFound hload (fun _ middle _ h => (h middle rfl).elim) ?_
      fun _ _ hfound h => hfound h⟩
    rintro middle moves - last rfl -
    induction moves with
    | refl => rfl
    | tail _ change ih => exact (change.elim id id).trans ih
  refine (Thread.Meets.ends (site.exists_answer .calm) (.running hmeets) id).imp ?_
  rintro (error | value) later ⟨hok, herror⟩
  · exact (herror error rfl).elim
  · exact ⟨rfl, hok value rfl⟩

theorem exists_role_of_mayDelete (h : site.mayDelete caller root = .ok ()) :
    ∃ role, site.directory.checkMember caller root.hive = .ok role := by
  rw [Site.mayDelete] at h
  cases hrole : site.directory.checkMember caller root.hive with
  | ok role => exact ⟨role, rfl⟩
  | error error =>
    rw [hrole] at h
    cases h

theorem Deleted.item?_eq_none (h : start.Deleted conditions root later) :
    later.store.item? root.key = none := by
  have hgone : (start.store.withoutTree root).item? root.key = none := by
    rw [StoreState.item?_withoutTree, if_pos (.inl rfl)]
  rcases h with rfl | ⟨-, rfl⟩
  · exact (StoreState.item?_uncounted_eq_none_iff _ _ _).2 hgone
  · exact hgone

/-- A forum has been reached in any way, and an item of it is deleted with any settings, by units
that advance in any order, while the store may refuse calls and leave batches half done. If the
deletion ends well, then exactly the tree of the item is gone, and the count of comments of the post
above follows unless that last call is refused. A second deletion ends well and changes nothing. -/
theorem deleteContent_removes_tree (reachable : start.Reachable site)
    (stored : start.store.item? target.content = some root) (owned : root.hive = target.hive)
    (honest : conditions.Honest)
    (run : Thread.Steps (site.responses conditions)
      (.running (deleteContent settings horizon caller target)) start (.running (.done ())) later) :
    start.Deleted conditions root later ∧
      ∀ settings horizon, Thread.Ends (site.responses .calm)
        (fun result last => result = .ok () ∧ last = later)
        (.running (deleteContent settings horizon caller target)) later := by
  obtain ⟨sound, distinct⟩ := reachable.sound
  have located : target.content = root.key := (sound.items _ root stored).1.symm
  have meets := @meets_deleteContent site conditions False True start root honest
    (sound.tiered distinct) (located ▸ stored) settings horizon caller target located owned
    (.inl trivial)
  obtain ⟨may, deleted⟩ :=
    ((Site.steps_serving run).meets (.running meets)).1.of_result?.1 () rfl trivial
  refine ⟨deleted, fun settings horizon => ?_⟩
  obtain ⟨role, hrole⟩ := exists_role_of_mayDelete may
  exact ends_deleteContent_absent settings horizon (owned ▸ hrole) (located ▸ deleted.item?_eq_none)

end Forum

namespace Sample

/-- A comment on the post. -/
def comment : ContentItem := .newComment ⟨.ofNat 1⟩ ⟨.ofNat 2⟩ ⟨.ofNat 3⟩ caller.user "reply" 0

/-- The post with a comment. -/
def discussedPost : ContentItem := { post with comments := 1 }

/-- The record of a vote of the member for the comment. -/
def votedComment : EngagementRecord :=
  { EngagementRecord.neutral caller.user comment.key comment.hive with
    upVoted := true, votedAt := some 0 }

/-- The store with the post and the comment. -/
def discussed : StoreState :=
  (forum.store.putItem comment.key comment).putItem post.key discussedPost

/-- The forum with the post, the comment and the vote. -/
def discussion : Forum :=
  ⟨(discussed.withRecord votedComment).putItem comment.key { comment with upVotes := 1 },
    [post, comment]⟩

theorem discussion_reachable : discussion.Reachable site := by
  have posted : forum.DistinctIds site := ⟨by decide, by decide⟩
  have nodup : ([post, comment].map (·.id)).Nodup := by decide
  have notHive : ∀ item ∈ [post, comment],
      site.directory.hives.get? item.id.asScope = none := by decide
  have commented : ∀ store, (⟨store, [post, comment]⟩ : Forum).DistinctIds site :=
    fun _ => ⟨nodup, notHive⟩
  have asked : ∀ forum, (site.responses .wild).Answers (.membership caller post.hive) forum
      (.ok .owner) forum := fun forum => .role caller post.hive forum
  have found : forum.store.perform site.limits (.getContent post.key) = .ok (post, forum.store) :=
    rfl
  have put : forum.store.perform site.limits (.putContent comment) =
      .ok ((), forum.store.putItem comment.key comment) := rfl
  have count : (forum.store.putItem comment.key comment).perform site.limits
      (.adjustCounts post.key (.ofComments 1)) = .ok (discussedPost, discussed) := rfl
  have touch : discussed.perform site.limits (.touchActivity post.key 0) = .ok ((), discussed) :=
    rfl
  have write : Thread.Steps ((site.responses .wild).within (Forum.DistinctIds site))
      (.running (createComment caller post.hive post.id "reply")) forum
      (.running (.done comment)) ⟨discussed, [post, comment]⟩ :=
    .perform ⟨asked forum, posted⟩ <| .perform ⟨.carriedOut found, posted⟩ <|
      .perform ⟨.stamp forum 0, posted⟩ <| .perform ⟨.draw forum comment.id, posted⟩ <|
        .perform ⟨.carriedOut put, commented _⟩ <| .perform ⟨.carriedOut count, commented _⟩ <|
          .perform ⟨.carriedOut touch, commented _⟩ <|
            .perform ⟨.notified _ _, commented _⟩ .none
  have read : discussed.perform site.limits (.getContent comment.key) =
      .ok (comment, discussed) := rfl
  have missing : discussed.perform site.limits (.getEngagement caller.user comment.id) =
      .error .recordNotFound := rfl
  have commit : discussed.perform site.limits
      (.commitVote votedComment comment.key { upVotes := 1 }) =
      .ok ((votedComment.written, { comment with upVotes := 1 }), discussion.store) := rfl
  have vote : Thread.Steps ((site.responses .wild).within (Forum.DistinctIds site))
      (.running (vote {} caller ⟨post.hive, comment.key⟩ .addUp)) ⟨discussed, [post, comment]⟩
      (.running (.done votedComment.written)) discussion :=
    .perform ⟨asked _, commented _⟩ <| .perform ⟨.carriedOut read, commented _⟩ <|
      .perform ⟨.stamp _ 0, commented _⟩ <| .perform ⟨.failed missing, commented _⟩ <|
        .perform ⟨.carriedOut commit, commented _⟩ .none
  let create : Invocation := ⟨{}, 0, .createComment caller post.hive post.id "reply"⟩
  let engage : Invocation := ⟨{}, 0, .vote caller ⟨post.hive, comment.key⟩ .addUp⟩
  have reached := @Forum.Reachable.steps site forum _ create _ forum_reachable write
  exact @Forum.Reachable.steps site _ _ engage _ reached vote

/-- The comment as a target. -/
def target : Target := ⟨post.hive, comment.key⟩

/-- The store after the unit of the deletion of the comment. -/
def cleared : StoreState := discussion.store.removeRecords [votedComment.key]

/-- The deletion of the comment up to the call that removes it. -/
theorem clear_steps (conditions : Conditions) :
    ∃ next : Except StoreError Unit → Program Unit,
      Thread.Steps (site.responses conditions) (.running (deleteContent {} 2 caller target))
        discussion (.running (.perform (.store (.deleteContent comment.key)) next))
        ⟨cleared, [post, comment]⟩ ∧
      next (.ok ()) =
        .perform (.store (.adjustCounts post.key (.ofComments (-1)))) (fun _ => .done ()) ∧
      next (.error .unavailable) = .fail (.storeUnavailable (.store .unavailable)) := by
  have asked : (site.responses conditions).Answers (.membership caller post.hive) discussion
      (.ok .owner) discussion := .role caller post.hive discussion
  have found : discussion.store.perform site.limits (.getContent comment.key) =
      .ok ({ comment with upVotes := 1 }, discussion.store) := rfl
  have listed : discussion.store.perform site.limits
      (.queryEngagement ⟨comment.id, Limit.batchWrite, none⟩) =
      .ok (⟨[votedComment.written], none⟩, discussion.store) := rfl
  have erased : discussion.store.perform site.limits (.deleteEngagements [votedComment.key]) =
      .ok ([], cleared) := rfl
  have erase : (site.responses conditions).Answers
      (.store (.deleteEngagements [votedComment.key])) discussion (.ok [])
      ⟨cleared, [post, comment]⟩ := .carriedOut erased
  have batch : Thread.Step (site.responses conditions)
      (.running (deleteBatch {} [votedComment.written.key])) discussion (.running (.done ()))
      ⟨cleared, [post, comment]⟩ := by
    rw [deleteBatch, deleteBatchFrom]
    exact .perform erase
  refine ⟨_, .perform asked <| .perform (.carriedOut found) <| .head .gather <|
    .head (.spawner (.perform (.carriedOut listed))) <| .head .spawn <|
      .head (@Thread.Step.start _ _ _ _ _ _ [] _ _ _ _ (by decide)) <|
        .head (@Thread.Step.unit _ _ _ _ _ _ _ _ [] _ _ _ _ _ batch) <|
          .head (@Thread.Step.finish _ _ _ _ _ _ [] _ _ _ _) <| .head (.join rfl) .none, rfl, rfl⟩

/-- A comment with a vote is deleted: what is left is the post without the comment. -/
theorem deleteContent_removes_comment :
    discussion.store.item? target.content = some { comment with upVotes := 1 } ∧
      discussion.Deleted .calm { comment with upVotes := 1 } ⟨forum.store, [post, comment]⟩ ∧
      ∀ settings horizon, Thread.Ends (site.responses .calm)
        (fun result last => result = .ok () ∧ last = ⟨forum.store, [post, comment]⟩)
        (.running (deleteContent settings horizon caller target))
        ⟨forum.store, [post, comment]⟩ := by
  obtain ⟨next, steps, hok, -⟩ := clear_steps .calm
  have remove : cleared.perform site.limits (.deleteContent comment.key) =
      .ok ((), cleared.removeItem comment.key) := rfl
  have count : (cleared.removeItem comment.key).perform site.limits
      (.adjustCounts post.key (.ofComments (-1))) = .ok (post, forum.store) := rfl
  have removed : Thread.Step (site.responses .calm)
      (.running (.perform (.store (.deleteContent comment.key)) next)) ⟨cleared, [post, comment]⟩
      (.running (next (.ok ()))) ⟨cleared.removeItem comment.key, [post, comment]⟩ :=
    .perform (.carriedOut remove)
  rw [hok] at removed
  have run := (steps.more removed).more (.perform (.carriedOut count))
  have stored : discussion.store.item? target.content = some { comment with upVotes := 1 } := rfl
  exact ⟨stored, Forum.deleteContent_removes_tree discussion_reachable stored rfl
    Conditions.honest_calm run⟩

end Sample

end HiveForum
