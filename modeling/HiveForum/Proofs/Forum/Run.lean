import HiveForum.Proofs.Forum.Operations
import HiveForum.Proofs.Program.Trace

/-!
# Forums that are reached

A forum that operations have brought about, side by side and whatever went wrong, is sound. The
items that are spared are those that no operation of the run deletes.

## Main definitions

* `Sample.forum`, `Sample.votedForum`: a forum with a single post, and with a vote for it.

## Main results

* `Forum.Sound.of_run`: the forum after a run is sound.
* `Forum.Reachable.sound`: a forum that can be reached is sound.
* `Forum.Reachable.steps`, `Forum.Reachable.pool_steps`: what more operations make of it can be
  reached, too.
* `Forum.Reachable.steps_within`: all along a run the forum can be reached.
* `Forum.Reachable.createPost`: so can it with a new post.
-/

namespace HiveForum

open Program

/-- The items that were stored remain on record, in their order. -/
theorem Site.Answer.created_prefix {site : Site} {conditions : Conditions} {effect : Effect}
    {forum after : Forum} {reply : effect.Reply}
    (answer : site.Answer conditions effect forum reply after) :
    forum.created <+: after.created := by
  have hafter : ∀ (store : StoreState) (request : Request),
      forum.created <+: (forum.after store request).created := by
    intro store request
    cases request with
    | putContent item => exact List.prefix_append _ _
    | _ => exact List.prefix_refl _
  cases answer with
  | carriedOut => exact hafter _ _
  | lost => exact hafter _ _
  | _ => exact List.prefix_refl _

theorem Site.Answer.created_subset {site : Site} {conditions : Conditions} {effect : Effect}
    {forum after : Forum} {reply : effect.Reply}
    (answer : site.Answer conditions effect forum reply after) :
    forum.created ⊆ after.created :=
  answer.created_prefix.subset

/-- A member writes a post under a fresh identifier. -/
theorem createPost_steps {site : Site} {conditions : Conditions} {Holds : Forum → Prop}
    {forum : Forum} {caller : Caller} {hive : ScopeId} {body : String} {tags : List TagId}
    {role : Role} (time : Int64) {id : ContentId}
    (member : site.directory.checkMember caller hive = .ok role)
    (hbody : checkBody body = .ok ())
    (htags : checkTagCount tags.length Limit.itemTags = .ok ())
    (vacant : forum.store.item? ⟨hive, id⟩ = none)
    (before : Holds forum)
    (after : Holds ⟨forum.store.putItem ⟨hive, id⟩ (.newPost hive id caller.user body tags time),
      forum.created ++ [.newPost hive id caller.user body tags time]⟩) :
    Thread.Steps ((site.responses conditions).within Holds)
      (.running (createPost caller hive body tags)) forum
      (.running (.done (.newPost hive id caller.user body tags time)))
      ⟨forum.store.putItem ⟨hive, id⟩ (.newPost hive id caller.user body tags time),
        forum.created ++ [.newPost hive id caller.user body tags time]⟩ := by
  let post : ContentItem := .newPost hive id caller.user body tags time
  have hrole : (site.responses conditions).Answers (.membership caller hive) forum (.ok role)
      forum := member ▸ .role caller hive forum
  have hput : forum.store.perform site.limits (.putContent post) =
      .ok ((), forum.store.putItem post.key post) := by
    have hvacant : forum.store.item? post.key = none := vacant
    simp [StoreState.perform, hvacant]
  have hprogram : createPost caller hive body tags = (authorize caller hive).bind fun _ =>
      Program.timestamp.bind fun time => Program.newContentId.bind fun id =>
        (call (.putContent (.newPost hive id caller.user body tags time))).bind fun _ =>
          .done (.newPost hive id caller.user body tags time) := by
    rw [createPost, hbody, htags]
    rfl
  rw [hprogram]
  exact .perform ⟨hrole, before⟩ <| .perform ⟨.stamp forum time, before⟩ <|
    .perform ⟨.draw forum id, before⟩ <| .perform ⟨.carriedOut hput, after⟩ .none

namespace Forum

variable {site : Site} {conditions : Conditions} {forum : Forum}

theorem Sound.blank (outlook : Outlook) : Forum.blank.Sound outlook where
  ids := .nil
  known := List.nil_subset _
  range _ _ := ⟨by decide, fun _ h => (by cases h)⟩
  places _ h := by cases h
  compact _ _ h := by cases h
  items _ _ h := by cases h
  nonneg _ _ h := by cases h
  records _ _ h := by cases h
  counts _ _ h := by cases h

/-- The forum after a run is sound, if identifiers were given out once all along the run, no item
that is spared is deleted, and the numbers of records and writes stayed in range if there are any
such items. -/
theorem Sound.of_run {spared : ContentItem → Prop} {Holds : Forum → Prop}
    {invocations : List Invocation} {pool : Thread.Pool}
    (run : Thread.Pool.Steps ((site.responses conditions).within Holds)
      (Invocation.pool invocations) .blank pool forum)
    (ids : ∀ forum, Holds forum → (forum.created.map (·.id)).Nodup)
    (range : ∀ forum, Holds forum → ∀ item, spared item → forum.store.InRange)
    (others : ∀ item, spared item → ∀ invocation ∈ invocations,
      ¬invocation.operation.Deletes forum.created item) :
    forum.Sound ⟨site, forum.created, spared⟩ := by
  let outlook : Outlook := ⟨site, forum.created, spared⟩
  have hcreated : ∀ {effect : Effect} {state after : Forum} {reply : effect.Reply},
      ((site.responses conditions).within Holds).Answers effect state reply after →
        after.created ⊆ forum.created → state.created ⊆ forum.created :=
    fun answer hafter => List.Subset.trans (Site.Answer.created_subset answer.1) hafter
  have himp : ∀ {effect : Effect} {state after : Forum} {reply : effect.Reply},
      (((site.responses conditions).within Holds).within
        fun later => later.created ⊆ forum.created).Answers effect state reply after →
        (regular outlook conditions).Answers effect state reply after :=
    fun {_ _ after _} answer =>
      ⟨answer.1.1, ids after answer.1.2, answer.2, range after answer.1.2⟩
  have hregular := (run.within_of_after hcreated (List.Subset.refl _)).imp himp
  have hpool : ∀ thread ∈ Invocation.pool invocations, thread.2.Meets
      (regular outlook conditions) (contract outlook) none (fun _ _ => True) .blank := by
    intro thread hthread
    obtain ⟨invocation, hinvocation, rfl⟩ := List.mem_map.1 hthread
    exact .running (invocation.operation.complies (.blank outlook)
      (fun item hspared => others item hspared invocation hinvocation) _ _)
  exact ((hregular.meets (fun h => h) hpool).1 (.blank outlook)).sound

/-- A forum that can be reached is sound, and no identifier was given out twice or is that of a
hive. -/
theorem Reachable.sound (h : forum.Reachable site) :
    forum.Sound ⟨site, forum.created, fun _ => False⟩ ∧ forum.DistinctIds site := by
  obtain ⟨run⟩ := h
  refine ⟨Sound.of_run run (fun _ h => h.nodup) (fun _ _ _ h => h.elim) fun _ h => h.elim, ?_⟩
  have hids : ∀ {effect : Effect} {state after : Forum} {reply : effect.Reply},
      ((site.responses .wild).within (DistinctIds site)).Answers effect state reply after →
        state.DistinctIds site → after.DistinctIds site := fun answer _ => answer.2
  exact run.preserves hids ⟨.nil, fun _ h => by cases h⟩

/-- What one more operation makes of a forum that can be reached can be reached, too, wherever the
operation is in its run. -/
theorem Reachable.steps {after : Forum} {invocation : Invocation}
    {thread : Thread invocation.operation.Result} (h : forum.Reachable site)
    (steps : Thread.Steps ((site.responses .wild).within (DistinctIds site))
      invocation.thread.2 forum thread after) : after.Reachable site := by
  obtain @⟨invocations, pool, _, run⟩ := h
  have hpool : Invocation.pool (invocations ++ [invocation]) =
      Invocation.pool invocations ++ [invocation.thread] := List.map_append
  have hrun := (run.append [invocation.thread]).trans (.of_thread steps pool [])
  rw [← hpool] at hrun
  exact .run hrun

/-- What more operations side by side make of a forum that can be reached can be reached, too. -/
theorem Reachable.pool_steps {after : Forum} {invocations : List Invocation} {pool : Thread.Pool}
    (h : forum.Reachable site)
    (steps : Thread.Pool.Steps ((site.responses conditions).within (DistinctIds site))
      (Invocation.pool invocations) forum pool after) : after.Reachable site := by
  obtain @⟨invocations', pool', _, run⟩ := h
  have hpool : Invocation.pool (invocations' ++ invocations) =
      Invocation.pool invocations' ++ Invocation.pool invocations := List.map_append
  have himp : ∀ {effect : Effect} {forum after : Forum} {reply : effect.Reply},
      ((site.responses conditions).within (DistinctIds site)).Answers effect forum reply after →
        ((site.responses .wild).within (DistinctIds site)).Answers effect forum reply after :=
    fun answer => ⟨answer.1.wild, answer.2⟩
  have hrun := (run.append (Invocation.pool invocations)).trans ((steps.imp himp).prepend pool')
  rw [← hpool] at hrun
  exact .run hrun

/-- All along a run of operations from a forum that can be reached the forum can be reached. -/
theorem Reachable.steps_within {Holds : Forum → Prop} {invocations : List Invocation}
    {pool : Thread.Pool} {state after : Forum × List (Event Forum)} (h : state.1.Reachable site)
    (distinct : ∀ forum, Holds forum → forum.DistinctIds site)
    (steps : Thread.Pool.Steps ((site.responses conditions).within Holds).journaled
      (Invocation.pool invocations) state pool after) :
    Thread.Pool.Steps ((site.responses conditions).within fun forum =>
      Holds forum ∧ forum.Reachable site).journaled (Invocation.pool invocations) state pool
      after := by
  have shows : ∀ {effect : Effect} {state after : Forum × List (Event Forum)}
      {reply : effect.Reply},
      ((site.responses conditions).within Holds).journaled.Answers effect state reply after →
        ((site.responses conditions).within (DistinctIds site)).Answers effect state.1 reply
          after.1 := fun answer => ⟨answer.1.1, distinct _ answer.1.2⟩
  have reached : ∀ {pool : Thread.Pool} {after : Forum × List (Event Forum)},
      Thread.Pool.Steps ((site.responses conditions).within Holds).journaled
        (Invocation.pool invocations) state pool after → after.1.Reachable site :=
    fun steps => h.pool_steps (steps.map shows)
  refine (steps.within_of_reached reached).imp fun {effect state after reply} answer => ?_
  obtain ⟨⟨⟨answer, holds⟩, hjournal⟩, reachable⟩ := answer
  exact ⟨⟨answer, holds, reachable⟩, hjournal⟩

/-- A forum that can be reached can also be reached with one post more, which a member of its hive
writes under a fresh identifier. -/
theorem Reachable.createPost {caller : Caller} {hive : ScopeId} {body : String}
    {tags : List TagId} {role : Role} (time : Int64) {id : ContentId}
    (h : forum.Reachable site) (member : site.directory.checkMember caller hive = .ok role)
    (hbody : checkBody body = .ok ())
    (htags : checkTagCount tags.length Limit.itemTags = .ok ())
    (fresh : ∀ item ∈ forum.created, item.id ≠ id)
    (notHive : site.directory.hives.get? id.asScope = none) :
    Reachable site ⟨forum.store.putItem ⟨hive, id⟩ (.newPost hive id caller.user body tags time),
      forum.created ++ [.newPost hive id caller.user body tags time]⟩ := by
  obtain ⟨sound, distinct⟩ := h.sound
  have vacant : forum.store.item? ⟨hive, id⟩ = none := by
    cases hitem : forum.store.item? ⟨hive, id⟩ with
    | none => rfl
    | some item =>
      obtain ⟨hkey, hcreated⟩ := sound.items _ item hitem
      exact absurd (congrArg ContentKey.id hkey) (fresh item.asCreated hcreated)
  let invocation : Invocation := ⟨{}, 0, .createPost caller hive body tags⟩
  have after : DistinctIds site ⟨forum.store.putItem ⟨hive, id⟩
      (.newPost hive id caller.user body tags time),
      forum.created ++ [.newPost hive id caller.user body tags time]⟩ := ⟨?_, ?_⟩
  · exact @Reachable.steps site forum _ invocation _ h
      (createPost_steps time member hbody htags vacant distinct after)
  · simp only [List.map_append, List.nodup_append, List.map_cons, List.map_nil]
    refine ⟨distinct.nodup, List.nodup_singleton _, fun other hother new hnew heq => ?_⟩
    obtain ⟨item, hitem, rfl⟩ := List.mem_map.1 hother
    exact fresh item hitem (heq.trans (List.mem_singleton.1 hnew))
  · intro item hitem
    rcases List.mem_append.1 hitem with hitem | hitem
    · exact distinct.notHive item hitem
    · rw [List.mem_singleton.1 hitem]
      exact notHive

end Forum

namespace Sample

/-- A site with one hive of one member. -/
def site : Site where
  limits := ⟨25, 25, by decide⟩
  directory := Directory.empty.createHive ⟨.ofNat 1⟩ ⟨"owner"⟩

/-- The member. -/
def caller : Caller := ⟨⟨"owner"⟩, false⟩

/-- A post in the hive. -/
def post : ContentItem := .newPost ⟨.ofNat 1⟩ ⟨.ofNat 2⟩ caller.user "body" [] 0

/-- The record of a vote of the member for the post. -/
def voted : EngagementRecord :=
  { EngagementRecord.neutral caller.user post.key post.hive with
    upVoted := true, votedAt := some 0 }

/-- The post with the vote. -/
def votedPost : ContentItem := { post with upVotes := 1 }

/-- The forum with the post. -/
def forum : Forum := ⟨StoreState.empty.putItem post.key post, [post]⟩

theorem forum_reachable : forum.Reachable site := by
  have member : site.directory.checkMember caller ⟨.ofNat 1⟩ = .ok .owner := rfl
  have blank : Forum.blank.Reachable site := @Forum.Reachable.run site [] [] _ .none
  exact blank.createPost 0 member rfl rfl (by decide) rfl

/-- The forum with the post and the vote. -/
def votedForum : Forum := ⟨(forum.store.withRecord voted).putItem post.key votedPost, [post]⟩

/-- The member votes for the post. -/
theorem vote_steps {conditions : Conditions} {Holds : Forum → Prop} (before : Holds forum)
    (after : Holds votedForum) :
    Thread.Steps ((site.responses conditions).within Holds)
      (.running (vote {} caller ⟨post.hive, post.key⟩ .addUp)) forum
      (.running (.done voted.written)) votedForum := by
  have asked : (site.responses conditions).Answers (.membership caller post.hive) forum
      (.ok .owner) forum := .role caller post.hive forum
  have commit : forum.store.perform site.limits
      (.commitVote voted post.key { upVotes := 1 }) =
      .ok ((voted.written, votedPost), votedForum.store) := rfl
  have read : forum.store.perform site.limits (.getContent post.key) =
      .ok (post, forum.store) := rfl
  have missing : forum.store.perform site.limits (.getEngagement caller.user post.id) =
      .error .recordNotFound := rfl
  exact .perform ⟨asked, before⟩ <| .perform ⟨.carriedOut read, before⟩ <|
    .perform ⟨.stamp forum 0, before⟩ <| .perform ⟨.failed missing, before⟩ <|
      .perform ⟨.carriedOut commit, after⟩ .none

end Sample

end HiveForum
