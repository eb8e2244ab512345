import HiveForum.Proofs.Forum.Run
import HiveForum.Proofs.Isolation.Operations
import HiveForum.Proofs.Isolation.Oversight

/-!
# Operations leave other hives as they are

An operation keeps to the hive that it is addressed to, whatever targets, scopes, posts, cursors and
lists of identifiers it is given, whatever goes wrong, and however far it gets. Every item and every
record of another hive is therefore the same after it as before.

## Main definitions

* `Thread.Confined`: a program under way keeps to a hive.
* `Sample.twinSite`, `Sample.twinForum`: two hives with a post each.

## Main results

* `Thread.Step.confined`: a step of a program that keeps to a hive.
* `Forum.spares_of_steps`: a run of programs that keep to certain hives.
* `Forum.Reachable.overseen`: in a forum that can be reached, the identifiers that were given out
  tell the hive of whatever is stored.
* `Forum.spares_other_hives`: operations that are addressed to one hive leave all others as they
  are.
-/

namespace HiveForum

open Program

namespace Thread

/-- A program under way keeps to the hive of a view. In an open group so do the program that spawns
its units, the units that wait, those that run, and what follows the group. -/
inductive Confined (view : View) : {α : Type} → Thread α → Prop where
  | running {α : Type} {program : Program α} {draws : Bool} {post : α → Prop}
      (h : program.Confined view draws post) : Confined view (.running program)
  | gathering {α : Type} {limit : Nat} {spawner : Thread Unit} {waiting : List (Program Unit)}
      {units : List (Thread Unit)} {failure : Option OperationError}
      {next : Gathered → Program α} {draws : Bool} {post : α → Prop}
      (spawning : Confined view spawner)
      (waits : ∀ unit ∈ waiting, unit.Confined view false fun _ => True)
      (runs : ∀ unit ∈ units, Confined view unit)
      (follows : ∀ gathered, (next gathered).Confined view draws post) :
      Confined view (.gathering limit spawner waiting units failure next)

variable {σ : Type} {responses : Responses σ} {view : View} {Holds : σ → Prop}
  {Moves : σ → σ → Prop}

/-- A step of a thread that keeps to a hive does what an admitted effect does to the state, and the
thread goes on keeping to the hive. -/
theorem Step.confined
    (performs : ∀ {effect : Effect} {state after : σ} {reply : effect.Reply},
      responses.Answers effect state reply after → Holds state →
        view.Admits effect ∨ effect = .newContentId →
          view.Vouches effect reply ∧ Moves state after)
    {α : Type} {thread thread' : Thread α} {state after : σ}
    (step : Step responses thread state thread' after) (confined : thread.Confined view)
    (h : Holds state) : (after = state ∨ Moves state after) ∧ thread'.Confined view := by
  induction step with
  | perform answer =>
    obtain ⟨hprogram⟩ := confined
    cases hprogram with
    | perform admitted _ follows =>
      obtain ⟨hreply, hmoves⟩ := performs answer h (.inl admitted)
      exact ⟨.inr hmoves, .running (follows _ hreply)⟩
    | draw follows =>
      obtain ⟨hreply, hmoves⟩ := performs answer h (.inr rfl)
      exact ⟨.inr hmoves, .running (follows _ hreply)⟩
  | gather =>
    obtain ⟨hprogram⟩ := confined
    cases hprogram with
    | gather spawning follows =>
      exact ⟨.inl rfl, .gathering (.running spawning) (by simp) (by simp) follows⟩
  | spawner _ ih =>
    obtain _ | ⟨spawning, waits, runs, follows⟩ := confined
    obtain ⟨hmoves, hspawner⟩ := ih spawning h
    exact ⟨hmoves, .gathering hspawner waits runs follows⟩
  | spawn =>
    obtain _ | ⟨spawning, waits, runs, follows⟩ := confined
    obtain ⟨hprogram⟩ := spawning
    cases hprogram with
    | spawn spawned beside =>
      refine ⟨.inl rfl, .gathering (.running beside) ?_ runs follows⟩
      exact List.forall_mem_append.2 ⟨waits, List.forall_mem_singleton.2 spawned⟩
  | start =>
    obtain _ | ⟨spawning, waits, runs, follows⟩ := confined
    simp only [List.forall_mem_append, List.forall_mem_cons] at waits
    obtain ⟨hbefore, hunit, hlater⟩ := waits
    refine ⟨.inl rfl, .gathering spawning (List.forall_mem_append.2 ⟨hbefore, hlater⟩) ?_ follows⟩
    exact List.forall_mem_append.2 ⟨runs, List.forall_mem_singleton.2 (.running hunit)⟩
  | skip =>
    obtain _ | ⟨spawning, waits, runs, follows⟩ := confined
    simp only [List.forall_mem_append, List.forall_mem_cons] at waits
    exact ⟨.inl rfl, .gathering spawning (List.forall_mem_append.2 ⟨waits.1, waits.2.2⟩) runs
      follows⟩
  | unit _ ih =>
    obtain _ | ⟨spawning, waits, runs, follows⟩ := confined
    simp only [List.forall_mem_append, List.forall_mem_cons] at runs
    obtain ⟨hbefore, hunit, hlater⟩ := runs
    obtain ⟨hmoves, hunit'⟩ := ih hunit h
    refine ⟨hmoves, .gathering spawning waits ?_ follows⟩
    exact List.forall_mem_append.2 ⟨hbefore, List.forall_mem_cons.2 ⟨hunit', hlater⟩⟩
  | finish =>
    obtain _ | ⟨spawning, waits, runs, follows⟩ := confined
    simp only [List.forall_mem_append, List.forall_mem_cons] at runs
    exact ⟨.inl rfl, .gathering spawning waits (List.forall_mem_append.2 ⟨runs.1, runs.2.2⟩)
      follows⟩
  | fail =>
    obtain _ | ⟨spawning, waits, runs, follows⟩ := confined
    simp only [List.forall_mem_append, List.forall_mem_cons] at runs
    exact ⟨.inl rfl, .gathering spawning waits (List.forall_mem_append.2 ⟨runs.1, runs.2.2⟩)
      follows⟩
  | join =>
    obtain _ | ⟨-, -, -, follows⟩ := confined
    exact ⟨.inl rfl, .running (follows _)⟩

end Thread

namespace Forum

/-- The responses after which no other identifiers have been given out than by the end. -/
abbrev upTo (final : Forum) (site : Site) (conditions : Conditions) : Responses Forum :=
  (site.responses conditions).within fun forum => forum.created ⊆ final.created

variable {site : Site} {conditions : Conditions} {final forum after : Forum}

/-- An effect that keeps to a hive leaves the others as they are, and the identifiers that will have
been given out go on telling the hive of whatever is stored. -/
theorem overseen_of_answer {effect : Effect} {reply : effect.Reply} {hive : ScopeId}
    (distinct : final.DistinctIds site)
    (answer : (final.upTo site conditions).Answers effect forum reply after)
    (overseen : ∀ other, (final.view site other).Oversees forum.store)
    (permitted : (final.view site hive).Admits effect ∨ effect = .newContentId) :
    (final.view site hive).Vouches effect reply ∧
      (∀ other, (final.view site other).Oversees after.store) ∧
        forum.store.AgreesWhere (· ≠ hive) after.store := by
  obtain ⟨answer, given⟩ := answer
  obtain admitted | rfl := permitted
  · have hlater : ∀ other, (final.view site other).Oversees after.store := by
      intro other
      refine (overseen other).maintained answer (fun item heffect hcreated => ?_)
        fun request record heffect hrecord => ?_
      · subst heffect
        obtain ⟨hhive, hscope, -⟩ := admitted
        have hscope : final.home? site item.scope.asContent = some item.hive := hhive ▸ hscope
        have hid := home?_id distinct (given hcreated)
        exact ⟨by simp [view, hid], by simp [view, hscope]⟩
      · subst heffect
        have owned := admitted.ownsRecord hrecord
        have hhome : final.home? site record.content = some record.hive :=
          owned.hive ▸ owned.content
        simp [View.TellsRecord, view, hhome]
    exact ⟨(overseen hive).vouches (home?_hive distinct) answer admitted, hlater,
      (overseen hive).spares (hlater hive) answer admitted⟩
  · obtain rfl := Site.Answer.eq_of_isQuiet answer rfl
    exact ⟨trivial, overseen, .refl⟩

/-- Programs that keep to certain hives leave all others as they are. -/
theorem spares_of_steps {hives : ScopeId → Prop} {pool pool' : Thread.Pool} {start later : Forum}
    (distinct : final.DistinctIds site)
    (steps : Thread.Pool.Steps (final.upTo site conditions) pool start pool' later)
    (confined : ∀ thread ∈ pool, ∃ hive, hives hive ∧
      thread.2.Confined (final.view site hive))
    (overseen : ∀ hive, (final.view site hive).Oversees start.store) :
    (∀ thread ∈ pool', ∃ hive, hives hive ∧ thread.2.Confined (final.view site hive)) ∧
      (∀ hive, (final.view site hive).Oversees later.store) ∧
        start.store.AgreesWhere (¬hives ·) later.store := by
  induction steps with
  | none => exact ⟨confined, overseen, .refl⟩
  | more _ step ih =>
    obtain ⟨hpool, hmiddle, hagrees⟩ := ih overseen
    obtain ⟨step⟩ := step
    simp only [List.forall_mem_append, List.forall_mem_cons] at hpool ⊢
    obtain ⟨hbefore, ⟨hive, hhive, hthread⟩, hafter⟩ := hpool
    obtain ⟨hmoves, hthread'⟩ := step.confined (overseen_of_answer distinct) hthread hmiddle
    refine ⟨⟨hbefore, ⟨hive, hhive, hthread'⟩, hafter⟩, ?_⟩
    obtain rfl | ⟨hlater, hspared⟩ := hmoves
    · exact ⟨hmiddle, hagrees⟩
    · exact ⟨hlater, hagrees.trans (hspared.mono fun other hother heq => hother (heq ▸ hhive))⟩

/-- Operations that are addressed to certain hives leave all others as they are. -/
theorem spares_of_run (hives : ScopeId → Prop) {Holds : Forum → Prop}
    {invocations : List Invocation} {pool : Thread.Pool} {start later : Forum}
    (distinct : final.DistinctIds site)
    (run : Thread.Pool.Steps ((site.responses conditions).within Holds)
      (Invocation.pool invocations) start pool later)
    (given : later.created ⊆ final.created)
    (addressed : ∀ invocation ∈ invocations, ∃ hive, hives hive ∧
      ∀ other, invocation.operation.hive? = some other → other = hive)
    (overseen : ∀ hive, (final.view site hive).Oversees start.store) :
    (∀ hive, (final.view site hive).Oversees later.store) ∧
      start.store.AgreesWhere (¬hives ·) later.store := by
  have hgiven : ∀ {effect : Effect} {state after : Forum} {reply : effect.Reply},
      ((site.responses conditions).within Holds).Answers effect state reply after →
        after.created ⊆ final.created → state.created ⊆ final.created :=
    fun answer hafter => List.Subset.trans (Site.Answer.created_subset answer.1) hafter
  have himp : ∀ {effect : Effect} {state after : Forum} {reply : effect.Reply},
      (((site.responses conditions).within Holds).within
        fun forum => forum.created ⊆ final.created).Answers effect state reply after →
        (final.upTo site conditions).Answers effect state reply after :=
    fun answer => ⟨answer.1.1, answer.2⟩
  refine (spares_of_steps distinct ((run.within_of_after hgiven given).imp himp)
    (fun thread hthread => ?_) overseen).2
  obtain ⟨invocation, hinvocation, rfl⟩ := List.mem_map.1 hthread
  obtain ⟨hive, hhive, haddressed⟩ := addressed invocation hinvocation
  obtain ⟨draws, hconfined⟩ := @Operation.confined (final.view site hive) invocation.operation
    haddressed invocation.settings invocation.horizon
  exact ⟨hive, hhive, .running hconfined⟩

/-- In a forum that can be reached, the identifiers that were given out tell the hive of whatever is
stored; so do they when more have been given out later. -/
theorem Reachable.overseen (reachable : forum.Reachable site)
    (distinct : final.DistinctIds site) (given : forum.created ⊆ final.created) :
    ∀ hive, (final.view site hive).Oversees forum.store := by
  obtain @⟨invocations, _, _, run⟩ := reachable
  have hblank : ∀ hive, (final.view site hive).Oversees Forum.blank.store :=
    fun _ => ⟨fun _ _ h => (by cases h), fun _ _ h => by cases h⟩
  have haddressed : ∀ invocation ∈ invocations, ∃ hive, True ∧
      ∀ other, invocation.operation.hive? = some other → other = hive :=
    fun invocation _ => ⟨invocation.operation.hive?.getD default, trivial,
      fun other hother => by rw [hother]; rfl⟩
  exact (spares_of_run (fun _ => True) distinct run given haddressed hblank).1

/-- Operations that are addressed to one hive leave the items and the records of all others as they
are, however many run side by side, whatever they are asked, whatever goes wrong, and however far
they get. -/
theorem spares_other_hives {start later : Forum} {hive : ScopeId} {invocations : List Invocation}
    {pool : Thread.Pool} (reachable : start.Reachable site)
    (addressed : ∀ invocation ∈ invocations, ∀ other,
      invocation.operation.hive? = some other → other = hive)
    (run : Thread.Pool.Steps ((site.responses .wild).within (DistinctIds site))
      (Invocation.pool invocations) start pool later) :
    start.store.AgreesWhere (· ≠ hive) later.store := by
  have hkept : ∀ {effect : Effect} {state after : Forum} {reply : effect.Reply},
      ((site.responses .wild).within (DistinctIds site)).Answers effect state reply after →
        state.DistinctIds site → after.DistinctIds site := fun answer _ => answer.2
  have hgiven : ∀ {effect : Effect} {state after : Forum} {reply : effect.Reply},
      ((site.responses .wild).within (DistinctIds site)).Answers effect state reply after →
        start.created ⊆ state.created → start.created ⊆ after.created :=
    fun answer h => List.Subset.trans h (Site.Answer.created_subset answer.1)
  have distinct : later.DistinctIds site := run.preserves hkept reachable.sound.2
  have given : start.created ⊆ later.created := run.preserves hgiven (List.Subset.refl _)
  refine (spares_of_run (· = hive) distinct run (List.Subset.refl _)
    (fun invocation h => ⟨hive, rfl, addressed invocation h⟩)
    (reachable.overseen distinct given)).2

end Forum

namespace Sample

/-- A site with two hives that have their member in common. -/
def twinSite : Site where
  limits := site.limits
  directory := site.directory.createHive ⟨.ofNat 3⟩ caller.user

/-- A post in the other hive. -/
def otherPost : ContentItem := .newPost ⟨.ofNat 3⟩ ⟨.ofNat 4⟩ caller.user "body" [] 0

/-- The forum with a post in each hive. -/
def twinForum : Forum := ⟨forum.store.putItem otherPost.key otherPost, [post, otherPost]⟩

theorem forum_reachable_twinSite : forum.Reachable twinSite := by
  have member : twinSite.directory.checkMember caller ⟨.ofNat 1⟩ = .ok .owner := by decide
  have blank : Forum.blank.Reachable twinSite := @Forum.Reachable.run twinSite [] [] _ .none
  exact blank.createPost 0 member rfl rfl (by decide) (by decide)

theorem twinForum_reachable : twinForum.Reachable twinSite := by
  have member : twinSite.directory.checkMember caller ⟨.ofNat 3⟩ = .ok .owner := by decide
  exact forum_reachable_twinSite.createPost 0 member rfl rfl (by decide) (by decide)

theorem deleteContent_otherPost_steps {Holds : Forum → Prop} (h : Holds twinForum) :
    Thread.Steps ((twinSite.responses .wild).within Holds)
      (.running (deleteContent {} 3 caller ⟨post.hive, otherPost.key⟩)) twinForum
      (.running (.done ())) twinForum := by
  have asked : (twinSite.responses .wild).Answers (.membership caller post.hive) twinForum
      (.ok .owner) twinForum := .role caller post.hive twinForum
  have read : twinForum.store.perform twinSite.limits (.getContent otherPost.key) =
      .ok (otherPost, twinForum.store) := rfl
  exact .perform ⟨asked, h⟩ <| .perform ⟨.carriedOut read, h⟩ .none

/-- A second post in the first hive. -/
def secondPost : ContentItem := .newPost post.hive ⟨.ofNat 5⟩ caller.user "body" [] 0

/-- The forum with the second post. -/
def busyTwinForum : Forum :=
  ⟨twinForum.store.putItem secondPost.key secondPost, twinForum.created ++ [secondPost]⟩

/-- The member asks in the first hive for the deletion of the post of the other one, and writes the
second post. -/
def twinInvocations : List Invocation :=
  [⟨{}, 3, .deleteContent caller ⟨post.hive, otherPost.key⟩⟩,
    ⟨{}, 0, .createPost caller post.hive "body" []⟩]

/-- Both are done, and the post of the other hive remains as it is. -/
theorem otherPost_spared :
    (∃ pool, Thread.Pool.Steps ((twinSite.responses .wild).within (Forum.DistinctIds twinSite))
      (Invocation.pool twinInvocations) twinForum pool busyTwinForum) ∧
      twinForum.store.AgreesWhere (· ≠ post.hive) busyTwinForum.store := by
  have before : twinForum.DistinctIds twinSite := ⟨by decide, by decide⟩
  have after : busyTwinForum.DistinctIds twinSite := ⟨by decide, by decide⟩
  have member : twinSite.directory.checkMember caller post.hive = .ok .owner := by decide
  have creation : Thread.Steps
      ((twinSite.responses .wild).within (Forum.DistinctIds twinSite))
      (.running (createPost caller post.hive "body" [])) twinForum (.running (.done secondPost))
      busyTwinForum := createPost_steps 0 member rfl rfl (by decide) before after
  have run : Thread.Pool.Steps
      ((twinSite.responses .wild).within (Forum.DistinctIds twinSite))
      (Invocation.pool twinInvocations) twinForum
      [⟨Unit, .running (.done ())⟩, ⟨ContentItem, .running (.done secondPost)⟩] busyTwinForum :=
    Thread.Pool.Steps.trans (.of_thread (deleteContent_otherPost_steps before) [] _)
      (.of_thread creation [⟨Unit, .running (.done ())⟩] [])
  have addressed : ∀ invocation ∈ twinInvocations, ∀ other,
      invocation.operation.hive? = some other → other = post.hive := by
    simp [twinInvocations, Operation.hive?]
  exact ⟨⟨_, run⟩, Forum.spares_other_hives twinForum_reachable addressed run⟩

end Sample

end HiveForum
