import HiveForum.Operation
import HiveForum.Proofs.Program.Bound
import HiveForum.Proofs.Program.Sequencing

/-!
# Posts below themselves

A store that was filled in other ways than by the operations of the forum may hold a post in its own
scope. A deletion of the post finds the post among its children, goes down to it, and finds it there
again. If calls take no time then no deadline comes nearer meanwhile, and the deletion goes on
forever at one point in time.

## Main definitions

* `World.Circles`: a world in which a post is all that lies below it.

## Main results

* `World.Circles.run_cascade`: within no bound does the cascade of the post come to an end.
* `World.Circles.run_deleteContent`: neither does its deletion.
-/

namespace HiveForum

open Program

variable {σ : Type}

/-- A world in which a post is all that lies below it, without records, and in which looking there
takes no time. -/
structure World.Circles (world : World σ) (settings : Settings) (post : ContentItem) (state : σ) :
    Prop where
  kind : post.kind = .post
  still : world.setTime state (world.time state) = state
  children : world.perform
    (.store (.queryContent ((Scan.children post.id.asScope none).query settings none))) state =
      (.ok ⟨[post], none⟩, state)
  records : world.perform (.store (.queryEngagement ⟨post.id, Limit.batchWrite, none⟩)) state =
    (.ok ⟨[], none⟩, state)

namespace World.Circles

variable {world : World σ} {settings : Settings} {post : ContentItem} {state : σ}
  (circles : world.Circles settings post state)

include circles

/-- The post is the only unit that is spawned for what lies below it. -/
theorem runWith_spawnChildren (unit : ContentItem → Program Unit) (rounds pages : Nat)
    (units : List (Spawned σ)) :
    (spawnChildren settings (rounds + 1) post.id.asScope unit (pages + 1) none).runWith world state
      units = (fork (unit post)).runWith world state units := by
  have hsort : ContentItem.sort .created .ascending [post] = [post] := List.mergeSort_singleton _
  obtain ⟨next, hquery, hnext⟩ : ∃ next,
      spawnChildren settings (rounds + 1) post.id.asScope unit (pages + 1) none =
        .perform (.store (.queryContent ((Scan.children post.id.asScope none).query settings none)))
          next ∧ next (.ok ⟨[post], none⟩) = fork (unit post) := by
    refine ⟨_, rfl, ?_⟩
    change (Program.done (some (Collected.ofHeld _ _
      (ContentItem.sort .created .ascending [post])))).bind _ = _
    rw [hsort]
    rfl
  rw [hquery, runWith, circles.children]
  dsimp only
  rw [hnext]

theorem runWith_spawnRecords (pages : Nat) (units : List (Spawned σ)) :
    (spawnRecords settings post.id (pages + 1) none).runWith world state units =
      (.ok (), state, units) := by
  obtain ⟨next, hquery, hnext⟩ : ∃ next, spawnRecords settings post.id (pages + 1) none =
      .perform (.store (.queryEngagement ⟨post.id, Limit.batchWrite, none⟩)) next ∧
        next (.ok ⟨[], none⟩) = .done () := ⟨_, rfl, rfl⟩
  rw [hquery, runWith, circles.records]
  dsimp only
  rw [hnext]
  rfl

/-- A group that goes down to the post with a unit that has no end has none. -/
theorem runWith_gather {α : Type} (limit pages : Nat) {unit : ContentItem → Program Unit}
    (next : Gathered → Program α) (h : ((unit post).run world state).1 = .error .unfinished) :
    ((Program.gather limit ((spawnChildren settings pages post.id.asScope unit pages none).bind
      fun _ => spawnRecords settings post.id pages none) next).run world state).1 =
        .error .unfinished := by
  rw [run, runWith, runWith_bind]
  cases pages with
  | zero =>
    rw [spawnChildren, runWith]
    dsimp only
    rw [gathered?_unfinished]
  | succ pages =>
    rw [circles.runWith_spawnChildren, fork, runWith]
    dsimp only
    rw [runWith]
    dsimp only
    rw [circles.runWith_spawnRecords]
    dsimp only
    rw [gathered?_of_endless]
    refine TaskGroup.endless_run_singleton limit ?_
    dsimp only
    rw [circles.still]
    exact h

/-- The cascade of the post does not come to an end, however far it goes: it goes down to the post
again, with one level less. -/
theorem run_cascade (pages depth : Nat) :
    ((cascade settings pages depth post.key .post).run world state).1 = .error .unfinished := by
  induction depth with
  | zero => rfl
  | succ depth ih =>
    refine circles.runWith_gather settings.cascadeConcurrency pages _ ?_
    rw [circles.kind]
    exact run_bind_of_unfinished _ ih

/-- A caller who may delete the post does not come to an end with it. -/
theorem run_deleteContent {caller : Caller} {role : Role}
    (member : world.perform (.membership caller post.hive) state = (.ok role, state))
    (found : world.perform (.store (.getContent post.key)) state = (.ok post, state))
    (allowed : post.author = caller.user ∨ role.permits .moderator = true) (horizon : Nat) :
    ((deleteContent settings horizon caller ⟨post.hive, post.key⟩).run world state).1 =
      .error .unfinished := by
  have hmember : (authorize caller post.hive).run world state = (.ok role, state) := by
    rw [authorize, run, runWith, member]
    rfl
  have hload : (unlessNotFound (loadTarget ⟨post.hive, post.key⟩)).run world state =
      (.ok (some post), state) := by
    obtain ⟨next, hload, hnext⟩ : ∃ next,
        unlessNotFound (loadTarget ⟨post.hive, post.key⟩) =
          .perform (.store (.getContent post.key)) next ∧
            next (.ok post) = .done (some post) := by
      refine ⟨_, rfl, ?_⟩
      change (Program.attempt (if post.hive = post.hive then _ else _)).bind _ = _
      rw [if_pos rfl]
      rfl
    rw [hload, run, runWith, found]
    dsimp only
    rw [hnext]
    rfl
  have hrefused : ¬(post.author ≠ caller.user ∧ ¬role.permits .moderator = true) := by
    rintro ⟨hauthor, hrole⟩
    exact allowed.elim hauthor hrole
  change (((authorize caller post.hive).bind _).run world state).1 = _
  rw [run_bind_of_ok _ hmember]
  change (((unlessNotFound (loadTarget ⟨post.hive, post.key⟩)).bind _).run world state).1 = _
  rw [run_bind_of_ok _ hload]
  dsimp only
  rw [if_neg hrefused, circles.kind]
  exact run_bind_of_unfinished _ (circles.run_cascade horizon horizon)

end World.Circles

end HiveForum
