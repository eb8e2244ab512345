import HiveForum.Proofs.Deletion.Removal

/-!
# A deletion that fails can be resumed

Whatever goes wrong in a deletion, an item of the tree is gone only if nothing is left below it, and
the item that was to be deleted is still stored when the deletion has failed. To delete it again
then leads to where the first deletion would have led: what has been pruned already is no part of
what remains without the tree.

## Main definitions

* `Forum.Sheltered`: an item of a tree is gone only if nothing is left below it.
* `Forum.deleted`: the forum after a deletion in which nothing goes wrong.
* `Site.Settles`: a deletion leads to a result and a forum when nothing goes wrong.

## Main results

* `Forum.settles`: a deletion in which nothing goes wrong leads to `Forum.deleted`.
* `Forum.deleteContent_resumes`: so does one that comes after a deletion that has failed.
-/

namespace HiveForum

open Program

/-- An item of the tree that was stored at the start is gone only if nothing is left below it. -/
def Forum.Sheltered (start : Forum) (root : ContentItem) (forum : Forum) : Prop :=
  ∀ key, key = root.key ∨ root.Covers key → start.store.item? key ≠ none →
    forum.store.item? key = none → forum.store.Bare key.id

/-- The forum after a deletion in which nothing goes wrong; the forum as it was if the caller may
not delete the item. -/
def Forum.deleted (site : Site) (caller : Caller) (root : ContentItem) (forum : Forum) : Forum :=
  match site.mayDelete caller root with
  | .ok _ => ⟨(forum.store.withoutTree root).uncounted root, forum.created⟩
  | .error _ => forum

/-- A deletion leads to a result and a forum: it has this outcome wherever it has ended without a
call that failed or a batch that was left undone, and also wherever it has ended well after batches
that were left undone. If batches fit into what the store does at once, and the bound is large
enough, it does end. -/
structure Site.Settles (site : Site) (caller : Caller) (target : Target) (forum : Forum)
    (result : Except OperationError Unit) (last : Forum) : Prop where
  ended : ∀ settings horizon thread later outcome,
    Thread.Steps (site.serving .calm True)
      (.running (deleteContent settings horizon caller target)) forum thread later →
    thread.result? = some outcome → outcome = result ∧ later = last
  succeeded : ∀ settings horizon later,
    Thread.Steps (site.responses .calm)
      (.running (deleteContent settings horizon caller target)) forum (.running (.done ())) later →
    result = .ok () ∧ later = last
  ends : Limit.batchWrite ≤ site.limits.writeCapacity →
    ∀ settings horizon, forum.store.size + 2 ≤ horizon →
      Thread.Ends (site.serving .calm True) (fun outcome later => outcome = result ∧ later = last)
        (.running (deleteContent settings horizon caller target)) forum

namespace Forum

variable {site : Site} {conditions : Conditions} {start later forum : Forum}
  {root : ContentItem} {caller : Caller} {target : Target}

/-- A step of a deletion leaves the tree sheltered. -/
theorem Sheltered.trims (h : start.Sheltered root forum) (trims : start.Trims root forum later) :
    start.Sheltered root later := by
  intro key htree hstart hnone
  cases trims with
  | prunes prunes =>
    rcases prunes.items key with hsame | ⟨-, -, hbare⟩
    · exact prunes.bare (h key htree hstart (hsame ▸ hnone))
    · exact hbare
  | removes bare =>
    rw [StoreState.item?_removeItem] at hnone
    split at hnone
    · rename_i hkey
      rw [hkey]
      exact bare.removeItem root.key
    · exact (h key htree hstart hnone).removeItem root.key
  | edits found item' =>
    rw [StoreState.item?_putItem] at hnone
    split at hnone
    · cases hnone
    · exact (h key htree hstart hnone).putItem found item'

theorem deleted_of_calm (may : site.mayDelete caller root = .ok ())
    (h : start.Deleted .calm root later) : later = start.deleted site caller root := by
  rw [deleted, may]
  rcases h with rfl | ⟨⟨_, hrefused⟩, -⟩
  · rfl
  · exact hrefused.elim

theorem Prunes.deleted_eq (h : start.Prunes root start later) (compact : start.store.Compact)
    (denied : site.mayDelete caller root ≠ .ok () → later = start) :
    later.deleted site caller root = start.deleted site caller root := by
  unfold deleted
  cases hmay : site.mayDelete caller root with
  | ok _ => dsimp only; rw [h.withoutTree_eq compact, h.created]
  | error error => exact denied (by rw [hmay]; exact fun heq => by cases heq)

/-- A deletion in which nothing goes wrong ends well if the caller may delete the item, and changes
nothing otherwise. -/
theorem settled_of_outcome {outcome : Except OperationError Unit}
    (hok : ∀ value, outcome = .ok value →
      site.mayDelete caller root = .ok () ∧ start.Deleted .calm root later)
    (herror : ∀ error, outcome = .error error →
      (start.deletion root (site.mayDelete caller root) (Conditions.calm.Troubled True)
        True).failing error later) :
    outcome = site.mayDelete caller root ∧ later = start.deleted site caller root := by
  cases outcome with
  | ok value =>
    obtain ⟨may, hdeleted⟩ := hok value rfl
    exact ⟨may.symm, deleted_of_calm may hdeleted⟩
  | error error =>
    obtain ⟨-, denied, trouble | hmay⟩ := herror error rfl
    · exact absurd trouble Conditions.not_troubled_calm
    · refine ⟨hmay.symm, ?_⟩
      obtain rfl := denied (by rw [hmay]; exact fun heq => by cases heq)
      rw [deleted, hmay]

/-- A deletion in which nothing goes wrong leads to the forum without the tree. -/
theorem settles (tiered : start.store.Tiered) (stored : start.store.item? root.key = some root)
    (located : target.content = root.key) (owned : root.hive = target.hive) :
    site.Settles caller target start (site.mayDelete caller root)
      (start.deleted site caller root) where
  ended settings horizon thread later outcome steps hresult := by
    have meets := @meets_deleteContent site .calm True True start root Conditions.honest_calm tiered
      stored settings horizon caller target located owned (.inl trivial)
    obtain ⟨hok, herror⟩ := (steps.meets (.running meets)).1.of_result?
    refine settled_of_outcome (fun value heq => ?_) (fun error heq => ?_)
    · exact hok value (hresult.trans (congrArg some heq)) trivial
    · exact herror error (hresult.trans (congrArg some heq))
  succeeded settings horizon later steps := by
    have meets := @meets_deleteContent site .calm False True start root Conditions.honest_calm
      tiered stored settings horizon caller target located owned (.inl trivial)
    obtain ⟨may, hdeleted⟩ :=
      ((Site.steps_serving steps).meets (.running meets)).1.of_result?.1 () rfl trivial
    exact ⟨may, deleted_of_calm may hdeleted⟩
  ends capacity settings horizon hsize := by
    have meets := @meets_deleteContent site .calm True False start root Conditions.honest_calm
      tiered stored settings horizon caller target located owned (.inr hsize)
    have answered := site.exists_serving .calm True fun _ => capacity
    refine (Thread.Meets.ends answered (.running meets) id).imp ?_
    rintro outcome later ⟨hok, herror⟩
    exact settled_of_outcome hok herror

/-- A forum has been reached in any way, and an item of it is deleted while the store may refuse
calls and leave batches half done, and the time may run out at any moment. At every point of the
run an item of the tree is gone only if nothing is left below it. If the deletion fails the item is
still stored, and a further deletion by the same caller has the outcome that the first one would
have had if nothing had gone wrong. -/
theorem deleteContent_resumes {settings : Settings} {horizon : Nat} {thread : Thread Unit}
    (reachable : start.Reachable site) (stored : start.store.item? target.content = some root)
    (owned : root.hive = target.hive) (honest : conditions.Honest)
    (run : Thread.Steps (site.responses conditions)
      (.running (deleteContent settings horizon caller target)) start thread later) :
    start.Sheltered root later ∧ ∀ error, thread.result? = some (.error error) →
      later.store.item? target.content = some root ∧
        site.Settles caller target start (site.mayDelete caller root)
          (start.deleted site caller root) ∧
        site.Settles caller target later (site.mayDelete caller root)
          (start.deleted site caller root) := by
  obtain ⟨sound, distinct⟩ := reachable.sound
  have tiered := sound.tiered distinct
  have located : target.content = root.key := (sound.items _ root stored).1.symm
  rw [located] at stored ⊢
  have meets := @meets_deleteContent site conditions False True start root honest tiered stored
    settings horizon caller target located owned (.inl trivial)
  obtain ⟨hmeets, hkept⟩ := (Site.steps_serving run).meets (.running meets)
  have sheltered : start.Sheltered root start := fun key _ hstart hnone => absurd hnone hstart
  refine ⟨hkept (start.Sheltered root) (fun trims h => h.trims trims) sheltered,
    fun error hresult => ?_⟩
  obtain ⟨hprunes, denied, -⟩ := hmeets.of_result?.2 error hresult
  have hstored := hprunes.stored tiered stored
  refine ⟨hstored, settles tiered stored located owned, ?_⟩
  rw [← hprunes.deleted_eq tiered.compact denied]
  exact settles (hprunes.tiered tiered) hstored located owned

end Forum

namespace Sample

/-- A comment with a vote is deleted, and the store is out of reach after the vote has been removed:
the comment is still there, and to delete it again leaves the post alone. -/
theorem deleteContent_resumes_comment :
    discussion.store.item? target.content = some { comment with upVotes := 1 } ∧
      Conditions.unsteady.Honest ∧
      discussion.Sheltered { comment with upVotes := 1 } ⟨cleared, [post, comment]⟩ ∧
      cleared.item? target.content = some { comment with upVotes := 1 } ∧
      site.Settles caller target discussion (.ok ()) ⟨forum.store, [post, comment]⟩ ∧
      site.Settles caller target ⟨cleared, [post, comment]⟩ (.ok ())
        ⟨forum.store, [post, comment]⟩ := by
  obtain ⟨next, steps, -, hfail⟩ := clear_steps .unsteady
  have refused : Thread.Step (site.responses .unsteady)
      (.running (.perform (.store (.deleteContent comment.key)) next)) ⟨cleared, [post, comment]⟩
      (.running (next (.error .unavailable))) ⟨cleared, [post, comment]⟩ :=
    .perform (.refused rfl)
  rw [hfail] at refused
  have stored : discussion.store.item? target.content = some { comment with upVotes := 1 } := rfl
  obtain ⟨sheltered, resumes⟩ := Forum.deleteContent_resumes discussion_reachable stored rfl
    Conditions.honest_unsteady (steps.more refused)
  exact ⟨stored, Conditions.honest_unsteady, sheltered, resumes _ rfl⟩

end Sample

end HiveForum
