import HiveForum.Proofs.Forum.Environment
import HiveForum.Proofs.Store.Change

/-!
# What a call may answer

Effects that only read leave the forum as it is, whatever goes wrong. More is known of an honest
store: a call that it refuses has no effect, and it never denies what is stored. It may still refuse
calls, leave batches half done and let the time run out; whoever meets with none of this is not in
trouble.

## Main definitions

* `Effect.isQuiet`: an effect leaves the store as it is.
* `Conditions.Honest`: the conditions of an honest store.
* `Conditions.Troubled`: something may go wrong.
* `Site.serving`: the replies of a site, where batches may have to be done completely.

## Main results

* `Site.Answer.change`: an effect leaves the forum as it is, or makes a change of its request.
* `Site.Answer.eq_of_isQuiet`: a quiet effect leaves the forum as it is, whatever goes wrong.
* `Site.Answer.of_error`: a call that fails has no effect, and fails for a reason.
* `Site.Answer.of_batch`, `Site.Answer.of_deleteContent`, `Site.Answer.of_adjustCounts`: what
  becomes of the calls that a deletion makes.
-/

namespace HiveForum

/-- A call that is refused has no effect, nothing that is stored is denied, and nobody gets another
role. -/
structure Conditions.Honest (conditions : Conditions) : Prop where
  found : ∀ error, conditions.refuses error → error.isNotFound = false
  keeps : ¬conditions.loses
  steady : ¬conditions.reassigns

theorem Conditions.honest_calm : Conditions.calm.Honest := ⟨fun _ h => h.elim, id, id⟩

theorem Conditions.honest_unsteady : Conditions.unsteady.Honest := by
  refine ⟨fun error transient => ?_, id, id⟩
  have transient : error.isTransient = true := transient
  cases error <;> first | rfl | cases transient

theorem StoreError.ofStore_ne_notFound {error : StoreError} (h : error.isNotFound = false) :
    OperationError.ofStore error ≠ .notFound := by
  intro heq
  rw [(OperationError.ofStore_eq_notFound_iff error).1 heq] at h
  cases h

/-- Something may go wrong: a call is refused, the time is up, or a batch is not done completely. -/
def Conditions.Troubled (conditions : Conditions) (whole : Prop) : Prop :=
  (∃ error, conditions.refuses error) ∨ conditions.expires ∨ ¬whole

theorem Conditions.not_troubled_calm : ¬Conditions.calm.Troubled True := by
  rintro (⟨_, h⟩ | h | h)
  · exact h
  · exact h
  · exact h trivial

/-- A batch that is answered is done completely. -/
def Effect.Completes : (effect : Effect) → effect.Reply → Prop
  | .store (.deleteEngagements _), reply => ∀ left, reply = .ok left → left = []
  | _, _ => True

/-- Whether an effect leaves the store as it is. -/
def Effect.isQuiet : Effect → Bool
  | .store request => request.isRead
  | _ => true

namespace Site

variable {site : Site} {conditions : Conditions} {whole : Prop} {forum after : Forum}

/-- The replies that an effect may get, where batches may have to be done completely. -/
def serving (site : Site) (conditions : Conditions) (whole : Prop) : Responses Forum where
  Answers effect forum reply after :=
    site.Answer conditions effect forum reply after ∧ (whole → effect.Completes reply)

theorem steps_serving {α : Type} {thread thread' : Thread α}
    (steps : Thread.Steps (site.responses conditions) thread forum thread' after) :
    Thread.Steps (site.serving conditions False) thread forum thread' after := by
  refine steps.imp fun {effect state after reply} answer => ?_
  have answer : site.Answer conditions effect state reply after := answer
  exact ⟨answer, fun h => h.elim⟩

/-- Every effect gets some reply, if a batch fits into what the store does at once. -/
theorem exists_serving (site : Site) (conditions : Conditions) (whole : Prop)
    (capacity : whole → Limit.batchWrite ≤ site.limits.writeCapacity) (effect : Effect)
    (forum : Forum) :
    ∃ reply after, (site.serving conditions whole).Answers effect forum reply after := by
  by_cases hbatch : ∃ keys, effect = .store (.deleteEngagements keys)
  · obtain ⟨keys, rfl⟩ := hbatch
    by_cases hlarge : Limit.batchWrite < keys.length
    · have hperform : forum.store.perform site.limits (.deleteEngagements keys) =
          .error (.batchTooLarge keys.length) := by
        simp [StoreState.perform, checkBatch, hlarge]
      exact ⟨_, _, .failed hperform, fun _ _ h => by cases h⟩
    · have hperform : forum.store.perform site.limits (.deleteEngagements keys) =
          .ok (keys.drop site.limits.writeCapacity,
            forum.store.removeRecords (keys.take site.limits.writeCapacity)) := by
        simp [StoreState.perform, checkBatch, hlarge]
      refine ⟨_, _, .carriedOut hperform, fun hwhole left hleft => ?_⟩
      have hcapacity := capacity hwhole
      rw [← Except.ok.inj hleft, List.drop_eq_nil_iff]
      omega
  · obtain ⟨reply, after, answer⟩ := site.exists_answer conditions effect forum
    refine ⟨reply, after, answer, fun _ => ?_⟩
    unfold Effect.Completes
    split
    · exact absurd ⟨_, rfl⟩ hbatch
    · trivial

namespace Answer

/-- An effect leaves the forum as it is, or makes one of the changes of its request. -/
theorem change {effect : Effect} {reply : effect.Reply}
    (answer : site.Answer conditions effect forum reply after) :
    after = forum ∨ ∃ request store, effect = .store request ∧
      forum.store.Change request store ∧ after = forum.after store request := by
  cases answer with
  | carriedOut h => exact .inr ⟨_, _, rfl, StoreState.change_of_perform h, rfl⟩
  | lost _ _ h => exact .inr ⟨_, _, rfl, StoreState.change_of_perform h, rfl⟩
  | @skipped _ done left _ _ _ split =>
    have part : done ⊆ done ++ left := List.subset_append_left _ _
    exact .inr ⟨_, _, rfl, .erase fun key hkey => split.mem_iff.2 (part hkey), rfl⟩
  | _ => exact .inl rfl

/-- A quiet effect leaves the forum as it is. -/
theorem eq_of_isQuiet {effect : Effect} {reply : effect.Reply}
    (answer : site.Answer conditions effect forum reply after) (h : effect.isQuiet = true) :
    after = forum := by
  obtain heq | ⟨request, store, rfl, change, rfl⟩ := answer.change
  · exact heq
  · have hread : request.isRead = true := h
    rw [change.eq_of_isRead hread]
    cases request <;> first | rfl | cases hread

theorem of_ok {request : Request} {answer : request.Answer}
    (h : site.Answer conditions (.store request) forum (.ok answer) after)
    (notBatch : ∀ keys, request ≠ .deleteEngagements keys) :
    ∃ store, forum.store.perform site.limits request = .ok (answer, store) ∧
      after = forum.after store request := by
  cases h with
  | carriedOut h => exact ⟨_, h, rfl⟩
  | skipped => exact absurd rfl (notBatch _)

variable (honest : conditions.Honest)

include honest

/-- A call that fails has no effect. It makes no sense to the store, or is refused. -/
theorem of_error {request : Request} {error : StoreError}
    (h : site.Answer conditions (.store request) forum (.error error) after) :
    after = forum ∧ (forum.store.perform site.limits request = .error error ∨
      error.isNotFound = false ∧ conditions.refuses error) := by
  cases h with
  | failed h => exact ⟨rfl, .inl h⟩
  | refused h => exact ⟨rfl, .inr ⟨honest.found _ h, h⟩⟩
  | lost loses => exact absurd loses honest.keeps

theorem of_queryContent {query : ContentQuery} {error : StoreError}
    (h : site.Answer conditions (.store (.queryContent query)) forum (.error error) after)
    (limit : 0 < query.limit) :
    after = forum ∧ error.isNotFound = false ∧ conditions.refuses error := by
  obtain ⟨hsame, hfailed | hrefused⟩ := h.of_error honest
  · simp [StoreState.perform, StoreState.queryContent, Nat.ne_of_gt limit, Except.map] at hfailed
  · exact ⟨hsame, hrefused⟩

theorem of_queryEngagement {query : EngagementQuery} {error : StoreError}
    (h : site.Answer conditions (.store (.queryEngagement query)) forum (.error error) after)
    (limit : 0 < query.limit) :
    after = forum ∧ error.isNotFound = false ∧ conditions.refuses error := by
  have hwindow : min query.limit site.limits.pageItems ≠ 0 :=
    Nat.ne_of_gt (Nat.lt_min.2 ⟨limit, site.limits.pageItems_pos⟩)
  obtain ⟨hsame, hfailed | hrefused⟩ := h.of_error honest
  · simp [StoreState.perform, StoreState.queryEngagement, hwindow, Except.map] at hfailed
  · exact ⟨hsame, hrefused⟩

theorem of_membership {caller : Caller} {hive : ScopeId} {reply : Except AccessError Role}
    (h : site.Answer conditions (.membership caller hive) forum reply after) :
    reply = site.directory.checkMember caller hive ∧ after = forum := by
  cases h with
  | role => exact ⟨rfl, rfl⟩
  | reassigned reassigns => exact absurd reassigns honest.steady

/-- A batch of bearable size is done in part, or refused. -/
theorem of_batch {keys : List EngagementKey} {reply : Except StoreError (List EngagementKey)}
    (h : site.Answer conditions (.store (.deleteEngagements keys)) forum reply after)
    (size : keys.length ≤ Limit.batchWrite) :
    (∃ done left, reply = .ok left ∧ keys.Perm (done ++ left) ∧
        after = ⟨forum.store.removeRecords done, forum.created⟩) ∨
      ∃ error, reply = .error error ∧ after = forum ∧ conditions.refuses error := by
  have hfits : checkBatch keys = .ok () := by
    rw [checkBatch, if_neg (by omega)]
  have hperform : forum.store.perform site.limits (.deleteEngagements keys) =
      .ok (keys.drop site.limits.writeCapacity,
        forum.store.removeRecords (keys.take site.limits.writeCapacity)) := by
    simp only [StoreState.perform, hfits]
  cases h with
  | carriedOut h =>
    rw [hperform] at h
    cases h
    refine .inl ⟨_, _, rfl, ?_, rfl⟩
    rw [List.take_append_drop]
  | failed h =>
    rw [hperform] at h
    cases h
  | refused h => exact .inr ⟨_, rfl, rfl, h⟩
  | lost loses => exact absurd loses honest.keeps
  | skipped _ _ split => exact .inl ⟨_, _, rfl, split, rfl⟩

/-- An item is removed, or there is none, or the call is refused. -/
theorem of_deleteContent {key : ContentKey} {reply : Except StoreError Unit}
    (h : site.Answer conditions (.store (.deleteContent key)) forum reply after) :
    (reply = .ok () ∧ after = ⟨forum.store.removeItem key, forum.created⟩) ∨
      ∃ error, reply = .error error ∧ after = forum ∧
        (error.isNotFound = true ∧ forum.store.item? key = none ∨
          error.isNotFound = false ∧ conditions.refuses error) := by
  have hperform : ∀ result, forum.store.perform site.limits (.deleteContent key) = result →
      (forum.store.item? key = none ∧ result = .error .contentNotFound) ∨
        result = .ok ((), forum.store.removeItem key) := by
    rintro _ rfl
    simp only [StoreState.perform]
    split
    · exact .inl ⟨‹_›, rfl⟩
    · exact .inr rfl
  cases reply with
  | ok answer =>
    obtain ⟨store, hok, rfl⟩ := h.of_ok (fun _ heq => by cases heq)
    obtain ⟨-, heq⟩ | heq := hperform _ hok
    · cases heq
    · cases heq
      exact .inl ⟨rfl, rfl⟩
  | error error =>
    obtain ⟨rfl, hfailed | hrefused⟩ := h.of_error honest
    · obtain ⟨hnone, heq⟩ | heq := hperform _ hfailed
      · cases heq
        exact .inr ⟨_, rfl, rfl, .inl ⟨rfl, hnone⟩⟩
      · cases heq
    · exact .inr ⟨_, rfl, rfl, .inr hrefused⟩

/-- The counts of an item are changed, or there is no item, or the call is refused. -/
theorem of_adjustCounts {key : ContentKey} {change : CountChange}
    {reply : Except StoreError ContentItem}
    (h : site.Answer conditions (.store (.adjustCounts key change)) forum reply after) :
    (∃ item, forum.store.item? key = some item ∧
        after = ⟨forum.store.putItem key (change.applyTo item), forum.created⟩) ∨
      after = forum ∧
        (forum.store.item? key = none ∨ ∃ error, conditions.refuses error) := by
  cases reply with
  | ok answer =>
    obtain ⟨store, hok, rfl⟩ := h.of_ok (fun _ heq => by cases heq)
    obtain ⟨item, hitem, -, rfl⟩ := StoreState.updateItem_eq_ok hok
    exact .inl ⟨item, hitem, rfl⟩
  | error error =>
    obtain ⟨rfl, hfailed | ⟨-, hrefused⟩⟩ := h.of_error honest
    · refine .inr ⟨rfl, .inl ?_⟩
      cases hitem : after.store.item? key with
      | none => rfl
      | some item => simp [StoreState.perform, StoreState.updateItem, hitem] at hfailed
    · exact .inr ⟨rfl, .inr ⟨error, hrefused⟩⟩

end Answer

end Site

end HiveForum
