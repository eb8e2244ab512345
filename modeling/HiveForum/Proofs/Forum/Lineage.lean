import HiveForum.Proofs.Forum.Answers
import HiveForum.Proofs.Forum.Sound
import HiveForum.Proofs.Store.Page

/-!
# What stored items go back to

Whatever becomes of a call, an item that is stored after it was stored at its place before, and has
changed in nothing but its counts, flags and time of activity, unless the call has just stored it.

## Main results

* `StoreState.Change.item?_source`, `StoreState.Change.item?_origin`, `Site.Answer.item?_origin`:
  where a stored item comes from.
* `Site.Answer.filed`: items remain stored under their own keys.
* `Site.Answer.asCreated_eq`: an item that remains stored remains what it was.
-/

namespace HiveForum

theorem ContentItem.field_eq {β : Type} {a b : ContentItem} (same : a.asCreated = b.asCreated)
    (field : ContentItem → β) (fixed : ∀ item : ContentItem, field item.asCreated = field item) :
    field a = field b := by
  rw [← fixed a, same, fixed b]

/-- An item that is stored after a change was stored before, or is a new one. Whatever no edit of
the request changes in an item has remained the same. -/
theorem StoreState.Change.item?_source {state later : StoreState} {request : Request}
    (Same : ContentItem → ContentItem → Prop) (refl : ∀ item, Same item item)
    (edits : ∀ key before after, request.Edits key before after → Same after before)
    (votes : ∀ (change : CountChange) item, Same (change.applyTo item) item)
    (reports : ∀ (outcome : ReportOutcome) item, Same (outcome.applyTo item) item)
    (change : state.Change request later) {key : ContentKey} {item : ContentItem}
    (h : later.item? key = some item) :
    (∃ before, state.item? key = some before ∧ Same item before) ∨
      request = .putContent item ∧ key = item.key ∧ state.item? key = none := by
  have unchanged : state.item? key = some item →
      ∃ before, state.item? key = some before ∧ Same item before :=
    fun h => ⟨item, h, refl item⟩
  have edited : ∀ {key' : ContentKey} {before edited : ContentItem},
      state.item? key' = some before → Same edited before →
      (state.putItem key' edited).item? key = some item →
      ∃ before, state.item? key = some before ∧ Same item before := by
    intro key' before edited found same hitem
    rw [item?_putItem] at hitem
    split at hitem
    · rename_i heq
      obtain rfl := Option.some.inj hitem
      exact ⟨before, heq ▸ found, same⟩
    · exact unchanged hitem
  cases change with
  | read => exact .inl (unchanged h)
  | put vacant =>
    rw [item?_putItem] at h
    split at h
    · rename_i heq
      obtain rfl := Option.some.inj h
      exact .inr ⟨rfl, heq, heq ▸ vacant⟩
    · exact .inl (unchanged h)
  | edit hedits found => exact .inl (edited found (edits _ _ _ hedits) h)
  | remove =>
    rw [item?_removeItem] at h
    split at h
    · cases h
    · exact .inl (unchanged h)
  | write => exact .inl (unchanged h)
  | @vote _ key' change before found =>
    have h : (state.putItem key' (change.applyTo before)).item? key = some item := h
    exact .inl (edited found (votes change before) h)
  | @report _ key' outcome before found =>
    have h : (state.putItem key' (outcome.applyTo before)).item? key = some item := h
    exact .inl (edited found (reports outcome before) h)
  | erase => exact .inl (unchanged h)

/-- What an item was when it was stored first no change changes. -/
theorem StoreState.Change.item?_origin {state later : StoreState} {request : Request}
    (change : state.Change request later) {key : ContentKey} {item : ContentItem}
    (h : later.item? key = some item) :
    (∃ before, state.item? key = some before ∧ item.asCreated = before.asCreated) ∨
      request = .putContent item ∧ key = item.key ∧ state.item? key = none :=
  change.item?_source (fun after before => after.asCreated = before.asCreated) (fun _ => rfl)
    (fun _ _ _ edits => edits.asCreated_eq) CountChange.asCreated_applyTo
    ReportOutcome.asCreated_applyTo h

namespace Site.Answer

variable {site : Site} {conditions : Conditions} {effect : Effect} {forum after : Forum}
  {reply : effect.Reply} {key : ContentKey} {item : ContentItem}

/-- An item that is stored after an effect was stored before, or is a new one. -/
theorem item?_origin (answer : site.Answer conditions effect forum reply after)
    (h : after.store.item? key = some item) :
    (∃ before, forum.store.item? key = some before ∧ item.asCreated = before.asCreated) ∨
      effect = .store (.putContent item) ∧ key = item.key ∧ forum.store.item? key = none ∧
        item ∈ after.created := by
  obtain rfl | ⟨request, store, rfl, change, rfl⟩ := answer.change
  · exact .inl ⟨item, h, rfl⟩
  · rw [Forum.after_store] at h
    refine (change.item?_origin h).imp_right fun ⟨hput, hkey, hnone⟩ => ?_
    subst hput
    exact ⟨rfl, hkey, hnone, List.mem_append_right _ (List.mem_singleton_self _)⟩

/-- Items remain stored under their own keys. -/
theorem filed (answer : site.Answer conditions effect forum reply after)
    (h : forum.store.Filed) : after.store.Filed := by
  intro key item hitem
  obtain ⟨before, hbefore, hsame⟩ | ⟨-, hkey, -⟩ := answer.item?_origin hitem
  · exact (ContentItem.field_eq hsame ContentItem.key fun _ => rfl).trans (h key before hbefore)
  · exact hkey.symm

/-- An item that remains stored remains what it was but for its counts, flags and time of
activity. -/
theorem asCreated_eq (answer : site.Answer conditions effect forum reply after)
    {before : ContentItem} (found : forum.store.item? key = some before)
    (h : after.store.item? key = some item) : item.asCreated = before.asCreated := by
  obtain ⟨other, hother, hsame⟩ | ⟨-, -, hnone, -⟩ := answer.item?_origin h
  · rw [found] at hother
    exact Option.some.inj hother ▸ hsame
  · rw [found] at hnone
    cases hnone

end Site.Answer

end HiveForum
