import HiveForum.Proofs.Forum.Answers
import HiveForum.Proofs.Program.Execution

/-!
# What a host does

A host does two things when it carries out an effect: it moves its clock, its sources and its
notifications, whatever is stored, and it lets the store reply, whatever else there is. So a host
stands for the forum that it stores, and contracts say how it executes programs.

## Main definitions

* `StoreState.reply`: the reply of a store with its contents afterwards.
* `Host.withContents`: a host with other contents in its store.
* `Host.Stands`: a host stores a forum of a site.

## Main results

* `Host.callStore_withContents`, `Host.perform_withContents`: what a host does apart from its store
  does not depend on what is stored.
* `Host.heeds`: a host carries out effects as the responses of its site allow.
-/

namespace HiveForum

/-- The reply to a request, with the contents of the store after it. -/
def StoreState.reply (limits : QueryLimits) (store : StoreState) (request : Request) :
    Except StoreError request.Answer × StoreState :=
  match store.perform limits request with
  | .error error => (.error error, store)
  | .ok (answer, later) => (.ok answer, later)

namespace Host

/-- The host with other contents in its store. -/
def withContents (host : Host) (contents : StoreState) : Host :=
  { host with store := { host.store with state := contents } }

theorem callWithin_of_late {host later : Host} {bound : Option Deadline} (request : Request)
    (h : host.await bound = (false, later)) :
    host.callWithin bound request = (.error .timeout, later) := by
  rw [callWithin, h]

theorem callWithin_of_inTime {host later : Host} {bound : Option Deadline} (request : Request)
    (h : host.await bound = (true, later)) :
    host.callWithin bound request = later.answer request := by
  rw [callWithin, h]

theorem answer_of_available {host : Host} (h : host.store.available = true) (request : Request) :
    host.answer request = ((host.store.state.reply host.store.limits request).1,
      host.withContents (host.store.state.reply host.store.limits request).2) := by
  rw [answer, MemoryStore.answer, if_pos h, StoreState.reply]
  cases host.store.state.perform host.store.limits request <;> rfl

theorem answer_of_unavailable {host : Host} (h : host.store.available = false)
    (request : Request) : host.answer request = (.error .unavailable, host) := by
  rw [answer, MemoryStore.answer_of_unavailable h]

/-- Whatever is stored, a call either fails and changes nothing, or it is answered from the
contents. -/
theorem callStore_withContents (session : Session) (host : Host) (request : Request) :
    ∃ time, (∃ error, ∀ contents, (host.withContents contents).callStore session request =
        (.error error, { host with time := time }.withContents contents)) ∨
      ∀ contents, (host.withContents contents).callStore session request =
        ((contents.reply host.store.limits request).1,
          { host with time := time }.withContents
            (contents.reply host.store.limits request).2) := by
  let deadline := session.callDeadline host.settings host.time
  by_cases expired : deadline.isExpired host.time
  · exact ⟨host.time, .inl ⟨.timeout, fun _ => if_pos expired⟩⟩
  by_cases late : deadline.instant < host.time + host.store.latency
  · refine ⟨deadline.instant, .inl ⟨.timeout, fun contents => ?_⟩⟩
    exact (if_neg expired).trans (callWithin_of_late request (if_pos late))
  refine ⟨host.time + host.store.latency, ?_⟩
  let later := host.advance host.store.latency
  have hcall : ∀ contents, (host.withContents contents).callStore session request =
      (later.withContents contents).answer request := fun contents =>
    (if_neg expired).trans (callWithin_of_inTime request (if_neg late))
  cases available : host.store.available with
  | true =>
    have havailable : ∀ contents, (later.withContents contents).store.available = true :=
      fun _ => available
    exact .inr fun contents => (hcall contents).trans (answer_of_available (havailable contents) _)
  | false =>
    have havailable : ∀ contents, (later.withContents contents).store.available = false :=
      fun _ => available
    exact .inl ⟨.unavailable, fun contents =>
      (hcall contents).trans (answer_of_unavailable (havailable contents) _)⟩

/-- Apart from calls to the store, a host does the same whatever is stored. -/
theorem perform_withContents (session : Session) (host : Host) (contents : StoreState) :
    (effect : Effect) → (∀ request, effect ≠ .store request) →
      (host.withContents contents).perform session effect =
        ((host.perform session effect).1, (host.perform session effect).2.withContents contents)
  | .store request, h => absurd rfl (h request)
  | .membership _ _, _ => rfl
  | .timestamp, _ => rfl
  | .newContentId, _ => rfl
  | .randomWord, _ => rfl
  | .pause delay, _ => by
    simp only [perform, pause]
    by_cases allowed : session.allows delay host.time
    · exact (if_pos allowed).trans (by rw [if_pos allowed]; rfl)
    · exact (if_neg allowed).trans (by rw [if_neg allowed])
  | .notify notification, _ => by
    simp only [perform, send]
    have hnotifier : (host.withContents contents).notifier = host.notifier := rfl
    rw [hnotifier]
    cases host.notifier notification <;> rfl

/-- A host keeps its directory and the bounds of its store, and only a draw uses up an
identifier. -/
theorem perform_keeps (session : Session) (host : Host) (effect : Effect) :
    (host.perform session effect).2.directory = host.directory ∧
      (host.perform session effect).2.store.limits = host.store.limits ∧
        (effect ≠ .newContentId → (host.perform session effect).2.ids = host.ids) := by
  cases effect with
  | store request =>
    obtain ⟨time, ⟨error, h⟩ | h⟩ := callStore_withContents session host request
    all_goals
      have hhost : host.perform session (.store request) = _ := h host.store.state
      rw [hhost]
      exact ⟨rfl, rfl, fun _ => rfl⟩
  | pause delay =>
    simp only [perform, pause]
    split <;> exact ⟨rfl, rfl, fun _ => rfl⟩
  | notify notification =>
    simp only [perform, send]
    split <;> exact ⟨rfl, rfl, fun _ => rfl⟩
  | newContentId => exact ⟨rfl, rfl, fun h => absurd rfl h⟩
  | _ => exact ⟨rfl, rfl, fun _ => rfl⟩

/-- The host stores the forum, with the directory and the bounds of the site. -/
structure Stands (site : Site) (host : Host) (forum : Forum) : Prop where
  store : host.store.state = forum.store
  limits : site.limits = host.store.limits
  directory : site.directory = host.directory

/-- A host carries out effects as its site allows when the store may be out of reach and the time
may be up. -/
theorem heeds (site : Site) (session : Session) :
    (world session).Heeds (site.responses .unsteady) (Stands site) where
  perform effect host forum stands := by
    obtain ⟨created, answer⟩ := @perform_answers site session effect host _ _ forum.created
      stands.limits stands.directory rfl
    obtain ⟨hdirectory, hlimits, -⟩ := perform_keeps session host effect
    rw [stands.store] at answer
    exact ⟨_, answer, rfl, stands.limits.trans hlimits.symm, stands.directory.trans hdirectory.symm⟩
  setTime _ _ _ stands := ⟨stands.store, stands.limits, stands.directory⟩

end Host

end HiveForum
