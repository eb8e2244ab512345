import HiveForum.Proofs.Forum.Announcing
import HiveForum.Proofs.Forum.Company
import HiveForum.Proofs.Forum.Hosts

/-!
# Hosts send what is told

A host sends the notifications that operations hand over to it, each once and no others. What the
delivery of a notification answers is noted on the host and not looked at again. So hosts that
differ in nothing but their notifiers, and in what these have answered, do the same.

## Main definitions

* `Host.turbulent`: the replies of a host where anything may happen between any two effects.
* `Host.withoutNotifier`: what is left of a host if nothing is known of its notifier.

## Main results

* `Host.perform_sent`: a host sends what an effect hands over.
* `Host.perform_withoutNotifier`: what a host does does not depend on its notifier.
* `Host.notifications_mirror`: whatever goes wrong, the notifications sent are those of the comments
  and votes that have been returned, and without regard to the notifier all else is the same.
-/

namespace HiveForum

open Program

/-! ### Views of a world whose calls fail -/

namespace World.Shows

variable {σ τ : Type} {world : World σ} {other : World τ} {view : σ → τ} {effect : Effect}
  {reply : effect.Reply}

theorem faultyAnswer {state after : σ} (shows : world.Shows other view)
    (h : world.FaultyAnswer effect state reply after) :
    other.FaultyAnswer effect (view state) reply (view after) := by
  have hperform := shows.perform effect state
  cases h with
  | truthful h => exact .truthful (by rw [hperform, h])
  | refused request _ error => exact .refused request _ error
  | lost request _ error =>
    have hafter : (other.perform (.store request) (view state)).2 =
        view (world.perform (.store request) state).2 := congrArg Prod.snd hperform
    exact hafter ▸ .lost request _ error

theorem exists_faultyAnswer {state : σ} {seen : τ} (shows : world.Shows other view)
    (h : other.FaultyAnswer effect (view state) reply seen) :
    ∃ after, world.FaultyAnswer effect state reply after ∧ view after = seen := by
  have hperform := shows.perform effect state
  cases h with
  | truthful h =>
    obtain ⟨rfl, rfl⟩ := Prod.mk.inj (hperform.symm.trans h)
    exact ⟨_, .truthful rfl, rfl⟩
  | refused request _ error => exact ⟨state, .refused request _ error, rfl⟩
  | lost request _ error => exact ⟨_, .lost request _ error, (congrArg Prod.snd hperform).symm⟩

end World.Shows

/-! ### Hosts -/

namespace Host

/-- The host as others leave it. Only notifications are none of their business. -/
def disturbed (host other : Host) : Host :=
  { other with
    notifier := host.notifier
    sent := host.sent
    undelivered := host.undelivered }

/-- The replies of a host where anything may happen between any two effects: others change what is
stored, the store comes and goes, calls fail or lose their replies, and deadlines pass. -/
def turbulent : Responses Host where
  Answers effect host reply after :=
    ∃ (session : Session) (other : Host),
      (world session).FaultyAnswer effect (host.disturbed other) reply after

/-- What is left of a host if nothing is known of its notifier. -/
def withoutNotifier (host : Host) : Host :=
  { host with
    notifier := fun _ => .ok ()
    undelivered := [] }

/-- A call depends on the settings, the time and the store, and changes the latter two. -/
theorem exists_callStore (session : Session) (host : Host) (request : Request) :
    ∃ reply time store, ∀ other : Host, other.settings = host.settings →
      other.time = host.time → other.store = host.store →
        other.callStore session request =
          (reply, { other with time := time, store := store }) := by
  let deadline := session.callDeadline host.settings host.time
  by_cases expired : deadline.isExpired host.time
  · refine ⟨.error .timeout, host.time, host.store, ?_⟩
    rintro ⟨⟩ rfl rfl rfl
    exact if_pos expired
  by_cases late : deadline.instant < host.time + host.store.latency
  · refine ⟨.error .timeout, deadline.instant, host.store, ?_⟩
    rintro ⟨⟩ rfl rfl rfl
    exact (if_neg expired).trans (callWithin_of_late request (if_pos late))
  · refine ⟨(host.store.answer request).1, host.time + host.store.latency,
      (host.store.answer request).2, ?_⟩
    rintro ⟨⟩ rfl rfl rfl
    exact (if_neg expired).trans (Eq.trans (callWithin_of_inTime request (if_neg late)) rfl)

/-- What a host does does not depend on its notifier. -/
theorem perform_withoutNotifier (session : Session) (host : Host) (effect : Effect) :
    host.withoutNotifier.perform session effect =
      ((host.perform session effect).1, (host.perform session effect).2.withoutNotifier) := by
  cases effect with
  | store request =>
    obtain ⟨reply, time, store, h⟩ := exists_callStore session host request
    rw [perform, perform, h host rfl rfl rfl, h host.withoutNotifier rfl rfl rfl]
    rfl
  | pause delay =>
    simp only [perform, pause]
    by_cases allowed : session.allows delay host.time
    · exact (if_pos allowed).trans (by rw [if_pos allowed]; rfl)
    · exact (if_neg allowed).trans (by rw [if_neg allowed])
  | notify notification =>
    simp only [perform, send]
    cases host.notifier notification <;> rfl
  | _ => rfl

/-- A host sends what an effect hands over, and nothing else. -/
theorem perform_sent (session : Session) (host : Host) (effect : Effect) :
    (host.perform session effect).2.sent = host.sent ++ effect.notice?.toList := by
  cases effect with
  | store request =>
    obtain ⟨reply, time, store, h⟩ := exists_callStore session host request
    rw [perform, h host rfl rfl rfl]
    exact (List.append_nil _).symm
  | pause delay =>
    simp only [perform, pause]
    split <;> exact (List.append_nil _).symm
  | notify notification =>
    simp only [perform, send]
    split <;> rfl
  | _ => exact (List.append_nil _).symm

theorem shows_withoutNotifier (session : Session) :
    (world session).Shows (world session) withoutNotifier where
  perform effect host := perform_withoutNotifier session host effect
  time _ := rfl
  setTime _ _ := rfl

section Turbulence

variable {effect : Effect} {host after : Host} {reply : effect.Reply}

theorem turbulent_of_perform {session : Session}
    (h : host.perform session effect = (reply, after)) :
    turbulent.Answers effect host reply after :=
  ⟨session, host, .truthful h⟩

theorem turbulent_sent (h : turbulent.Answers effect host reply after) :
    after.sent = host.sent ++ Event.notices ⟨effect, host, reply, after⟩ := by
  obtain ⟨session, other, h⟩ := h
  have hsent := perform_sent session (host.disturbed other) effect
  cases h with
  | truthful h => rwa [show perform session effect (host.disturbed other) = _ from h] at hsent
  | refused => exact (List.append_nil _).symm
  | lost => exact hsent

theorem turbulent_withoutNotifier (h : turbulent.Answers effect host reply after) :
    turbulent.Answers effect host.withoutNotifier reply after.withoutNotifier := by
  obtain ⟨session, other, h⟩ := h
  exact ⟨session, other, (shows_withoutNotifier session).faultyAnswer h⟩

theorem exists_turbulent {seen : Host}
    (h : turbulent.Answers effect host.withoutNotifier reply seen) :
    ∃ after, turbulent.Answers effect host reply after ∧ after.withoutNotifier = seen := by
  obtain ⟨session, other, h⟩ := h
  have answered : (world session).FaultyAnswer effect (host.disturbed other).withoutNotifier reply
      seen := h
  obtain ⟨after, carried, hafter⟩ := (shows_withoutNotifier session).exists_faultyAnswer answered
  exact ⟨after, ⟨session, other, carried⟩, hafter⟩

end Turbulence

theorem execute_withoutNotifier (host : Host) (session : Session) (op : Operation) :
    host.withoutNotifier.execute session op =
      ((host.execute session op).1, (host.execute session op).2.withoutNotifier) :=
  Program.run_shows (shows_withoutNotifier session) _ host

/-- Whatever goes wrong in the course of operations side by side, the notifications that are sent
are those of their journals, and each operation has told what it has returned, or nothing. Whatever
the notifier answers, the same may come of the operations; and an operation that runs alone gives
the same result and leaves the same host behind. -/
theorem notifications_mirror {invocations : List Invocation} {host after : Host}
    {pool : Thread.Pool}
    (run : Thread.Pool.Steps turbulent (Invocation.pool invocations) host pool after) :
    (∃ kept : Thread.Pool.Kept Host, kept.map Prod.fst = pool ∧
      Thread.Pool.Recorded turbulent (Invocation.pool invocations) host kept after ∧
      after.sent.Perm (host.sent ++ kept.flatMap fun entry => notices entry.2) ∧
      List.Forall₂ Invocation.Mirrors invocations kept) ∧
    ∀ other : Host, other.withoutNotifier = host.withoutNotifier →
      (∃ later, Thread.Pool.Steps turbulent (Invocation.pool invocations) other pool later ∧
        later.withoutNotifier = after.withoutNotifier) ∧
      ∀ (session : Session) (op : Operation),
        (other.execute session op).1 = (host.execute session op).1 ∧
          (other.execute session op).2.withoutNotifier =
            (host.execute session op).2.withoutNotifier := by
  refine ⟨?_, fun other hother => ⟨?_, fun session op => ?_⟩⟩
  · obtain ⟨kept, hkept, recorded⟩ := run.exists_recorded
    exact ⟨kept, hkept, recorded, recorded.collects turbulent_sent,
      Invocation.mirrors_of_recorded recorded⟩
  · have seen := run.map turbulent_withoutNotifier
    rw [← hother] at seen
    exact seen.lift exists_turbulent
  · have hrun := execute_withoutNotifier other session op
    rw [hother, execute_withoutNotifier host session op] at hrun
    obtain ⟨houtcome, hlater⟩ := Prod.mk.inj hrun
    exact ⟨houtcome.symm, hlater.symm⟩

end Host

/-! ### A run whose notifications are not delivered -/

theorem Program.Plain.steps {σ α : Type} {p : Program α} (plain : p.Plain) {world : World σ}
    {state after : σ} {value : α} (run : p.run world state = (.ok value, after)) :
    Thread.Steps world.truthful (.running p) state (.running (.done value)) after := by
  induction plain generalizing state with
  | done =>
    obtain ⟨hvalue, rfl⟩ := Prod.mk.inj run
    obtain rfl := Except.ok.inj hvalue
    exact .none
  | fail => cases (Prod.mk.inj run).1
  | perform _ ih => exact .perform rfl (ih _ run)

namespace Sample

/-- A post that someone has left in the hive of the member. -/
def foreignPost : ContentItem := .newPost ⟨.ofNat 1⟩ ⟨.ofNat 2⟩ ⟨"guest"⟩ "body" [] 0

/-- A host with the post, where no notification is delivered. -/
def unheard : Host where
  store := { state := StoreState.empty.putItem foreignPost.key foreignPost }
  directory := site.directory
  stamps := ⟨0, 0⟩
  notifier _ := .error ⟨"no route"⟩

/-- The member comments on the post. -/
def replying : Invocation := ⟨{}, 0, .createComment caller ⟨.ofNat 1⟩ ⟨.ofNat 2⟩ "reply"⟩

/-- The comment. -/
def response : ContentItem :=
  .newComment ⟨.ofNat 1⟩ ⟨.ofNat 2⟩ ⟨(Uuid.ofNat 1).version4⟩ caller.user "reply" 1

/-- The member votes for the post. -/
def praising : Invocation := ⟨{}, 0, .vote caller ⟨⟨.ofNat 1⟩, foreignPost.key⟩ .addUp⟩

/-- The guest is told of the comment and of the vote. Were the notifications delivered, all else
would be the same. -/
theorem unheard_mirrored :
    let replied := unheard.execute {} replying.operation
    let praised := replied.2.execute {} praising.operation
    ∃ record : EngagementRecord,
      let pool : Thread.Pool := [⟨_, .running (.done response)⟩, ⟨_, .running (.done record)⟩]
      replied.1 = .ok response ∧ praised.1 = .ok record ∧
      praised.2.sent =
        [.commentCreated ⟨.ofNat 1⟩ ⟨.ofNat 2⟩ response.id caller.user ⟨"guest"⟩,
          .upVoted ⟨.ofNat 1⟩ foreignPost.key caller.user ⟨"guest"⟩] ∧
      praised.2.undelivered = [⟨"no route"⟩, ⟨"no route"⟩] ∧
      (∃ kept : Thread.Pool.Kept Host, kept.map Prod.fst = pool ∧
        praised.2.sent.Perm (kept.flatMap fun entry => notices entry.2) ∧
        List.Forall₂ Invocation.Mirrors [replying, praising] kept) ∧
      ∃ later, Thread.Pool.Steps Host.turbulent (Invocation.pool [replying, praising])
          unheard.withoutNotifier pool later ∧
        later.withoutNotifier = praised.2.withoutNotifier := by
  intro replied praised
  have hreply : replied.1 = .ok response := rfl
  obtain ⟨record, hrecord⟩ : ∃ record : EngagementRecord, praised.1 = .ok record := ⟨_, rfl⟩
  have turbulent : ∀ {effect : Effect} {host after : Host} {reply : effect.Reply},
      (Host.world {}).truthful.Answers effect host reply after →
        Host.turbulent.Answers effect host reply after := Host.turbulent_of_perform
  have replies := ((plain_createComment _ _ _ _).steps (Prod.ext hreply rfl :
    (replying.operation.program {} 0).run (Host.world {}) unheard = (.ok response, replied.2))).imp
      turbulent
  have praises := ((plain_vote _ _ _ _).steps (Prod.ext hrecord rfl :
    (praising.operation.program {} 0).run (Host.world {}) replied.2 =
      (.ok record, praised.2))).imp turbulent
  have run : Thread.Pool.Steps Host.turbulent (Invocation.pool [replying, praising]) unheard
      [⟨_, .running (.done response)⟩, ⟨_, .running (.done record)⟩] praised.2 :=
    (Thread.Pool.Steps.of_thread replies [] [praising.thread]).trans
      (Thread.Pool.Steps.of_thread praises [⟨_, .running (.done response)⟩] [])
  obtain ⟨⟨kept, hkept, -, hsent, mirrors⟩, others⟩ := Host.notifications_mirror run
  exact ⟨record, hreply, hrecord, rfl, rfl, ⟨kept, hkept, hsent, mirrors⟩,
    (others unheard.withoutNotifier rfl).1⟩

end Sample

end HiveForum
