import HiveForum.Proofs.Forum.Caution
import HiveForum.Proofs.Forum.Hosts
import HiveForum.Proofs.Forum.Run
import Mathlib.Logic.Relation

/-!
# Failed operations change nothing

An operation makes several calls, and at each of them the store may be switched off, the call may
take too long, or the time for the operation may be up. Whatever strikes, and wherever: an operation
that does not delete and fails has stored nothing, removed nothing and told nobody anything. It can
be tried again, any number of times.

## Main definitions

* `Host.brought`: what operations have brought about on a host.
* `Host.unstable`: the replies of a host whose store comes and goes.
* `Host.Fails`: an operation is tried and fails.

## Main results

* `Host.failed_operations_change_nothing`: what is stored and what has been sent is as it was, after
  any number of failures.
-/

namespace HiveForum

theorem StoreState.reply_keeps {limits : QueryLimits} {store : StoreState} {request : Request}
    (h : request.isRead = true ∨ ∃ error, (store.reply limits request).1 = .error error) :
    (store.reply limits request).2 = store := by
  rw [reply] at h ⊢
  cases hperform : store.perform limits request with
  | error error => rfl
  | ok result =>
    rw [hperform] at h
    obtain hread | ⟨error, heq⟩ := h
    · exact (change_of_perform hperform).eq_of_isRead hread
    · cases heq

namespace Host

/-- What operations have brought about: what is stored, and the notifications with what became of
them. -/
def brought (host : Host) : StoreState × List Notification × List NotifyError :=
  (host.store.state, host.sent, host.undelivered)

/-- The host with its store on or off, and with another latency. -/
def withService (host : Host) (available : Bool) (latency : Nat) : Host :=
  { host with store := { host.store with available := available, latency := latency } }

/-- The replies of a host whose store may be switched on or off, and get faster or slower, before
every effect. -/
def unstable (session : Session) : Responses Host where
  Answers effect host reply after :=
    ∃ available latency,
      (host.withService available latency).perform session effect = (reply, after)

/-- The operation is tried in some session, while the store comes and goes, and fails. -/
def Fails (op : Operation) (host after : Host) : Prop :=
  ∃ (session : Session) (horizon : Nat) (error : OperationError),
    Thread.Steps (unstable session) (.running (op.program host.settings horizon)) host
      (.running (.fail error)) after

/-- A call that reads or fails brings nothing about. -/
theorem brought_callStore {session : Session} {host : Host} {request : Request}
    (h : request.isRead = true ∨ ∃ error, (host.callStore session request).1 = .error error) :
    (host.callStore session request).2.brought = host.brought := by
  obtain ⟨time, ⟨error, hcall⟩ | hcall⟩ := callStore_withContents session host request
  · have hhost : host.callStore session request = _ := hcall host.store.state
    rw [hhost]
    rfl
  · have hhost : host.callStore session request = _ := hcall host.store.state
    rw [hhost] at h ⊢
    have hkeeps := StoreState.reply_keeps h
    change ((host.store.state.reply host.store.limits request).2, host.sent, host.undelivered) = _
    rw [hkeeps]
    rfl

theorem brought_perform {session : Session} {host : Host} {effect : Effect}
    (h : effect.isSilent = true) : (host.perform session effect).2.brought = host.brought := by
  cases effect with
  | store request => exact brought_callStore (.inl h)
  | notify => cases h
  | pause delay =>
    simp only [perform, pause]
    split <;> rfl
  | _ => rfl

/-- Whatever the store is switched to, a cautious operation that fails brings nothing about. -/
theorem Fails.brought_eq {op : Operation} (h : op.isDeletion = false) {host after : Host}
    (fails : host.Fails op after) : after.brought = host.brought := by
  obtain ⟨session, horizon, error, steps⟩ := fails
  have silent : ∀ {effect : Effect} {state after : Host} {reply : effect.Reply},
      effect.isSilent = true → (unstable session).Answers effect state reply after →
        after.brought = state.brought := by
    rintro effect state after reply hsilent ⟨available, latency, hperform⟩
    have hbrought := @brought_perform session (state.withService available latency) effect hsilent
    rw [hperform] at hbrought
    exact hbrought
  have refused : ∀ {request : Request} {state after : Host} {error : StoreError},
      (unstable session).Answers (.store request) state (.error error) after →
        after.brought = state.brought := by
    rintro request state after error ⟨available, latency, hperform⟩
    have hbrought := @brought_callStore session (state.withService available latency) request
      (.inr ⟨error, congrArg Prod.fst hperform⟩)
    rw [show (state.withService available latency).callStore session request = _ from hperform]
      at hbrought
    exact hbrought
  obtain ⟨idle, acted, hcautious⟩ := op.cautious h host.settings horizon
  exact hcautious.unchanged_of_steps silent refused steps

theorem brought_execute {op : Operation} (h : op.isDeletion = false) {host : Host}
    {session : Session} {stop : Stop} (hstop : (host.execute session op).1 = .error stop) :
    (host.execute session op).2.brought = host.brought := by
  have silent : ∀ {effect : Effect} {state : Host}, effect.isSilent = true →
      ((world session).perform effect state).2.brought = state.brought := brought_perform
  have refused : ∀ {request : Request} {state : Host} {error : StoreError},
      ((world session).perform (.store request) state).1 = .error error →
        ((world session).perform (.store request) state).2.brought = state.brought :=
    fun heq => brought_callStore (.inr ⟨_, heq⟩)
  obtain ⟨idle, acted, hcautious⟩ := op.cautious h host.settings (host.horizon session)
  exact hcautious.unchanged_of_run silent refused hstop

/-- An operation that does not delete is executed on any host, in any session, and gives an error:
what is stored and what has been sent is as it was. The same holds after any number of attempts that
have failed, each in a session of its own, while the store is switched on and off and gets faster
and slower from one effect to the next. -/
theorem failed_operations_change_nothing {op : Operation} (h : op.isDeletion = false)
    (host : Host) :
    (∀ session stop, (host.execute session op).1 = .error stop →
      (host.execute session op).2.store.state = host.store.state ∧
        (host.execute session op).2.sent = host.sent) ∧
    ∀ after, Relation.ReflTransGen (fun host after => host.Fails op after) host after →
      after.store.state = host.store.state ∧ after.sent = host.sent := by
  have hparts : ∀ {after : Host}, after.brought = host.brought →
      after.store.state = host.store.state ∧ after.sent = host.sent := by
    intro after heq
    obtain ⟨hstate, hrest⟩ := Prod.mk.inj heq
    exact ⟨hstate, (Prod.mk.inj hrest).1⟩
  refine ⟨fun session stop hstop => hparts (brought_execute h hstop), fun after attempts => ?_⟩
  refine hparts ?_
  induction attempts with
  | refl => rfl
  | tail _ fails ih => exact (fails.brought_eq h).trans ih

end Host

namespace Sample

/-- A host of the site that stores the post. -/
def host (stamps : StampClock) (available : Bool) (latency : Nat) : Host where
  store := { state := forum.store, available := available, latency := latency }
  directory := site.directory
  stamps := stamps

/-- The vote of the member for the post. -/
def voting : Operation := .vote caller ⟨post.hive, post.key⟩ .addUp

theorem voting_fails (stamps : StampClock) (available : Bool) (latency : Nat) :
    (host stamps available latency).Fails voting (host stamps.tick.2 false 0) := by
  have answers : ∀ (available : Bool) (effect : Effect) (state : Host),
      (Host.unstable {}).Answers effect state
        ((state.withService available 0).perform {} effect).1
        ((state.withService available 0).perform {} effect).2 :=
    fun available _ _ => ⟨available, 0, rfl⟩
  exact ⟨{}, 0, .storeUnavailable (.store .unavailable),
    .perform (answers true _ _) <| .perform (answers true _ _) <| .perform (answers true _ _) <|
      .perform (answers true _ _) <| .perform (answers false _ _) .none⟩

/-- A vote leaves nothing behind if its deadline comes before the first answer, and if it is tried
twice and the store goes off at the last call each time. -/
theorem failed_voting_changes_nothing :
    let soon : Session := ⟨some ⟨1⟩⟩
    let slow := host ⟨0, 0⟩ true 2
    let after := host (StampClock.tick (StampClock.tick ⟨0, 0⟩).2).2 false 0
    Operation.isDeletion voting = false ∧
      (slow.execute soon voting).1 = .error (.failed (.storeUnavailable (.store .timeout))) ∧
      ((slow.execute soon voting).2.store.state = slow.store.state ∧
        (slow.execute soon voting).2.sent = slow.sent) ∧
      Relation.ReflTransGen (fun host after => host.Fails voting after) slow after ∧
      after.store.state = slow.store.state ∧ after.sent = slow.sent := by
  intro soon slow after
  have timeout : (slow.execute soon voting).1 =
      .error (.failed (.storeUnavailable (.store .timeout))) := rfl
  have attempts : Relation.ReflTransGen (fun host after => host.Fails voting after) slow after :=
    .tail (.single (voting_fails _ _ _)) (voting_fails _ _ _)
  obtain ⟨executed, tried⟩ := @Host.failed_operations_change_nothing voting rfl slow
  exact ⟨rfl, timeout, executed soon _ timeout, attempts, tried after attempts⟩

end Sample

end HiveForum
