import HiveForum.Operation
import HiveForum.Proofs.Forum.Hosts
import HiveForum.Proofs.Program.Sequencing

/-!
# A host whose store is there

A host whose store is there and answers in time does with a program what the program says, step by
step: a call gets the reply of the store, and nothing else about the host matters but its directory
and its clock for time stamps.

## Main definitions

* `Host.Serving`: every call is answered that is made without a deadline.
* `Host.Leaves`: what an operation leaves behind on a host.
* `Program.Yields`: what a program comes to on a host.

## Main results

* `Host.Serving.callStore`: a call gets the reply of the store.
* `Program.yields_store`, `Program.yields_loadTarget`, `Program.yields_currentRecord`,
  `Program.yields_retryConflicts`: the steps of operations.
-/

namespace HiveForum

/-- The item that a target is about, if it is stored and belongs to the hive. -/
def StoreState.locate (store : StoreState) (target : Target) : Except OperationError ContentItem :=
  match store.item? target.content with
  | none => .error .notFound
  | some item => if item.hive = target.hive then .ok item else .error .notFound

/-- The record of a user on a target, a neutral one if there is none. -/
def StoreState.recordFor (store : StoreState) (user : UserId) (target : Target) :
    EngagementRecord :=
  (store.record? ⟨user, target.content.id⟩).getD (.neutral user target.content target.hive)

theorem StoreState.locate_eq_ok_iff {store : StoreState} {target : Target} {item : ContentItem} :
    store.locate target = .ok item ↔
      store.item? target.content = some item ∧ item.hive = target.hive := by
  rw [locate]
  cases store.item? target.content with
  | none => simp
  | some stored =>
    dsimp only
    split
    · rename_i hhive
      simp only [Except.ok.injEq, Option.some.injEq]
      exact ⟨fun heq => ⟨heq, heq ▸ hhive⟩, And.left⟩
    · rename_i hhive
      simp only [reduceCtorEq, Option.some.injEq, false_iff, not_and]
      rintro rfl
      exact hhive

namespace Host

/-- The store is there, and whoever sets no deadline is answered in time. -/
structure Serving (host : Host) : Prop where
  available : host.store.available = true
  waits : 0 < host.settings.callTimeout.toNat
  timely : host.store.latency ≤ host.settings.callTimeout.toNat

/-- The host has been left with other contents, with some more notifications and with its clock for
time stamps at some point. Its store is still there, and its directory is the same. -/
structure Leaves (host : Host) (contents : StoreState) (sent : List Notification)
    (stamps : StampClock) (later : Host) : Prop where
  serving : later.Serving
  directory : later.directory = host.directory
  limits : later.store.limits = host.store.limits
  contents : later.store.state = contents
  sent : later.sent = host.sent ++ sent
  stamps : later.stamps = stamps

variable {host start : Host} {contents : StoreState} {sent : List Notification}
  {stamps : StampClock}

/-- A call that is made without a deadline gets the reply of the store. -/
theorem Serving.callStore (h : host.Serving) (request : Request) :
    host.callStore {} request = ((host.store.state.reply host.store.limits request).1,
      (host.advance host.store.latency).withContents
        (host.store.state.reply host.store.limits request).2) := by
  let deadline := Session.callDeadline {} host.settings host.time
  have instant : deadline.instant = host.time + host.settings.callTimeout.toNat := rfl
  have early : ¬deadline.isExpired host.time = true := by
    have hwaits := h.waits
    simp only [Deadline.isExpired, instant, decide_eq_true_eq]
    omega
  have inTime : ¬deadline.instant < host.time + host.store.latency := by
    have htimely := h.timely
    omega
  have available : (host.advance host.store.latency).store.available = true := h.available
  have hwithin : host.callWithin (some deadline) request =
      (host.advance host.store.latency).answer request :=
    callWithin_of_inTime request (if_neg inTime)
  exact (if_neg early).trans (hwithin.trans (answer_of_available available request))

/-- To begin with, nothing has been done. -/
theorem Serving.leaves (h : host.Serving) :
    host.Leaves host.store.state [] host.stamps host :=
  ⟨h, rfl, rfl, rfl, (List.append_nil _).symm, rfl⟩

/-- A call leaves the host with the contents after it. -/
theorem Leaves.callStore (h : start.Leaves contents sent stamps host) (request : Request) :
    (host.callStore {} request).1 = (contents.reply start.store.limits request).1 ∧
      start.Leaves (contents.reply start.store.limits request).2 sent stamps
        (host.callStore {} request).2 := by
  obtain ⟨serving, directory, limits, rfl, hsent, hstamps⟩ := h
  rw [serving.callStore, limits]
  exact ⟨rfl, ⟨serving.available, serving.waits, serving.timely⟩, directory, limits, rfl, hsent,
    hstamps⟩

theorem Leaves.timestamp (h : start.Leaves contents sent stamps host) :
    (host.perform {} .timestamp).1 = stamps.tick.1 ∧
      start.Leaves contents sent stamps.tick.2 (host.perform {} .timestamp).2 := by
  obtain ⟨⟨available, waits, timely⟩, directory, limits, hcontents, hsent, rfl⟩ := h
  exact ⟨rfl, ⟨available, waits, timely⟩, directory, limits, hcontents, hsent, rfl⟩

theorem Leaves.notify (h : start.Leaves contents sent stamps host) (notification : Notification) :
    start.Leaves contents (sent ++ [notification]) stamps
      (host.perform {} (.notify notification)).2 := by
  obtain ⟨⟨available, waits, timely⟩, directory, limits, hcontents, hsent, hstamps⟩ := h
  have hsent : host.sent ++ [notification] = start.sent ++ (sent ++ [notification]) := by
    rw [hsent, List.append_assoc]
  simp only [perform, send]
  cases host.notifier notification <;>
    exact ⟨⟨available, waits, timely⟩, directory, limits, hcontents, hsent, hstamps⟩

end Host

namespace Program

/-- On a host a program comes to an outcome, and leaves behind a host, for which a claim holds. -/
def Yields {α : Type} (p : Program α) (host : Host) (claim : Outcome α → Host → Prop) : Prop :=
  claim (p.run (Host.world {}) host).1 (p.run (Host.world {}) host).2

variable {α β : Type} {host start : Host} {contents : StoreState} {sent : List Notification}
  {stamps : StampClock} {claim : Outcome α → Host → Prop} {claim' : Outcome β → Host → Prop}

theorem yields_done {value : α} (h : claim (.ok value) host) : (done value).Yields host claim := h

theorem Yields.bind {p : Program α} {f : α → Program β}
    (h : p.Yields host fun outcome later => match outcome with
      | .ok value => (f value).Yields later claim'
      | .error stop => claim' (.error stop) later) :
    (p.bind f).Yields host claim' := by
  rw [Yields] at h ⊢
  rw [run_bind]
  generalize p.run (Host.world {}) host = result at h ⊢
  obtain ⟨outcome, later⟩ := result
  cases outcome <;> exact h

theorem yields_ofExcept {ε : Type} {describe : ε → OperationError} {result : Except ε α}
    {f : α → Program β} (failed : ∀ error, result = .error error →
      claim' (.error (.failed (describe error))) host)
    (hf : ∀ value, result = .ok value → (f value).Yields host claim') :
    ((ofExcept describe result).bind f).Yields host claim' := by
  cases result with
  | ok value => exact hf value rfl
  | error error => exact failed error rfl

theorem yields_changeOf {transition : Transition α} {f : α → Program β}
    (noOp : transition = .noOp → claim' (.error (.failed .noOp)) host)
    (hf : ∀ change, transition = .apply change → (f change).Yields host claim') :
    ((changeOf transition).bind f).Yields host claim' := by
  cases transition with
  | apply change => exact hf change rfl
  | noOp => exact noOp rfl

/-- A call gets the reply of the store. -/
theorem yields_store {request : Request} {next : Except StoreError request.Answer → Program α}
    (h : start.Leaves contents sent stamps host)
    (hnext : ∀ later, start.Leaves (contents.reply start.store.limits request).2 sent stamps later →
      (next (contents.reply start.store.limits request).1).Yields later claim) :
    (Program.perform (.store request) next).Yields host claim := by
  obtain ⟨hreply, hleaves⟩ := h.callStore request
  have hyields := hnext _ hleaves
  rw [← hreply] at hyields
  exact hyields

theorem yields_timestamp {f : Int64 → Program β} (h : start.Leaves contents sent stamps host)
    (hf : ∀ later, start.Leaves contents sent stamps.tick.2 later →
      (f stamps.tick.1).Yields later claim') :
    (timestamp.bind f).Yields host claim' := by
  obtain ⟨htime, hleaves⟩ := h.timestamp
  have hyields := hf _ hleaves
  rw [← htime] at hyields
  exact hyields

theorem yields_notify {notification : Notification} {f : Unit → Program β}
    (h : start.Leaves contents sent stamps host)
    (hf : ∀ later, start.Leaves contents (sent ++ [notification]) stamps later →
      (f ()).Yields later claim') :
    ((notify notification).bind f).Yields host claim' :=
  hf _ (h.notify notification)

theorem yields_authorize {caller : Caller} {hive : ScopeId} {f : Role → Program β}
    (h : start.Leaves contents sent stamps host)
    (hf : ((ofExcept .ofAccess (start.directory.checkMember caller hive)).bind f).Yields host
      claim') : ((authorize caller hive).bind f).Yields host claim' := by
  rw [← h.directory] at hf
  exact hf

theorem yields_authorizeAs {caller : Caller} {hive : ScopeId} {required : Role}
    {f : Role → Program β} (h : start.Leaves contents sent stamps host)
    (hf : ((ofExcept .ofAccess
      ((start.directory.checkMember caller hive).bind required.require)).bind f).Yields host
        claim') : ((authorizeAs caller hive required).bind f).Yields host claim' := by
  rw [← h.directory] at hf
  exact hf

/-- The target is the item that is stored. -/
theorem yields_loadTarget {target : Target} {f : ContentItem → Program β}
    (h : start.Leaves contents sent stamps host)
    (hf : ∀ later, start.Leaves contents sent stamps later →
      ((ofExcept id (contents.locate target)).bind f).Yields later claim') :
    ((loadTarget target).bind f).Yields host claim' := by
  refine yields_store h fun later hlater => ?_
  rw [StoreState.reply, StoreState.perform] at hlater ⊢
  rw [StoreState.locate] at hf
  cases hitem : contents.item? target.content with
  | none =>
    rw [hitem] at hlater hf
    exact hf later hlater
  | some item =>
    rw [hitem] at hlater hf
    have hyields := hf later hlater
    dsimp only at hyields
    change ((if item.hive = target.hive then .done item else .fail .notFound : Program _).bind
      f).Yields later claim'
    split
    · rename_i hhive
      rw [if_pos hhive] at hyields
      exact hyields
    · rename_i hhive
      rw [if_neg hhive] at hyields
      exact hyields

/-- The record is the one that is stored, or a neutral one. -/
theorem yields_currentRecord {caller : Caller} {target : Target}
    {f : EngagementRecord → Program β} (h : start.Leaves contents sent stamps host)
    (hf : ∀ later, start.Leaves contents sent stamps later →
      (f (contents.recordFor caller.user target)).Yields later claim') :
    ((currentRecord caller target).bind f).Yields host claim' := by
  refine yields_store h fun later hlater => ?_
  rw [StoreState.reply, StoreState.perform] at hlater ⊢
  rw [StoreState.recordFor] at hf
  cases hrecord : contents.record? ⟨caller.user, target.content.id⟩ <;>
    rw [hrecord] at hlater hf <;> exact hf later hlater

/-- An attempt that is not lost to anybody is not made again. -/
theorem yields_retryConflicts {attempt : Program (Except StoreError α)} {retries : Nat}
    (h : attempt.Yields host fun outcome later => match outcome with
      | .ok (.ok value) => claim (.ok value) later
      | .ok (.error _) => False
      | .error stop => claim (.error stop) later) :
    (retryConflicts attempt retries).Yields host claim := by
  have hrest : ∀ next : Except StoreError α → Program α,
      (∀ value, next (.ok value) = .done value) → (attempt.bind next).Yields host claim := by
    intro next hnext
    refine Yields.bind ?_
    rw [Yields] at h ⊢
    generalize attempt.run (Host.world {}) host = result at h ⊢
    obtain ⟨outcome, later⟩ := result
    cases outcome with
    | error stop => exact h
    | ok answer =>
      cases answer with
      | error error => exact h.elim
      | ok value =>
        dsimp only
        rw [hnext]
        exact h
  cases retries with
  | zero => exact hrest _ fun _ => rfl
  | succ retries => exact hrest _ fun _ => rfl

end Program

end HiveForum
