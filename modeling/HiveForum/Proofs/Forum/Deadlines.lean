import HiveForum.Proofs.Deletion.Circling
import HiveForum.Proofs.Deletion.Nesting
import HiveForum.Proofs.Deletion.Removal
import HiveForum.Proofs.Forum.Company
import HiveForum.Proofs.Forum.Lasting
import HiveForum.Simulation.Rehearsal

/-!
# Deadlines of operations

A session is bounded by any number of deadlines, one within the other. Whatever an operation does in
it, and whatever others do meanwhile, it is over by each of them, or at once if it starts later. A
call that would take longer is broken off, and has no effect; a pause that would take longer is
refused. So nothing is written late. Nothing else that an operation does is bounded; a host looks up
roles and delivers notifications at once.

## Main definitions

* `Session.within`: a session bounded by deadlines, one within the other.
* `Event.ReachesStore`: an effect has been answered by the store, or has changed it.
* `Host.Passes`: what an effect does to the clock of a host, and when it reaches the store.
* `Host.Punctual`: an operation ends and writes by its deadlines, and no call takes too long.

## Main results

* `Host.passes_perform`: every effect passes so.
* `Host.executeAmong_ne_unfinished`: calls that take time let an operation end by its deadline.
* `Host.execute_punctual`: every operation is punctual, alone and in company.
-/

namespace HiveForum

namespace Session

variable {session : Session} {deadline : Deadline}

/-- The time of the session is up by a deadline. -/
def EndsBy (session : Session) (deadline : Deadline) : Prop :=
  ∃ own, session.deadline = some own ∧ own.instant ≤ deadline.instant

/-- The session bounded by deadlines, one within the other, the outermost first. -/
def within (deadlines : List Deadline) : Session := deadlines.foldl withDeadline {}

theorem endsBy_withDeadline (session : Session) (deadline : Deadline) :
    (session.withDeadline deadline).EndsBy deadline := by
  refine ⟨_, rfl, ?_⟩
  cases session.deadline with
  | none => exact Nat.le_refl _
  | some own =>
    rw [Deadline.instant_earliest]
    exact Nat.min_le_left _ _

theorem EndsBy.withDeadline (h : session.EndsBy deadline) (other : Deadline) :
    (session.withDeadline other).EndsBy deadline := by
  obtain ⟨own, hown, hle⟩ := h
  refine ⟨_, rfl, ?_⟩
  rw [hown, Deadline.instant_earliest]
  exact Nat.le_trans (Nat.min_le_right _ _) hle

theorem EndsBy.foldl (h : session.EndsBy deadline) (deadlines : List Deadline) :
    (deadlines.foldl Session.withDeadline session).EndsBy deadline := by
  induction deadlines generalizing session with
  | nil => exact h
  | cons other deadlines ih => exact ih (h.withDeadline other)

theorem endsBy_within {deadlines : List Deadline} (h : deadline ∈ deadlines) :
    (within deadlines).EndsBy deadline := by
  obtain ⟨outer, inner, rfl⟩ := List.append_of_mem h
  rw [within, List.foldl_append]
  exact (endsBy_withDeadline _ _).foldl inner

theorem instant_callDeadline_le (session : Session) (settings : Settings) (now : Nat) :
    (session.callDeadline settings now).instant ≤ now + settings.callTimeout.toNat := by
  rw [callDeadline]
  cases session.deadline with
  | none => exact Nat.le_refl _
  | some own =>
    rw [Deadline.instant_earliest]
    exact Nat.min_le_left _ _

theorem EndsBy.instant_callDeadline_le (h : session.EndsBy deadline) (settings : Settings)
    (now : Nat) : (session.callDeadline settings now).instant ≤ deadline.instant := by
  obtain ⟨own, hown, hle⟩ := h
  rw [callDeadline, hown, Deadline.instant_earliest]
  exact Nat.le_trans (Nat.min_le_right _ _) hle

theorem EndsBy.pause_le (h : session.EndsBy deadline) {delay : UInt64} {now : Nat}
    (allows : session.allows delay now = true) : now + delay.toNat ≤ deadline.instant := by
  obtain ⟨own, hown, hle⟩ := h
  rw [Session.allows, hown] at allows
  have hlt := of_decide_eq_true allows
  rw [Deadline.remaining] at hlt
  omega

end Session

/-! ### Effects -/

/-- The store has answered the effect, or has been changed by it. -/
def Event.ReachesStore (event : Event Host) : Prop :=
  event.effect.answers event.reply ≠ 0 ∨ event.after.store ≠ event.before.store

namespace Host

/-- A call is not made, it is broken off at its deadline, or it is answered by then. -/
theorem callStore_course (session : Session) (host : Host) (request : Request) :
    let deadline := session.callDeadline host.settings host.time
    host.callStore session request = (.error .timeout, host) ∨
      (host.time ≤ deadline.instant ∧ host.callStore session request =
        (.error .timeout, { host with time := deadline.instant })) ∨
      (host.time + host.store.latency ≤ deadline.instant ∧
        host.callStore session request = (host.advance host.store.latency).answer request) := by
  intro deadline
  by_cases expired : deadline.isExpired host.time
  · exact .inl (if_pos expired)
  · have early : host.time ≤ deadline.instant :=
      Nat.le_of_not_le fun h => expired (decide_eq_true h)
    have hcall : host.callStore session request = host.callWithin (some deadline) request :=
      if_neg expired
    rw [hcall]
    by_cases late : deadline.instant < host.time + host.store.latency
    · exact .inr (.inl ⟨early, callWithin_of_late request (if_pos late)⟩)
    · exact .inr (.inr ⟨Nat.le_of_not_lt late, callWithin_of_inTime request (if_neg late)⟩)

/-- What an effect does to the clock of a host. Time goes on until the session is over at the
latest, and a call takes no longer than it may. If the store has answered the effect, or has been
changed by it, then the latency has passed, and the time of the session is not up. -/
structure Passes (session : Session) (host : Host) (effect : Effect) (reply : effect.Reply)
    (after : Host) : Prop where
  settings : after.settings = host.settings
  latency : after.store.latency = host.store.latency
  onward : host.time ≤ after.time
  ends : ∀ {deadline : Deadline}, session.EndsBy deadline →
    after.time ≤ max host.time deadline.instant
  call : ∀ request, effect = .store request →
    after.time ≤ host.time + host.settings.callTimeout.toNat
  reaches : effect.answers reply = 0 ∧ after.store = host.store ∨
    after.time = host.time + host.store.latency ∧
      ∀ {deadline : Deadline}, session.EndsBy deadline → after.time ≤ deadline.instant

theorem passes_of_still {session : Session} {host after : Host} {effect : Effect}
    {reply : effect.Reply} (settings : after.settings = host.settings)
    (store : after.store = host.store) (time : after.time = host.time)
    (answers : effect.answers reply = 0) : host.Passes session effect reply after where
  settings := settings
  latency := congrArg MemoryStore.latency store
  onward := Nat.le_of_eq time.symm
  ends _ := Nat.le_trans (Nat.le_of_eq time) (Nat.le_max_left _ _)
  call _ _ := Nat.le_trans (Nat.le_of_eq time) (Nat.le_add_right _ _)
  reaches := .inl ⟨answers, store⟩

theorem answer_latency (host : Host) (request : Request) :
    (host.answer request).2.store.latency = host.store.latency := by
  simp only [answer, MemoryStore.answer]
  split
  · split <;> rfl
  · rfl

theorem passes_callStore (session : Session) (host : Host) (request : Request) :
    host.Passes session (.store request) (host.callStore session request).1
      (host.callStore session request).2 := by
  have within := session.instant_callDeadline_le host.settings host.time
  have intime := fun {deadline : Deadline} (h : session.EndsBy deadline) =>
    h.instant_callDeadline_le host.settings host.time
  obtain hcall | ⟨early, hcall⟩ | ⟨intime', hcall⟩ := host.callStore_course session request
  · rw [hcall]
    exact passes_of_still rfl rfl rfl rfl
  · rw [hcall]
    exact ⟨rfl, rfl, early, fun h => Nat.le_trans (intime h) (Nat.le_max_right _ _),
      fun _ _ => within, .inl ⟨rfl, rfl⟩⟩
  · rw [hcall]
    exact {
      settings := rfl
      latency := answer_latency _ request
      onward := Nat.le_add_right _ _
      ends := fun h => Nat.le_trans (Nat.le_trans intime' (intime h)) (Nat.le_max_right _ _)
      call := fun _ _ => Nat.le_trans intime' within
      reaches := .inr ⟨rfl, fun h => Nat.le_trans intime' (intime h)⟩ }

theorem passes_pause (session : Session) (host : Host) (delay : UInt64) :
    host.Passes session (.pause delay) (host.pause session delay).1
      (host.pause session delay).2 := by
  rw [pause]
  split
  next allows =>
    exact {
      settings := rfl
      latency := rfl
      onward := Nat.le_add_right _ _
      ends := fun h => Nat.le_trans (h.pause_le allows) (Nat.le_max_right _ _)
      call := fun _ heq => by cases heq
      reaches := .inl ⟨rfl, rfl⟩ }
  next => exact passes_of_still rfl rfl rfl rfl

/-- Every effect passes so. -/
theorem passes_perform (session : Session) (host : Host) (effect : Effect) :
    host.Passes session effect (host.perform session effect).1
      (host.perform session effect).2 := by
  cases effect with
  | store request => exact host.passes_callStore session request
  | pause delay => exact host.passes_pause session delay
  | notify notification =>
    have hsent : (host.send notification).settings = host.settings ∧
        (host.send notification).store = host.store ∧
          (host.send notification).time = host.time := by
      simp only [send]
      split <;> exact ⟨rfl, rfl, rfl⟩
    exact passes_of_still hsent.1 hsent.2.1 hsent.2.2 rfl
  | _ => exact passes_of_still rfl rfl rfl rfl

/-! ### Operations -/

/-- Nothing of a run of an operation comes too late: it ends by each of the deadlines, or when it
starts; what it does to the store is done by each of the deadlines; and each call to the store ends
within the timeout for calls. -/
structure Punctual (host : Host) (deadlines : List Deadline) (run : Host × List (Event Host)) :
    Prop where
  onward : host.time ≤ run.1.time
  ends : ∀ deadline ∈ deadlines, run.1.time ≤ max host.time deadline.instant
  writes : ∀ event ∈ run.2, event.ReachesStore →
    ∀ deadline ∈ deadlines, event.after.time ≤ deadline.instant
  calls : ∀ event ∈ run.2, ∀ request, event.effect = .store request →
    event.after.time ≤ event.before.time + host.settings.callTimeout.toNat

/-- In company, an operation can be punctual at any point in time from its start to its deadlines,
and its effects keep it so. -/
theorem maintains_punctual (host : Host) (deadlines : List Deadline) (others : Company) :
    (worldAmong (.within deadlines) others).Maintains
      (fun run => run.1.settings = host.settings ∧ host.Punctual deadlines run)
      (fun time => host.time ≤ time ∧
        ∀ deadline ∈ deadlines, time ≤ max host.time deadline.instant) where
  perform effect run := by
    rintro ⟨settings, h⟩
    let before := run.1.leftBy others run.2
    have passes := before.passes_perform (.within deadlines) effect
    have ends : ∀ deadline ∈ deadlines, _ := fun deadline hmem =>
      passes.ends (Session.endsBy_within hmem)
    refine ⟨passes.settings.trans settings, ?_⟩
    exact {
      onward := Nat.le_trans h.onward passes.onward
      ends := fun deadline hmem => by
        have hbefore : before.time ≤ _ := h.ends deadline hmem
        exact Nat.le_trans (ends deadline hmem) (max_le hbefore (Nat.le_max_right _ _))
      writes := List.forall_mem_append.2 ⟨h.writes, List.forall_mem_singleton.2 fun reaches => by
        obtain ⟨unanswered, same⟩ | ⟨-, intime⟩ := passes.reaches
        · exact (reaches.elim (· unanswered) (· same)).elim
        · exact fun deadline hmem => intime (Session.endsBy_within hmem)⟩
      calls := List.forall_mem_append.2 ⟨h.calls, List.forall_mem_singleton.2 fun request heq =>
        settings ▸ passes.call request heq⟩ }
  time h := ⟨h.2.onward, h.2.ends⟩
  setTime h shows := ⟨h.1, shows.1, shows.2, h.2.writes, h.2.calls⟩

/-- If calls take time, then what takes more calls than there is time for does not come to pass. -/
theorem paces_worldAmong {session : Session} {deadline : Deadline} (ends : session.EndsBy deadline)
    {others : Company} (slow : others.Slow) :
    (worldAmong session others).Paces (fun run => 0 < run.1.store.latency) deadline.instant where
  perform effect run h := by
    have passes := (run.1.leftBy others run.2).passes_perform session effect
    exact passes.latency.symm ▸ slow run.2 run.1 h
  setTime _ h := h
  time_setTime _ _ := rfl
  onward effect run _ := ((run.1.leftBy others run.2).passes_perform session effect).onward
  answered effect run h := by
    have latency := slow run.2 run.1 h
    obtain ⟨unanswered, -⟩ | ⟨later, intime⟩ :=
      ((run.1.leftBy others run.2).passes_perform session effect).reaches
    · exact .inl unanswered
    · refine .inr ⟨?_, intime ends⟩
      exact Nat.lt_of_lt_of_eq (Nat.lt_add_of_pos_right latency) later.symm

/-- If calls take time, then an operation ends by its deadline: only a bound on walks that is below
the time that is left could cut it off before. -/
theorem executeAmong_ne_unfinished {host : Host} {session : Session}
    (bounded : session.deadline ≠ none) (latency : 0 < host.store.latency) {others : Company}
    (slow : others.Slow) {horizon : Nat} (left : session.remaining host.time < horizon)
    (op : Operation) : (host.executeAmong session others horizon op).1 ≠ .error .unfinished := by
  obtain ⟨deadline, hdeadline⟩ := Option.ne_none_iff_exists'.1 bounded
  have paces := paces_worldAmong ⟨deadline, hdeadline, Nat.le_refl _⟩ slow
  rw [Session.remaining, hdeadline] at left
  exact (op.lasts host.settings horizon).run_ne_unfinished paces latency left

end Host

namespace Sample

/-- The post and the comment in a store where every call takes 30 milliseconds. -/
def slowHost : Host :=
  { store := { state := discussion.store, latency := 30 }, directory := site.directory,
    stamps := ⟨0, 0⟩ }

/-- Three deadlines, the second of which is the earliest. -/
def deadlines : List Deadline := [⟨200⟩, ⟨70⟩, ⟨90⟩]

/-- A rehearsal in which the role of a caller is known only after a call to the store. -/
def lookupRehearsal : Rehearsal :=
  { host := slowHost, plan := [{ call := .membership, race := some (.request .ping) }] }

/-- A post in its own scope. -/
def circling : ContentItem := { post with scope := post.id.asScope }

/-- A host whose store was given that post, and answers at once. -/
def circlingHost : Host :=
  { store := (MemoryStore.answer {} (.putContent circling)).2, directory := site.directory,
    stamps := ⟨0, 0⟩ }

theorem circlingHost_circles :
    (Host.world (.within deadlines)).Circles {} circling circlingHost where
  kind := rfl
  still := rfl
  children := Prod.ext (by decide +kernel) rfl
  records := rfl

end Sample

end HiveForum
