import HiveForum.Program.Interleaving
import HiveForum.Simulation.Host

/-!
# The surroundings of a forum

The operations of a forum run side by side against one store and one directory. What an effect may
do to the store, and what its reply may be, depends on the conditions: a call may be refused, its
reply may be lost, a batch may be left half done, the time for an operation may be up.

The items that were ever stored are kept on record, each as it was stored first. The record is no
part of the store; it says which identifiers have been given out.

## Main definitions

* `Forum`: a store, with the items ever stored in it.
* `Site`: the bounds of the store, and the directory.
* `Conditions`: what may go wrong; nothing under `Conditions.calm`, everything under
  `Conditions.wild`.
* `Site.responses`: the replies that an effect may get, and what it leaves behind.
* `Invocation`: an operation that is run, with its settings and its bound.
* `Forum.Reachable`: the forum is the result of operations run side by side.

## Main results

* `Site.exists_answer`: every effect gets some reply.
* `Site.Answer.getContent`, `Site.Answer.getEngagement`, `Site.Answer.queryContent`,
  `Site.Answer.queryEngagement`: what is read is what is stored.
* `Site.Answer.wild`: what may happen may happen where anything may go wrong.
* `Host.perform_answers`: what a host does is among the responses.
-/

namespace HiveForum

/-- A store, with the items that were ever stored in it. -/
structure Forum where
  store : StoreState
  /-- The items ever stored, each as it was stored first, the latest last. -/
  created : List ContentItem

/-- What a forum has around it. -/
structure Site where
  limits : QueryLimits
  directory : Directory

/-- What may go wrong when an effect is carried out. -/
structure Conditions where
  /-- The errors with which a call to the store may be refused, without effect. -/
  refuses : StoreError → Prop
  /-- Whether a call may take effect and be answered with an error. -/
  loses : Prop
  /-- Whether a batch may leave any of its keys undone. -/
  skips : Prop
  /-- Whether the time for the operation may be up in a pause. -/
  expires : Prop
  /-- Whether a caller may be given another role than the directory gives them now. -/
  reassigns : Prop

namespace Conditions

/-- Nothing goes wrong. -/
def calm : Conditions := ⟨fun _ => False, False, False, False, False⟩

/-- Anything may go wrong. -/
def wild : Conditions := ⟨fun _ => True, True, True, True, True⟩

/-- The store may be out of reach for the moment, and the time for the operation may be up. -/
def unsteady : Conditions := ⟨fun error => error.isTransient = true, False, False, True, False⟩

end Conditions

namespace Forum

/-- The forum in which nothing has been stored. -/
def blank : Forum := ⟨.empty, []⟩

/-- The forum with the store after a request that was carried out. -/
def after (forum : Forum) (store : StoreState) : Request → Forum
  | .putContent item => ⟨store, forum.created ++ [item]⟩
  | _ => ⟨store, forum.created⟩

@[simp]
theorem after_store (forum : Forum) (store : StoreState) (request : Request) :
    (forum.after store request).store = store := by
  cases request <;> rfl

/-- No two items were given one identifier, and none was given that of a hive. -/
structure DistinctIds (site : Site) (forum : Forum) : Prop where
  nodup : (forum.created.map (·.id)).Nodup
  notHive : ∀ item ∈ forum.created, site.directory.hives.get? item.id.asScope = none

end Forum

namespace Site

/-- How an effect may be answered, and what it leaves behind. -/
inductive Answer (site : Site) (conditions : Conditions) :
    (effect : Effect) → Forum → effect.Reply → Forum → Prop where
  | carriedOut {request : Request} {forum : Forum} {answer : request.Answer} {store : StoreState}
      (h : forum.store.perform site.limits request = .ok (answer, store)) :
      Answer site conditions (.store request) forum (.ok answer) (forum.after store request)
  | failed {request : Request} {forum : Forum} {error : StoreError}
      (h : forum.store.perform site.limits request = .error error) :
      Answer site conditions (.store request) forum (.error error) forum
  | refused {request : Request} {forum : Forum} {error : StoreError}
      (h : conditions.refuses error) :
      Answer site conditions (.store request) forum (.error error) forum
  /-- The call is carried out, but the reply is lost. -/
  | lost {request : Request} {forum : Forum} {answer : request.Answer} {store : StoreState}
      (loses : conditions.loses) (error : StoreError)
      (h : forum.store.perform site.limits request = .ok (answer, store)) :
      Answer site conditions (.store request) forum (.error error) (forum.after store request)
  /-- A batch is left half done. -/
  | skipped {keys done left : List EngagementKey} {forum : Forum} (skips : conditions.skips)
      (h : checkBatch keys = .ok ()) (split : keys.Perm (done ++ left)) :
      Answer site conditions (.store (.deleteEngagements keys)) forum (.ok left)
        ⟨forum.store.removeRecords done, forum.created⟩
  | role (caller : Caller) (hive : ScopeId) (forum : Forum) :
      Answer site conditions (.membership caller hive) forum
        (site.directory.checkMember caller hive) forum
  | reassigned {caller : Caller} {hive : ScopeId} {forum : Forum}
      {reply : Except AccessError Role} (reassigns : conditions.reassigns)
      (known : ∀ role, reply = .ok role → (site.directory.hives.get? hive).isSome) :
      Answer site conditions (.membership caller hive) forum reply forum
  | stamp (forum : Forum) (time : Int64) : Answer site conditions .timestamp forum time forum
  | draw (forum : Forum) (id : ContentId) : Answer site conditions .newContentId forum id forum
  | word (forum : Forum) (word : UInt32) : Answer site conditions .randomWord forum word forum
  | passed (delay : UInt64) (forum : Forum) :
      Answer site conditions (.pause delay) forum (.ok ()) forum
  | expired (expires : conditions.expires) (delay : UInt64) (forum : Forum) :
      Answer site conditions (.pause delay) forum (.error .deadline) forum
  | notified (notification : Notification) (forum : Forum) :
      Answer site conditions (.notify notification) forum () forum

/-- The replies that an effect may get, and what it leaves behind. -/
def responses (site : Site) (conditions : Conditions) : Responses Forum where
  Answers := site.Answer conditions

/-- Every effect gets some reply. -/
theorem exists_answer (site : Site) (conditions : Conditions) (effect : Effect) (forum : Forum) :
    ∃ reply after, (site.responses conditions).Answers effect forum reply after := by
  cases effect with
  | store request =>
    cases h : forum.store.perform site.limits request with
    | ok result => exact ⟨_, _, .carriedOut h⟩
    | error error => exact ⟨_, _, .failed h⟩
  | membership caller hive => exact ⟨_, _, .role caller hive forum⟩
  | timestamp => exact ⟨_, _, .stamp forum 0⟩
  | newContentId => exact ⟨_, _, .draw forum default⟩
  | randomWord => exact ⟨_, _, .word forum 0⟩
  | pause delay => exact ⟨_, _, .passed delay forum⟩
  | notify notification => exact ⟨_, _, .notified notification forum⟩

namespace Answer

variable {site : Site} {conditions : Conditions} {forum after : Forum}

/-- Whatever goes wrong may go wrong where anything may. -/
theorem wild {effect : Effect} {reply : effect.Reply}
    (h : site.Answer conditions effect forum reply after) :
    site.Answer .wild effect forum reply after := by
  cases h with
  | carriedOut h => exact .carriedOut h
  | failed h => exact .failed h
  | refused => exact .refused trivial
  | lost _ error h => exact .lost trivial error h
  | skipped _ h split => exact .skipped trivial h split
  | role => exact .role _ _ _
  | reassigned _ known => exact .reassigned trivial known
  | stamp => exact .stamp _ _
  | draw => exact .draw _ _
  | word => exact .word _ _
  | passed => exact .passed _ _
  | expired => exact .expired trivial _ _
  | notified => exact .notified _ _

theorem hive_of_role {caller : Caller} {hive : ScopeId} {role : Role}
    (h : site.Answer conditions (.membership caller hive) forum (.ok role) after) :
    (site.directory.hives.get? hive).isSome := by
  generalize hreply : (Except.ok role : Except AccessError Role) = reply at h
  cases h with
  | reassigned _ known => exact known role hreply.symm
  | role =>
    rw [Directory.checkMember] at hreply
    split at hreply
    · cases hreply
    · rename_i hmembers
      simp [hmembers]

/-- An item that is read is the stored one. -/
theorem getContent {key : ContentKey} {item : ContentItem}
    (h : site.Answer conditions (.store (.getContent key)) forum (.ok item) after) :
    forum.store.item? key = some item ∧ after = forum := by
  cases h with
  | carriedOut h =>
    simp only [StoreState.perform] at h
    split at h
    · cases h
    · rename_i hitem
      cases h
      exact ⟨hitem, rfl⟩

/-- A record that is read is the stored one. -/
theorem getEngagement {user : UserId} {content : ContentId} {record : EngagementRecord}
    (h : site.Answer conditions (.store (.getEngagement user content)) forum (.ok record) after) :
    forum.store.record? ⟨user, content⟩ = some record ∧ after = forum := by
  cases h with
  | carriedOut h =>
    simp only [StoreState.perform] at h
    split at h
    · cases h
    · rename_i hrecord
      cases h
      exact ⟨hrecord, rfl⟩

/-- A page of items that is read is one of the store. -/
theorem queryContent {query : ContentQuery} {page : ContentPage}
    (h : site.Answer conditions (.store (.queryContent query)) forum (.ok page) after) :
    forum.store.queryContent site.limits query = .ok page ∧ after = forum := by
  cases h with
  | carriedOut h =>
    simp only [StoreState.perform] at h
    cases hpage : forum.store.queryContent site.limits query with
    | error error => rw [hpage] at h; cases h
    | ok page' => rw [hpage] at h; cases h; exact ⟨rfl, rfl⟩

/-- A page of records that is read is one of the store. -/
theorem queryEngagement {query : EngagementQuery} {page : EngagementPage}
    (h : site.Answer conditions (.store (.queryEngagement query)) forum (.ok page) after) :
    forum.store.queryEngagement site.limits query = .ok page ∧ after = forum := by
  cases h with
  | carriedOut h =>
    simp only [StoreState.perform] at h
    cases hpage : forum.store.queryEngagement site.limits query with
    | error error => rw [hpage] at h; cases h
    | ok page' => rw [hpage] at h; cases h; exact ⟨rfl, rfl⟩

end Answer

end Site

/-- An operation that is run, with its settings and the bound of its walks. -/
structure Invocation where
  settings : Settings
  horizon : Nat
  operation : Operation

namespace Invocation

/-- The operation as a thread that has not begun. -/
def thread (invocation : Invocation) : (α : Type) × Thread α :=
  ⟨invocation.operation.Result,
    .running (invocation.operation.program invocation.settings invocation.horizon)⟩

/-- Several operations that have not begun, side by side. -/
def pool (invocations : List Invocation) : Thread.Pool := invocations.map thread

end Invocation

/-- The forum is the result of operations that have been run side by side, whatever went wrong. -/
inductive Forum.Reachable (site : Site) : Forum → Prop where
  | run {invocations : List Invocation} {pool : Thread.Pool} {forum : Forum}
      (h : Thread.Pool.Steps ((site.responses .wild).within (Forum.DistinctIds site))
        (Invocation.pool invocations) .blank pool forum) :
      Reachable site forum

namespace Host

/-- What a host answers to a call is what its store answers, or the call is refused for the
moment. -/
theorem callStore_answers {site : Site} {session : Session} {host host' : Host}
    {request : Request} {reply : Except StoreError request.Answer} (created : List ContentItem)
    (hlimits : site.limits = host.store.limits)
    (h : host.callStore session request = (reply, host')) :
    ∃ created', site.Answer .unsteady (.store request) ⟨host.store.state, created⟩ reply
      ⟨host'.store.state, created'⟩ := by
  have refused : ∀ error : StoreError, error.isTransient = true → reply = .error error →
      host'.store.state = host.store.state →
      ∃ created', site.Answer .unsteady (.store request) ⟨host.store.state, created⟩ reply
        ⟨host'.store.state, created'⟩ := by
    rintro error htransient rfl hstate
    rw [hstate]
    exact ⟨created, .refused htransient⟩
  unfold callStore callWithin await at h
  dsimp only at h
  split at h
  · obtain ⟨rfl, rfl⟩ := Prod.mk.inj h
    exact refused .timeout rfl rfl rfl
  · split at h
    · rename_i heq
      split at heq
      · obtain ⟨-, rfl⟩ := Prod.mk.inj heq
        obtain ⟨rfl, rfl⟩ := Prod.mk.inj h
        exact refused .timeout rfl rfl rfl
      · cases heq
    · rename_i waited heq
      have hstore : waited.store = host.store := by
        split at heq <;> · obtain ⟨-, rfl⟩ := Prod.mk.inj heq; rfl
      rw [answer, MemoryStore.answer] at h
      rw [hstore] at h
      split at h
      · rename_i heq
        split at heq
        · cases hperform : host.store.state.perform host.store.limits request with
          | error error =>
            rw [hperform] at heq
            obtain ⟨rfl, rfl⟩ := Prod.mk.inj heq
            obtain ⟨rfl, rfl⟩ := Prod.mk.inj h
            exact ⟨created, .failed (by rw [hlimits]; exact hperform)⟩
          | ok result =>
            rw [hperform] at heq
            obtain ⟨rfl, rfl⟩ := Prod.mk.inj heq
            obtain ⟨rfl, rfl⟩ := Prod.mk.inj h
            refine ⟨((⟨host.store.state, created⟩ : Forum).after result.2 request).created, ?_⟩
            have hafter : (⟨result.2, ((⟨host.store.state, created⟩ : Forum).after result.2
                request).created⟩ : Forum) =
                (⟨host.store.state, created⟩ : Forum).after result.2 request := by
              cases request <;> rfl
            rw [hafter]
            exact .carriedOut (by rw [hlimits]; exact hperform)
        · obtain ⟨rfl, rfl⟩ := Prod.mk.inj heq
          obtain ⟨rfl, rfl⟩ := Prod.mk.inj h
          exact refused .unavailable rfl rfl rfl

/-- What a host does is among the responses of its site, when the store may be out of reach and the
time may be up. -/
theorem perform_answers {site : Site} {session : Session} {effect : Effect} {host host' : Host}
    {reply : effect.Reply} (created : List ContentItem)
    (hlimits : site.limits = host.store.limits) (hdirectory : site.directory = host.directory)
    (h : host.perform session effect = (reply, host')) :
    ∃ created', (site.responses .unsteady).Answers effect ⟨host.store.state, created⟩ reply
      ⟨host'.store.state, created'⟩ := by
  cases effect with
  | store request => exact callStore_answers created hlimits h
  | membership caller hive =>
    obtain ⟨rfl, rfl⟩ := Prod.mk.inj h
    rw [← hdirectory]
    exact ⟨created, .role caller hive _⟩
  | timestamp =>
    obtain ⟨rfl, rfl⟩ := Prod.mk.inj h
    exact ⟨created, .stamp _ _⟩
  | newContentId =>
    obtain ⟨rfl, rfl⟩ := Prod.mk.inj h
    exact ⟨created, .draw _ _⟩
  | randomWord =>
    obtain ⟨rfl, rfl⟩ := Prod.mk.inj h
    exact ⟨created, .word _ _⟩
  | pause delay =>
    simp only [perform, pause] at h
    split at h
    · obtain ⟨rfl, rfl⟩ := Prod.mk.inj h
      exact ⟨created, .passed delay _⟩
    · obtain ⟨rfl, rfl⟩ := Prod.mk.inj h
      exact ⟨created, .expired trivial delay _⟩
  | notify notification =>
    obtain ⟨rfl, rfl⟩ := Prod.mk.inj h
    refine ⟨created, ?_⟩
    have hstore : (host.send notification).store = host.store := by
      rw [send]
      dsimp only
      split <;> rfl
    rw [hstore]
    exact .notified notification _

end Host

end HiveForum
