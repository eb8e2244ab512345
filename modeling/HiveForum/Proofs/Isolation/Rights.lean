import HiveForum.Proofs.Deletion.Clearing
import HiveForum.Proofs.Forum.Lineage
import HiveForum.Proofs.Isolation.Operations
import HiveForum.Simulation.Host

/-!
# Who may change what

Every operation that is addressed to a hive asks for the role of its caller before anything else.
Whoever has none is turned away, and the store is not called. Whoever has one changes no more than
it allows: members write their own records, moderators review and pin, and an item goes when its
author, the author of the post above it or a moderator deletes. What an item is stays as it was
written.

## Main definitions

* `Operation.caller?`, `Operation.target?`: who asks for an operation, and the item it is about.
* `Directory.Excludes`, `Directory.Moderates`: the standing of a caller in a hive.
* `Program.Guards`: a program turns away whoever has no role.
* `Operation.Respects`: what may differ after an operation.

## Main results

* `Operation.guards`: every operation that is addressed to a hive turns away whoever has no role.
* `Operation.Amends.upholds`: a change that an operation makes respects the rights of others.
* `Turn.respects_rights`: who may change what.
-/

namespace HiveForum

open Program Relation

/-- Who asks for an operation; nobody is named who asks for the store only. -/
def Operation.caller? : Operation → Option Caller
  | .createPost caller _ _ _ => some caller
  | .createComment caller _ _ _ => some caller
  | .getContent caller _ => some caller
  | .markReviewed caller _ => some caller
  | .setPinned caller _ _ => some caller
  | .deleteContent caller _ => some caller
  | .vote caller _ _ => some caller
  | .setSaved caller _ _ => some caller
  | .report caller _ _ => some caller
  | .withdrawReport caller _ => some caller
  | .getEngagement caller _ => some caller
  | .lookupEngagement caller _ _ => some caller
  | .listContent caller _ _ => some caller
  | .ping => none

/-- The item that an operation is about, if it is about a single one that is stored. -/
def Operation.target? : Operation → Option Target
  | .getContent _ target => some target
  | .markReviewed _ target => some target
  | .setPinned _ target _ => some target
  | .deleteContent _ target => some target
  | .vote _ target _ => some target
  | .setSaved _ target _ => some target
  | .report _ target _ => some target
  | .withdrawReport _ target => some target
  | .getEngagement _ target => some target
  | _ => none

namespace Directory

/-- There is no such hive, or the caller neither administers the site nor is a member. -/
def Excludes (directory : Directory) (caller : Caller) (hive : ScopeId) : Prop :=
  ∀ members, directory.hives.get? hive = some members →
    caller.isAdmin = false ∧ members.get? caller.user = none

/-- The caller administers the site, or is a moderator or an owner of the hive. -/
def Moderates (directory : Directory) (caller : Caller) (hive : ScopeId) : Prop :=
  ∃ members, directory.hives.get? hive = some members ∧
    (caller.isAdmin = true ∨ members.get? caller.user = some .moderator ∨
      members.get? caller.user = some .owner)

variable {directory : Directory} {caller : Caller} {hive : ScopeId}

theorem Excludes.checkMember (h : directory.Excludes caller hive) :
    ∃ error, directory.checkMember caller hive = .error error := by
  rw [Directory.checkMember]
  cases hhive : directory.hives.get? hive with
  | none => exact ⟨_, rfl⟩
  | some members =>
    obtain ⟨hadmin, hnone⟩ := h members hhive
    simp [hadmin, hnone]

theorem moderates_of_checkMember {role : Role}
    (member : directory.checkMember caller hive = .ok role)
    (permits : role.permits .moderator = true) : directory.Moderates caller hive := by
  rw [checkMember] at member
  cases hhive : directory.hives.get? hive with
  | none =>
    rw [hhive] at member
    cases member
  | some members =>
    refine ⟨members, hhive, ?_⟩
    rw [hhive] at member
    cases hadmin : caller.isAdmin with
    | true => exact .inl rfl
    | false =>
      simp only [hadmin, Bool.false_eq_true, ↓reduceIte] at member
      cases hrole : members.get? caller.user with
      | none =>
        rw [hrole] at member
        cases member
      | some given =>
        rw [hrole] at member
        cases member
        cases role with
        | member => cases permits
        | moderator => exact .inr (.inl rfl)
        | owner => exact .inr (.inr rfl)

end Directory

/-! ### Turning away -/

namespace Program

/-- A program asks for the role of a caller in a hive first, and fails if there is none; or it has
failed before. -/
inductive Guards (caller : Caller) (hive : ScopeId) {α : Type} : Program α → Prop where
  | fails (error : OperationError) : Guards caller hive (.fail error)
  | asks {next : Except AccessError Role → Program α}
      (turned : ∀ error, next (.error error) = .fail (.ofAccess error)) :
      Guards caller hive (.perform (.membership caller hive) next)

variable {caller : Caller} {hive : ScopeId} {α : Type} {p : Program α}

theorem guards_authorize (f : Role → Program α) :
    Guards caller hive ((authorize caller hive).bind f) :=
  .asks fun _ => rfl

/-- A program that turns a caller away calls no store, and gives no value. -/
theorem Guards.steps (guards : p.Guards caller hive) {site : Site} {conditions : Conditions}
    (honest : conditions.Honest) {error : AccessError}
    (turned : site.directory.checkMember caller hive = .error error)
    {Holds : Forum → Prop} {state after : Forum × Journal} {thread : Thread α}
    (steps : Thread.Steps ((site.responses conditions).within Holds).journaled (.running p) state
      thread after) (blank : state.2 = []) :
    (∀ event ∈ after.2, event.effect = .membership caller hive) ∧
      ∀ result, thread.result? = some result → ∃ error, result = .error error := by
  have inversion : (thread = .running p ∧ after.2 = []) ∨
      ((∃ error, thread = .running (.fail error)) ∧
        ∀ event ∈ after.2, event.effect = .membership caller hive) := by
    induction steps with
    | none => exact .inl ⟨rfl, blank⟩
    | more _ step ih =>
      obtain ⟨rfl, hempty⟩ | ⟨⟨_, rfl⟩, -⟩ := ih blank
      · cases guards with
        | fails => cases step
        | asks hnext =>
          cases step with
          | @perform _ _ _ _ state' reply answer =>
            obtain ⟨⟨answer, -⟩, hjournal⟩ := answer
            obtain ⟨rfl, -⟩ := Site.Answer.of_membership honest answer
            refine .inr ⟨⟨.ofAccess error, congrArg Thread.running ?_⟩, fun event hevent => ?_⟩
            · rw [turned, hnext]
            · rw [hjournal, hempty, List.nil_append, List.mem_singleton] at hevent
              rw [hevent]
      · cases step
  obtain ⟨rfl, hempty⟩ | ⟨⟨_, rfl⟩, hall⟩ := inversion
  · refine ⟨fun event hevent => ?_, fun result hresult => ?_⟩
    · rw [hempty] at hevent
      cases hevent
    · cases guards with
      | fails => exact ⟨_, (Option.some.inj hresult).symm⟩
      | asks => cases hresult
  · exact ⟨hall, fun result hresult => ⟨_, (Option.some.inj hresult).symm⟩⟩

theorem Guards.run (guards : p.Guards caller hive) {host : Host} {session : Session}
    {error : AccessError} (turned : host.directory.checkMember caller hive = .error error) :
    ∃ failure, p.run (Host.world session) host = (.error (.failed failure), host) := by
  cases guards with
  | fails failure => exact ⟨failure, rfl⟩
  | @asks next hnext =>
    refine ⟨.ofAccess error, ?_⟩
    have hperform : (Host.world session).perform (.membership caller hive) host =
        (.error error, host) := congrArg (·, host) turned
    simp only [Program.run, runWith, hperform, hnext]

end Program

/-- An operation that is addressed to a hive turns away whoever has no role in it. -/
theorem Operation.guards {op : Operation} {caller : Caller} {hive : ScopeId}
    (asked : op.caller? = some caller) (addressed : op.hive? = some hive) (settings : Settings)
    (horizon : Nat) : (op.program settings horizon).Guards caller hive := by
  cases op with
  | report caller target reason =>
    obtain rfl := Option.some.inj asked
    obtain rfl := Option.some.inj addressed
    change ((ofExcept .ofLimit (checkReason reason)).bind fun _ => _).Guards _ _
    cases checkReason reason with
    | error error => exact .fails _
    | ok => exact guards_authorize _
  | ping => cases asked
  | markReviewed | setPinned =>
    obtain rfl := Option.some.inj asked
    obtain rfl := Option.some.inj addressed
    exact .asks fun _ => rfl
  | _ =>
    obtain rfl := Option.some.inj asked
    obtain rfl := Option.some.inj addressed
    exact guards_authorize _

/-! ### What may differ -/

/-- What may differ after an operation of a caller that is addressed to a hive. -/
structure Operation.Respects (op : Operation) (directory : Directory) (caller : Caller)
    (hive : ScopeId) (before after : StoreState) : Prop where
  /-- Only moderators review and pin. -/
  flags : ∀ key item now, before.item? key = some item → after.item? key = some now →
    now.reviewed ≠ item.reviewed ∨ now.pinned ≠ item.pinned → directory.Moderates caller hive
  /-- An item goes when its author, the author of the post above it or a moderator deletes. -/
  removed : ∀ key item, before.item? key = some item → after.item? key = none →
    ∃ target, op = .deleteContent caller target ∧
      (item.author = caller.user ∨
        (∃ post, before.item? target.content = some post ∧ post.kind = .post ∧
          post.id.asScope = item.scope ∧ post.author = caller.user) ∨
        directory.Moderates caller hive)
  /-- Only the record of the caller on the item is written. -/
  records : ∀ key record, after.record? key = some record → before.record? key ≠ some record →
    key.user = caller.user ∧ ∃ target, op.target? = some target ∧ key.content = target.content.id
  /-- What an item is remains the same. -/
  fixed : ∀ key item now, before.item? key = some item → after.item? key = some now →
    now.scope = item.scope ∧ now.id = item.id ∧ now.hive = item.hive ∧ now.kind = item.kind ∧
      now.author = item.author ∧ now.body = item.body ∧ now.createdAt = item.createdAt ∧
        now.tags = item.tags

/-- What holds all along an operation of a caller: the rights of others are respected, and records
stand under their own keys. -/
structure Operation.Upholds (op : Operation) (directory : Directory) (caller : Caller)
    (hive : ScopeId) (start now : StoreState) : Prop extends
    op.Respects directory caller hive start now where
  keyed : ∀ key record, now.record? key = some record → record.key = key

namespace Operation.Upholds

variable {op : Operation} {directory : Directory} {caller : Caller} {hive : ScopeId}
  {start now : StoreState}

theorem refl (keyed : ∀ key record, start.record? key = some record → record.key = key) :
    op.Upholds directory caller hive start start where
  flags := fun _ _ _ hitem hnow hne => by
    obtain rfl := Option.some.inj (hitem.symm.trans hnow)
    exact (hne.elim (· rfl) (· rfl)).elim
  removed := fun _ _ hitem hnone => by
    rw [hitem] at hnone
    cases hnone
  records := fun _ _ hrecord hne => absurd hrecord hne
  fixed := fun _ _ _ hitem hnow => by
    obtain rfl := Option.some.inj (hitem.symm.trans hnow)
    exact ⟨rfl, rfl, rfl, rfl, rfl, rfl, rfl, rfl⟩
  keyed := keyed

variable (h : op.Upholds directory caller hive start now)

include h

/-- An item is edited, in its flags by a moderator only. -/
theorem editItem {key : ContentKey} {item item' : ContentItem} (found : now.item? key = some item)
    (same : item'.asCreated = item.asCreated)
    (flags : item'.reviewed ≠ item.reviewed ∨ item'.pinned ≠ item.pinned →
      directory.Moderates caller hive) :
    op.Upholds directory caller hive start (now.putItem key item') where
  flags := fun other before after hbefore hafter hne => by
    rw [StoreState.item?_putItem] at hafter
    split at hafter
    · rename_i hkey
      subst hkey
      obtain rfl := Option.some.inj hafter
      by_cases hflags : item'.reviewed ≠ item.reviewed ∨ item'.pinned ≠ item.pinned
      · exact flags hflags
      · simp only [not_or, ne_eq, not_not] at hflags
        rw [hflags.1, hflags.2] at hne
        exact h.flags _ before item hbefore found hne
    · exact h.flags other before after hbefore hafter hne
  removed := fun other before hbefore hnone => by
    rw [StoreState.item?_putItem] at hnone
    split at hnone
    · cases hnone
    · exact h.removed other before hbefore hnone
  records := h.records
  fixed := fun other before after hbefore hafter => by
    rw [StoreState.item?_putItem] at hafter
    split at hafter
    · rename_i hkey
      subst hkey
      obtain rfl := Option.some.inj hafter
      have hfixed := h.fixed _ before item hbefore found
      rwa [← ContentItem.field_eq same ContentItem.scope fun _ => rfl,
        ← ContentItem.field_eq same ContentItem.id fun _ => rfl,
        ← ContentItem.field_eq same ContentItem.hive fun _ => rfl,
        ← ContentItem.field_eq same ContentItem.kind fun _ => rfl,
        ← ContentItem.field_eq same ContentItem.author fun _ => rfl,
        ← ContentItem.field_eq same ContentItem.body fun _ => rfl,
        ← ContentItem.field_eq same ContentItem.createdAt fun _ => rfl,
        ← ContentItem.field_eq same ContentItem.tags fun _ => rfl] at hfixed
    · exact h.fixed other before after hbefore hafter
  keyed := h.keyed

/-- An item is stored where there has been none. -/
theorem putItem {key : ContentKey} (vacant : now.item? key = none) (item : ContentItem)
    (keeps : op.isDeletion = false) :
    op.Upholds directory caller hive start (now.putItem key item) := by
  have absent : start.item? key = none := by
    cases hitem : start.item? key with
    | none => rfl
    | some before =>
      obtain ⟨target, rfl, -⟩ := h.removed key before hitem vacant
      cases keeps
  have other : ∀ {key' : ContentKey} {before : ContentItem}, start.item? key' = some before →
      (now.putItem key item).item? key' = now.item? key' := by
    intro key' before hbefore
    rw [StoreState.item?_putItem, if_neg]
    rintro rfl
    rw [absent] at hbefore
    cases hbefore
  exact {
    flags := fun key' before after hbefore hafter =>
      h.flags key' before after hbefore (other hbefore ▸ hafter)
    removed := fun key' before hbefore hnone =>
      h.removed key' before hbefore (other hbefore ▸ hnone)
    records := h.records
    fixed := fun key' before after hbefore hafter =>
      h.fixed key' before after hbefore (other hbefore ▸ hafter)
    keyed := h.keyed }

/-- The record of the caller on the item is written. -/
theorem withRecord {record : EngagementRecord} {target : Target} (about : op.target? = some target)
    (own : record.key = ⟨caller.user, target.content.id⟩) :
    op.Upholds directory caller hive start (now.withRecord record) where
  flags := h.flags
  removed := h.removed
  records := fun key stored hstored hne => by
    rw [StoreState.record?_withRecord] at hstored
    split at hstored
    · rename_i hkey
      rw [hkey, own]
      exact ⟨rfl, target, about, rfl⟩
    · exact h.records key stored hstored hne
  fixed := h.fixed
  keyed := fun key stored hstored => by
    rw [StoreState.record?_withRecord] at hstored
    split at hstored
    · rename_i hkey
      obtain rfl := Option.some.inj hstored
      exact hkey.symm
    · exact h.keyed key stored hstored

theorem removeRecords (keys : List EngagementKey) :
    op.Upholds directory caller hive start (now.removeRecords keys) := by
  have stored : ∀ {key : EngagementKey} {record : EngagementRecord},
      (now.removeRecords keys).record? key = some record → now.record? key = some record := by
    intro key record hrecord
    rw [StoreState.record?_removeRecords] at hrecord
    split at hrecord
    · cases hrecord
    · exact hrecord
  exact {
    flags := h.flags
    removed := h.removed
    records := fun key record hrecord => h.records key record (stored hrecord)
    fixed := h.fixed
    keyed := fun key record hrecord => h.keyed key record (stored hrecord) }

/-- An item is removed by a deletion that the caller may make. -/
theorem removeItem {key : ContentKey} {target : Target}
    (deletes : op = .deleteContent caller target)
    (may : ∀ item, start.item? key = some item → (now.item? key).isSome →
      item.author = caller.user ∨
        (∃ post, start.item? target.content = some post ∧ post.kind = .post ∧
          post.id.asScope = item.scope ∧ post.author = caller.user) ∨
        directory.Moderates caller hive) :
    op.Upholds directory caller hive start (now.removeItem key) := by
  have stays : ∀ {other : ContentKey} {item : ContentItem},
      (now.removeItem key).item? other = some item → now.item? other = some item := by
    intro other item hitem
    rw [StoreState.item?_removeItem] at hitem
    split at hitem
    · cases hitem
    · exact hitem
  exact {
    flags := fun other before after hbefore hafter =>
      h.flags other before after hbefore (stays hafter)
    removed := fun other before hbefore hnone => by
      rw [StoreState.item?_removeItem] at hnone
      split at hnone
      · rename_i hkey
        subst hkey
        cases hitem : now.item? other with
        | none => exact h.removed other before hbefore hitem
        | some item => exact ⟨target, deletes, may before hbefore (by rw [hitem]; rfl)⟩
      · exact h.removed other before hbefore hnone
    records := fun key' record hrecord => by
      rw [StoreState.record?_removeItem] at hrecord
      exact h.records key' record hrecord
    fixed := fun other before after hbefore hafter =>
      h.fixed other before after hbefore (stays hafter)
    keyed := fun key' record hrecord => by
      rw [StoreState.record?_removeItem] at hrecord
      exact h.keyed key' record hrecord }

end Operation.Upholds

/-! ### Operations -/

theorem Forum.key_recordOf_of_keyed {forum : Forum}
    (keyed : ∀ key record, forum.store.record? key = some record → record.key = key)
    (user : UserId) (content : ContentKey) (hive : ScopeId) :
    (forum.recordOf user content hive).key = ⟨user, content.id⟩ := by
  rw [recordOf]
  cases hrecord : forum.store.record? ⟨user, content.id⟩ with
  | none => rfl
  | some record => exact keyed _ record hrecord

namespace Operation

variable {site : Site} {start forum later : Forum} {op : Operation} {caller : Caller}
  {hive : ScopeId}

/-- What an operation issues respects the rights of others. -/
theorem Issues.upholds {request : Request} {store : StoreState}
    (issues : op.Issues site forum request) (change : forum.store.Change request store)
    (asked : op.caller? = some caller) (addressed : op.hive? = some hive)
    (h : op.Upholds site.directory caller hive start.store forum.store) :
    op.Upholds site.directory caller hive start.store store := by
  have kept : ∀ {item item' : ContentItem}, item'.reviewed = item.reviewed →
      item'.pinned = item.pinned → item'.reviewed ≠ item.reviewed ∨ item'.pinned ≠ item.pinned →
        site.directory.Moderates caller hive :=
    fun hreviewed hpinned hne => (hne.elim (· hreviewed) (· hpinned)).elim
  have own := Forum.key_recordOf_of_keyed h.keyed
  cases issues with
  | post | comment =>
    cases change with
    | read hread => cases hread
    | edit edits => cases edits
    | put vacant => exact h.putItem vacant _ rfl
  | count | touch =>
    cases change with
    | read hread => cases hread
    | edit edits found =>
      cases edits
      exact h.editItem found rfl (kept rfl rfl)
  | review member moderates | pin member moderates =>
    obtain rfl := Option.some.inj asked
    obtain rfl := Option.some.inj addressed
    cases change with
    | read hread => cases hread
    | edit edits found =>
      cases edits
      exact h.editItem found rfl fun _ => Directory.moderates_of_checkMember member moderates
  | vote _ _ takes =>
    obtain rfl := Option.some.inj asked
    have written := h.withRecord rfl ((EngagementRecord.key_vote takes).trans (own _ _ _))
    cases change with
    | read hread => cases hread
    | edit edits => cases edits
    | vote found => exact written.editItem found rfl (kept rfl rfl)
  | save _ _ takes =>
    obtain rfl := Option.some.inj asked
    cases change with
    | read hread => cases hread
    | edit edits => cases edits
    | write => exact h.withRecord rfl ((EngagementRecord.key_setSaved takes).trans (own _ _ _))
  | report _ _ _ takes | withdraw _ _ takes =>
    have shown : ∀ (outcome : ReportOutcome) (item : ContentItem),
        (outcome.applyTo item).reviewed = item.reviewed ∧
          (outcome.applyTo item).pinned = item.pinned :=
      fun outcome _ => by cases outcome <;> exact ⟨rfl, rfl⟩
    obtain rfl := Option.some.inj asked
    have written := h.withRecord rfl ((EngagementRecord.key_report takes).trans (own _ _ _))
    cases change with
    | read hread => cases hread
    | edit edits => cases edits
    | report found =>
      exact written.editItem found (ReportOutcome.asCreated_applyTo _ _)
        (kept (shown _ _).1 (shown _ _).2)

/-- Every change that an operation makes respects the rights of others. -/
theorem Amends.upholds (amends : op.Amends site start forum later)
    (asked : op.caller? = some caller) (addressed : op.hive? = some hive)
    (filed : start.store.Filed)
    (h : op.Upholds site.directory caller hive start.store forum.store) :
    op.Upholds site.directory caller hive start.store later.store := by
  cases amends with
  | @issues _ _ request store issues change =>
    rw [Forum.after_store]
    exact issues.upholds change asked addressed h
  | @clears asker target root _ _ stored owned may clears =>
    obtain rfl : asker = caller := Option.some.inj asked
    obtain rfl : target.hive = hive := Option.some.inj addressed
    have rights : root.author = asker.user ∨ site.directory.Moderates asker target.hive := by
      rw [Site.mayDelete, owned] at may
      split at may
      · cases may
      · rename_i role member
        split at may
        · cases may
        · rename_i allowed
          by_cases author : root.author = asker.user
          · exact .inl author
          · refine .inr (Directory.moderates_of_checkMember member ?_)
            simpa [author] using allowed
    cases clears with
    | erases keys => exact h.removeRecords keys
    | uncounts found => exact h.editItem found rfl fun hne => (hne.elim (· rfl) (· rfl)).elim
    | @removes key gone =>
      refine h.removeItem rfl fun item hitem there => ?_
      obtain ⟨present, hpresent⟩ := Option.isSome_iff_exists.1 there
      obtain author | moderates := rights
      · obtain rfl | ⟨kind, scope⟩ := (gone present hpresent).1
        · refine .inl ?_
          have hroot : target.content = root.key := (filed _ root stored).symm
          rw [hroot, hitem] at stored
          rw [Option.some.inj stored]
          exact author
        · refine .inr (.inl ⟨root, stored, kind, ?_, author⟩)
          rw [← scope, ← filed key item hitem]
          rfl
      · exact .inr (.inr moderates)

end Operation

/-- Who may change what. Whoever is not a member of the hive that an operation is addressed to, and
does not administer the site, is turned away with an error, as is everybody if there is no such
hive, and no call is made to the store. However far an operation gets, only moderators have reviewed
and pinned, only what the caller may delete is gone, only the record of the caller on the item has
been written, and what remains of an item is what it was. -/
theorem Turn.respects_rights {site : Site} {turn : Turn} {forum after : Forum} {journal : Journal}
    {thread : Thread turn.invocation.operation.Result} {caller : Caller} {hive : ScopeId}
    (fits : turn.Fits site) (reachable : forum.Reachable site)
    (asked : turn.invocation.operation.caller? = some caller)
    (addressed : turn.invocation.operation.hive? = some hive)
    (run : turn.Runs site (forum, []) thread (after, journal)) :
    (turn.directory.Excludes caller hive →
      (∀ event ∈ journal, ∀ request, event.effect ≠ .store request) ∧
        (∀ result, thread.result? = some result → ∃ error, result = .error error) ∧
        ∀ (host : Host) session, host.directory = turn.directory →
          ∃ error, host.execute session turn.invocation.operation =
            (.error (.failed error), host)) ∧
      turn.invocation.operation.Respects turn.directory caller hive forum.store after.store := by
  refine ⟨fun excluded => ?_, ?_⟩
  · obtain ⟨error, turned⟩ := excluded.checkMember
    have guards := Operation.guards asked addressed
    obtain ⟨events, failed⟩ := @Guards.steps _ _ _ _
      (guards turn.invocation.settings turn.invocation.horizon) (turn.place site) turn.conditions
      fits.honest error turned _ (forum, []) (after, journal) thread run rfl
    refine ⟨fun event hevent request heq => ?_, failed, fun host session hdirectory => ?_⟩
    · rw [events event hevent] at heq
      cases heq
    · exact (guards host.settings (host.horizon session)).run (hdirectory ▸ turned)
  · have sound := reachable.sound.1
    have upholds : ∀ {later : Forum}, ReflTransGen
        (turn.invocation.operation.Amends (turn.place site) forum) forum later →
          turn.invocation.operation.Upholds turn.directory caller hive forum.store later.store := by
      intro later amends
      induction amends with
      | refl => exact .refl fun key record hrecord => (sound.records key record hrecord).1
      | tail _ step ih =>
        exact step.upholds asked addressed (fun key item hitem => (sound.items key item hitem).1) ih
    exact (upholds (run.amends fits reachable)).toRespects

namespace Sample

/-- Someone who is not a member of the hive. -/
def outsider : Caller := ⟨⟨"outsider"⟩, false⟩

/-- A vote for the post. -/
def voteTurn (caller : Caller) : Turn :=
  ⟨site.directory, .calm, {}, 0, .vote caller ⟨post.hive, post.key⟩ .addUp⟩

/-- The member votes for the post; an outsider who tries to is turned away. -/
theorem voteTurn_respects_rights :
    (∃ journal, (voteTurn caller).Runs site (forum, []) (.running (.done voted.written))
        (votedForum, journal) ∧
      (voteTurn caller).invocation.operation.Respects site.directory caller post.hive forum.store
        votedForum.store) ∧
    ∃ journal, (voteTurn outsider).Runs site (forum, [])
        (.running (.fail (.ofAccess .notMember))) (forum, journal) ∧
      site.directory.Excludes outsider post.hive ∧
      ∀ event ∈ journal, ∀ request, event.effect ≠ .store request := by
  have distinct : ∀ store, Forum.DistinctIds site ⟨store, [post]⟩ :=
    fun _ => ⟨List.nodup_singleton _, fun item hitem => List.mem_singleton.1 hitem ▸ rfl⟩
  have fits : ∀ caller, (voteTurn caller).Fits site :=
    fun _ => ⟨Conditions.honest_calm, fun _ => id⟩
  constructor
  · obtain ⟨journal, run⟩ :=
      (@vote_steps .calm _ (distinct forum.store) (distinct votedForum.store)).exists_journal []
    exact ⟨journal, run, (@Turn.respects_rights site (voteTurn caller) _ _ _ _ _ _ (fits caller)
      forum_reachable rfl rfl run).2⟩
  · have asked : (site.responses .calm).Answers (.membership outsider post.hive) forum
        (.error .notMember) forum := .role outsider post.hive forum
    have steps : Thread.Steps ((voteTurn outsider).responses site)
        (voteTurn outsider).invocation.thread.2 forum (.running (.fail (.ofAccess .notMember)))
        forum := .perform ⟨asked, distinct forum.store⟩ .none
    have excluded : site.directory.Excludes outsider post.hive := by
      intro members hmembers
      cases hmembers
      exact ⟨rfl, rfl⟩
    obtain ⟨journal, run⟩ := steps.exists_journal []
    have turned := (@Turn.respects_rights site (voteTurn outsider) _ _ _ _ _ _ (fits outsider)
      forum_reachable rfl rfl run).1 excluded
    exact ⟨journal, run, excluded, turned.1⟩

end Sample

end HiveForum
