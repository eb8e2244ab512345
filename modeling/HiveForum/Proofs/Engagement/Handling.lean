import HiveForum.Proofs.Engagement.Journal
import HiveForum.Proofs.Engagement.Transition
import HiveForum.Proofs.Forum.Serving
import HiveForum.Proofs.Store.Page

/-!
# What becomes of what is done with an item

Where the store is there, an action on an item can be said in one step: whether it is allowed, what
it makes of the record of the user and of the item, and whom it tells. A vote, a mark or a report is
a change of one record together with one edit of its item.

## Main definitions

* `Handling`: an action on an item, or a measure of a moderator.
* `EngagementAction.change`: what an action makes of a record, and of its item.
* `Handling.settle`: what becomes of the store.
* `Host.handle`: a host carries out the operation.

## Main results

* `Host.Serving.settles`: a host whose store is there settles what is done with an item.
-/

namespace HiveForum

open Program

/-- What is done with an item. -/
inductive Handling where
  | engage (action : EngagementAction)
  | review
  | pin (pinned : Bool)

/-- What an operation on an item gives. -/
inductive Handled where
  | record (record : EngagementRecord)
  | item (item : ContentItem)

/-- Reporting and withdrawing, among what may be done with an item. -/
def ReportAction.engagement : ReportAction → EngagementAction
  | .report reason => .report reason
  | .withdraw => .withdraw

/-- What an action makes of a record, with what it does to the item. -/
def EngagementAction.change (action : EngagementAction) (record : EngagementRecord)
    (reviewed : Bool) (time : Int64) :
    Except OperationError (EngagementRecord × (ContentItem → ContentItem)) :=
  match action with
  | .vote request =>
    match record.vote request time with
    | .apply (changed, change) => .ok (changed, change.counts.applyTo)
    | .noOp => .error .noOp
  | .save saved =>
    match record.setSaved saved with
    | .apply changed => .ok (changed, id)
    | .noOp => .error .noOp
  | .report reason => reported (.report reason)
  | .withdraw => reported .withdraw
where
  reported (action : ReportAction) :
      Except OperationError (EngagementRecord × (ContentItem → ContentItem)) :=
    match record.report action reviewed with
    | .error rejected => .error (.ofRejection rejected)
    | .ok .noOp => .error .noOp
    | .ok (.apply (changed, outcome)) => .ok (changed, outcome.applyTo)

/-- Whom a vote for an item tells. -/
def EngagementAction.notices (action : EngagementAction) (caller : Caller) (target : Target)
    (item : ContentItem) : List Notification :=
  match action with
  | .vote request =>
    if request = .addUp ∧ item.author ≠ caller.user then
      [.upVoted target.hive target.content caller.user item.author]
    else []
  | _ => []

/-- How an operation has ended on a host: its result, the contents of the store, the notifications
that it has sent, and whether it took a time stamp. -/
structure Settlement where
  result : Except OperationError Handled
  contents : StoreState
  sent : List Notification
  stamped : Bool

namespace Handling

/-- The operation. -/
def operation (caller : Caller) (target : Target) : Handling → Operation
  | .engage (.vote request) => .vote caller target request
  | .engage (.save saved) => .setSaved caller target saved
  | .engage (.report reason) => .report caller target reason
  | .engage .withdraw => .withdrawReport caller target
  | .review => .markReviewed caller target
  | .pin pinned => .setPinned caller target pinned

/-- What the operation gives. -/
def handled (caller : Caller) (target : Target) :
    (handling : Handling) → (handling.operation caller target).Result → Handled
  | .engage (.vote _), record => .record record
  | .engage (.save _), record => .record record
  | .engage (.report _), record => .record record
  | .engage .withdraw, record => .record record
  | .review, item => .item item
  | .pin _, item => .item item

/-- The reason of a report has to be short enough. -/
def check : Handling → Except OperationError Unit
  | .engage (.report reason) => (checkReason reason).mapError .ofLimit
  | _ => .ok ()

/-- The role in which something may be done. -/
def require : Handling → Role → Except AccessError Role
  | .engage _, role => .ok role
  | _, role => Role.moderator.require role

/-- Whether a time stamp is taken. -/
def isStamped : Handling → Bool
  | .engage (.vote _) => true
  | _ => false

/-- The item, if something may be done with it. -/
def permit (handling : Handling) (directory : Directory) (contents : StoreState) (caller : Caller)
    (target : Target) : Except OperationError ContentItem := do
  handling.check
  let _ ← ((directory.checkMember caller target.hive).bind handling.require).mapError .ofAccess
  contents.locate target

/-- What is done with the item: the answer, the contents, and whom it tells. -/
def act (handling : Handling) (contents : StoreState) (time : Int64) (caller : Caller)
    (target : Target) (item : ContentItem) :
    Except OperationError (Handled × StoreState × List Notification) :=
  match handling with
  | .engage action => do
    let (changed, edit) ← action.change (contents.recordFor caller.user target) item.reviewed time
    return (.record changed.written,
      (contents.withRecord changed).putItem target.content (edit item),
      action.notices caller target item)
  | .review =>
    let reviewed := { item with reviewed := true, obfuscated := false }
    .ok (.item reviewed, contents.putItem target.content reviewed, [])
  | .pin pinned =>
    if item.pinned = pinned then .error .noOp
    else
      let edited := { item with pinned := pinned }
      .ok (.item edited, contents.putItem target.content edited, [])

/-- What becomes of the store at a time. -/
def settle (handling : Handling) (directory : Directory) (contents : StoreState) (time : Int64)
    (caller : Caller) (target : Target) : Settlement :=
  match handling.permit directory contents caller target with
  | .error error => ⟨.error error, contents, [], false⟩
  | .ok item =>
    match handling.act contents time caller target item with
    | .error error => ⟨.error error, contents, [], handling.isStamped⟩
    | .ok (answer, later, sent) => ⟨.ok answer, later, sent, handling.isStamped⟩

end Handling

/-- Storing an item again where it is stored changes nothing. -/
theorem StoreState.putItem_self {store : StoreState} {key : ContentKey} {item : ContentItem}
    (h : store.item? key = some item) : store.putItem key item = store := by
  obtain ⟨items, hitems, hitem⟩ := Option.bind_eq_some_iff.1 h
  have hinner : items.insert key.id item = items := by
    refine Table.ext_get? fun id => ?_
    rw [Table.get?_insert]
    split
    · rename_i heq
      rw [heq, hitem]
    · rfl
  have houter : store.content.insert key.scope items = store.content := by
    refine Table.ext_get? fun scope => ?_
    rw [Table.get?_insert]
    split
    · rename_i heq
      rw [heq, hitems]
    · rfl
  rw [putItem, hitems]
  simp only [Option.getD_some, hinner, houter]

/-- An action that makes a change is a vote, a mark or a report, and edits the item accordingly. -/
theorem EngagementAction.change_cases {action : EngagementAction}
    {record changed : EngagementRecord} {reviewed : Bool} {time : Int64}
    {edit : ContentItem → ContentItem}
    (h : action.change record reviewed time = .ok (changed, edit)) :
    (∃ request change, record.vote request time = .apply (changed, change) ∧
        edit = change.counts.applyTo) ∨
      (∃ saved, record.setSaved saved = .apply changed ∧ edit = id) ∨
        ∃ report outcome, record.report report reviewed = .ok (.apply (changed, outcome)) ∧
          edit = outcome.applyTo := by
  have reported : ∀ {report : ReportAction},
      EngagementAction.change.reported record reviewed report = .ok (changed, edit) →
        ∃ report outcome, record.report report reviewed = .ok (.apply (changed, outcome)) ∧
          edit = outcome.applyTo := by
    intro report hreported
    rw [EngagementAction.change.reported] at hreported
    split at hreported
    · cases hreported
    · cases hreported
    · rename_i hreport
      cases hreported
      exact ⟨report, _, hreport, rfl⟩
  cases action with
  | vote request =>
    rw [EngagementAction.change] at h
    split at h
    · rename_i hvote
      cases h
      exact .inl ⟨request, _, hvote, rfl⟩
    · cases h
  | save saved =>
    rw [EngagementAction.change] at h
    split at h
    · rename_i hsave
      cases h
      exact .inr (.inl ⟨saved, hsave, rfl⟩)
    · cases h
  | report reason => exact .inr (.inr (reported h))
  | withdraw => exact .inr (.inr (reported h))

/-- An action keeps the key and the version of a record. -/
theorem EngagementAction.change_eq_ok {action : EngagementAction}
    {record changed : EngagementRecord} {reviewed : Bool} {time : Int64}
    {edit : ContentItem → ContentItem}
    (h : action.change record reviewed time = .ok (changed, edit)) :
    changed.key = record.key ∧ changed.version = record.version := by
  obtain ⟨request, change, hvote, -⟩ | ⟨saved, hsave, -⟩ | ⟨report, outcome, hreport, -⟩ :=
    EngagementAction.change_cases h
  · refine ⟨EngagementRecord.key_vote hvote, ?_⟩
    rw [EngagementRecord.vote] at hvote
    split at hvote <;> cases hvote
    exact (record.withVote_rest request time).2.1
  · refine ⟨EngagementRecord.key_setSaved hsave, ?_⟩
    rw [EngagementRecord.setSaved] at hsave
    split at hsave <;> cases hsave
    rfl
  · refine ⟨EngagementRecord.key_report hreport, ?_⟩
    rw [EngagementRecord.report] at hreport
    split at hreport <;> cases hreport
    cases outcome <;> rfl

theorem EngagementRecord.report_reviewed_ne_added {record changed : EngagementRecord}
    {action : ReportAction} :
    record.report action true ≠ .ok (.apply (changed, .added)) := by
  intro h
  rw [EngagementRecord.report] at h
  cases action <;> cases hreported : record.reported <;>
    simp [reportTransition, hreported] at h

namespace StoreState

variable {store : StoreState} {user : UserId} {target : Target}

theorem Keyed.key_recordFor (keyed : store.Keyed) :
    (store.recordFor user target).key = ⟨user, target.content.id⟩ := by
  rw [recordFor]
  cases hrecord : store.record? ⟨user, target.content.id⟩ with
  | none => rfl
  | some record => exact keyed.records _ record hrecord

theorem Keyed.writeRecord_of_change (keyed : store.Keyed)
    {action : EngagementAction} {changed : EngagementRecord} {reviewed : Bool} {time : Int64}
    {edit : ContentItem → ContentItem}
    (h : action.change (store.recordFor user target) reviewed time = .ok (changed, edit)) :
    store.writeRecord changed = .ok (changed.written, store.withRecord changed) := by
  obtain ⟨hkey, hversion⟩ := EngagementAction.change_eq_ok h
  refine writeRecord_eq_ok_iff.2 ⟨?_, rfl, rfl⟩
  rw [hkey, hversion, keyed.key_recordFor, recordFor, storedVersion]
  cases store.record? ⟨user, target.content.id⟩ <;> rfl

end StoreState

namespace Host

/-- The operation is carried out without a deadline. -/
def handle (host : Host) (caller : Caller) (target : Target) (handling : Handling) :
    Outcome Handled × Host :=
  let (outcome, later) := host.execute {} (handling.operation caller target)
  (outcome.map (handling.handled caller target), later)

/-- The operation has ended as it is settled. -/
structure Settles (host : Host) (settlement : Settlement) (outcome : Outcome Handled)
    (later : Host) : Prop where
  outcome : outcome = settlement.result.mapError .failed
  leaves : host.Leaves settlement.contents settlement.sent
    (if settlement.stamped then host.stamps.tick.2 else host.stamps) later

/-- The operation ends on the host as it is settled there. -/
def Settling (host : Host) (handling : Handling) (caller : Caller) (target : Target) {α : Type}
    (give : α → Handled) (outcome : Outcome α) (later : Host) : Prop :=
  host.Settles (handling.settle host.directory host.store.state host.stamps.tick.1 caller target)
    (outcome.map give) later

section

variable {host later : Host} {handling : Handling} {caller : Caller} {target : Target}
  {item : ContentItem} {α : Type} {give : α → Handled}

theorem settling_refused {error : OperationError}
    (refused : handling.permit host.directory host.store.state caller target = .error error)
    (leaves : host.Leaves host.store.state [] host.stamps later) :
    host.Settling handling caller target give (.error (.failed error)) later := by
  rw [Settling, Handling.settle, refused]
  exact ⟨rfl, leaves⟩

variable (permitted : handling.permit host.directory host.store.state caller target = .ok item)

include permitted

theorem settling_failed {error : OperationError}
    (failed : handling.act host.store.state host.stamps.tick.1 caller target item = .error error)
    (leaves : host.Leaves host.store.state []
      (if handling.isStamped then host.stamps.tick.2 else host.stamps) later) :
    host.Settling handling caller target give (.error (.failed error)) later := by
  rw [Settling, Handling.settle, permitted]
  dsimp only
  rw [failed]
  exact ⟨rfl, leaves⟩

theorem settling_done {value : α} {contents : StoreState} {sent : List Notification}
    (acted : handling.act host.store.state host.stamps.tick.1 caller target item =
      .ok (give value, contents, sent))
    (leaves : host.Leaves contents sent
      (if handling.isStamped then host.stamps.tick.2 else host.stamps) later) :
    host.Settling handling caller target give (.ok value) later := by
  rw [Settling, Handling.settle, permitted]
  dsimp only
  rw [acted]
  exact ⟨rfl, leaves⟩

end

end Host

/-! ### Operations -/

namespace Handling

variable {handling : Handling} {directory : Directory} {contents : StoreState} {caller : Caller}
  {target : Target}

theorem permit_of_error {error : AccessError} (check : handling.check = .ok ())
    (role : (directory.checkMember caller target.hive).bind handling.require = .error error) :
    handling.permit directory contents caller target = .error (.ofAccess error) := by
  rw [permit, check, role]
  rfl

theorem permit_of_ok {role : Role} (check : handling.check = .ok ())
    (hrole : (directory.checkMember caller target.hive).bind handling.require = .ok role) :
    handling.permit directory contents caller target = contents.locate target := by
  rw [permit, check, hrole]
  rfl

theorem bind_require_engage (action : EngagementAction) (role : Except AccessError Role) :
    role.bind (Handling.engage action).require = role := by
  cases role <;> rfl

end Handling

namespace Program

variable {host : Host} {handling : Handling} {action : EngagementAction} {caller : Caller}
  {target : Target} {α : Type} {give : α → Handled} {f : Role → Program α}

theorem yields_located {β : Type} {start : Host} {f : ContentItem → Program β}
    {claim : Outcome β → Host → Prop} (leaves : host.Leaves host.store.state [] host.stamps start)
    (permits : handling.permit host.directory host.store.state caller target =
      host.store.state.locate target)
    (refused : ∀ error later, handling.permit host.directory host.store.state caller target =
      .error error → host.Leaves host.store.state [] host.stamps later →
        claim (.error (.failed error)) later)
    (hf : ∀ item later, handling.permit host.directory host.store.state caller target = .ok item →
      host.store.state.item? target.content = some item →
        host.Leaves host.store.state [] host.stamps later → (f item).Yields later claim) :
    ((loadTarget target).bind f).Yields start claim := by
  refine yields_loadTarget leaves fun later hlater => yields_ofExcept (fun error herror => ?_)
    fun item hitem => ?_
  · exact refused error later (permits.trans herror) hlater
  · exact hf item later (permits.trans hitem) (StoreState.locate_eq_ok_iff.1 hitem).1 hlater

variable (serving : host.Serving) (keyed : host.store.state.Keyed)

include serving

theorem yields_permitted (check : (Handling.engage action).check = .ok ())
    (hf : ∀ role, (Handling.engage action).permit host.directory host.store.state caller target =
      host.store.state.locate target →
        (f role).Yields host (host.Settling (.engage action) caller target give)) :
    ((authorize caller target.hive).bind f).Yields host
      (host.Settling (.engage action) caller target give) := by
  have hrequire := Handling.bind_require_engage action
    (host.directory.checkMember caller target.hive)
  refine yields_authorize serving.leaves (yields_ofExcept (fun error herror => ?_)
    fun role hrole => hf role ?_)
  · exact Host.settling_refused (Handling.permit_of_error check (hrequire.trans herror))
      serving.leaves
  · exact Handling.permit_of_ok check (hrequire.trans hrole)

theorem yields_permittedAs (check : handling.check = .ok ())
    (require : handling.require = Role.moderator.require)
    (hf : ∀ role, handling.permit host.directory host.store.state caller target =
      host.store.state.locate target →
        (f role).Yields host (host.Settling handling caller target give)) :
    ((authorizeAs caller target.hive .moderator).bind f).Yields host
      (host.Settling handling caller target give) := by
  refine yields_authorizeAs serving.leaves (yields_ofExcept (fun error herror => ?_)
    fun role hrole => hf role ?_)
  · rw [← require] at herror
    exact Host.settling_refused (Handling.permit_of_error check herror) serving.leaves
  · rw [← require] at hrole
    exact Handling.permit_of_ok check hrole

theorem yields_markReviewed :
    (markReviewed caller target).Yields host (host.Settling .review caller target .item) := by
  refine yields_permittedAs serving rfl rfl fun role permits => yields_located serving.leaves
    permits (fun _ _ => Host.settling_refused) fun item later hpermit hstored hlater => ?_
  refine yields_store hlater fun last hlast => ?_
  simp only [StoreState.reply, StoreState.perform, StoreState.updateItem, hstored] at hlast ⊢
  exact yields_done (Host.settling_done hpermit rfl hlast)

/-- An item is pinned or unpinned as it is settled. -/
theorem yields_setPinned {pinned : Bool} :
    (setPinned caller target pinned).Yields host
      (host.Settling (.pin pinned) caller target .item) := by
  refine yields_permittedAs serving rfl rfl fun role permits => yields_located serving.leaves
    permits (fun _ _ => Host.settling_refused) fun item later hpermit hstored hlater => ?_
  change Yields (if item.pinned = pinned then .fail .noOp
    else call (.setPinned target.content pinned)) later
      (host.Settling (.pin pinned) caller target .item)
  split
  · rename_i hsame
    exact Host.settling_failed hpermit (if_pos hsame) hlater
  · rename_i hother
    refine yields_store hlater fun last hlast => ?_
    simp only [StoreState.reply, StoreState.perform, StoreState.updateItem, hstored] at hlast ⊢
    exact yields_done (Host.settling_done hpermit (if_neg hother) hlast)

include keyed

/-- A vote ends as it is settled. -/
theorem yields_vote {request : VoteRequest} :
    (vote host.settings caller target request).Yields host
      (host.Settling (.engage (.vote request)) caller target .record) := by
  refine yields_permitted serving rfl fun role permits => yields_located serving.leaves permits
    (fun _ _ => Host.settling_refused) fun item later hpermit hstored hlater => ?_
  refine yields_timestamp hlater fun later hlater => Yields.bind (yields_retryConflicts
    (yields_currentRecord hlater fun later hlater =>
      yields_changeOf (fun hnoOp => ?_) fun change hchange => ?_))
  · refine Host.settling_failed hpermit ?_ hlater
    rw [Handling.act, EngagementAction.change, hnoOp]
    rfl
  obtain ⟨changed, change⟩ := change
  have haction : (EngagementAction.vote request).change
      (host.store.state.recordFor caller.user target) item.reviewed host.stamps.tick.1 =
        .ok (changed, change.counts.applyTo) := by
    rw [EngagementAction.change, hchange]
  have hcommit : host.store.state.reply host.store.limits
      (.commitVote changed target.content change.counts) =
        (.ok (changed.written, change.counts.applyTo item),
          (host.store.state.withRecord changed).putItem target.content
            (change.counts.applyTo item)) := by
    simp only [StoreState.reply, StoreState.perform, StoreState.commitVote, hstored,
      keyed.writeRecord_of_change haction]
  have hact : (Handling.engage (.vote request)).act host.store.state host.stamps.tick.1 caller
      target item = .ok (.record changed.written,
        (host.store.state.withRecord changed).putItem target.content (change.counts.applyTo item),
        (EngagementAction.vote request).notices caller target item) := by
    rw [Handling.act, haction]
    rfl
  rw [EngagementAction.notices] at hact
  refine yields_store hlater fun last hlast => ?_
  rw [hcommit] at hlast ⊢
  refine yields_done ?_
  dsimp only
  split
  · rename_i htold
    rw [if_pos htold] at hact
    exact yields_notify hlast fun last hlast => Host.settling_done hpermit hact hlast
  · rename_i hsilent
    rw [if_neg hsilent] at hact
    exact Host.settling_done hpermit hact hlast

/-- A mark is set or taken away as it is settled. -/
theorem yields_setSaved {saved : Bool} :
    (setSaved host.settings caller target saved).Yields host
      (host.Settling (.engage (.save saved)) caller target .record) := by
  refine yields_permitted serving rfl fun role permits => yields_located serving.leaves permits
    (fun _ _ => Host.settling_refused) fun item later hpermit hstored hlater => ?_
  refine yields_retryConflicts (yields_currentRecord hlater fun later hlater =>
    yields_changeOf (fun hnoOp => ?_) fun changed hchange => ?_)
  · refine Host.settling_failed hpermit ?_ hlater
    rw [Handling.act, EngagementAction.change, hnoOp]
    rfl
  have haction : (EngagementAction.save saved).change
      (host.store.state.recordFor caller.user target) item.reviewed host.stamps.tick.1 =
        .ok (changed, id) := by
    rw [EngagementAction.change, hchange]
  have hput : host.store.state.reply host.store.limits (.putEngagement changed) =
      (.ok changed.written, host.store.state.withRecord changed) := by
    simp only [StoreState.reply, StoreState.perform, keyed.writeRecord_of_change haction]
  -- the item is stored again as it is
  have hsame : (host.store.state.withRecord changed).putItem target.content item =
      host.store.state.withRecord changed :=
    StoreState.putItem_self (by rwa [StoreState.item?_withRecord])
  have hact : (Handling.engage (.save saved)).act host.store.state host.stamps.tick.1 caller
      target item = .ok (.record changed.written, host.store.state.withRecord changed, []) := by
    rw [Handling.act, haction]
    change Except.ok (_, (host.store.state.withRecord changed).putItem target.content item, _) = _
    rw [hsame]
    rfl
  refine yields_store hlater fun last hlast => ?_
  rw [hput] at hlast ⊢
  exact yields_done (Host.settling_done hpermit hact hlast)

/-- A report whose reason is short enough ends as it is settled, and so does its withdrawal. -/
theorem yields_applyReport {action : ReportAction}
    (check : (Handling.engage action.engagement).check = .ok ()) :
    (applyReport host.settings caller target action).Yields host
      (host.Settling (.engage action.engagement) caller target .record) := by
  refine yields_permitted serving check fun role permits => Yields.bind (yields_retryConflicts
    (yields_located serving.leaves permits (fun _ _ => Host.settling_refused)
      fun item later hpermit hstored hlater => ?_))
  have hstamped : (Handling.engage action.engagement).isStamped = false := by
    cases action <;> rfl
  have hchange : ∀ record time, action.engagement.change record item.reviewed time =
      EngagementAction.change.reported record item.reviewed action := by
    intro record time
    cases action <;> rfl
  refine yields_currentRecord hlater fun later hlater => yields_ofExcept (fun error herror => ?_)
    fun transition htransition => yields_changeOf (fun hnoOp => ?_) fun change happly => ?_
  · refine Host.settling_failed hpermit ?_ (hstamped ▸ hlater)
    rw [Handling.act, hchange, EngagementAction.change.reported, herror]
    rfl
  · subst hnoOp
    refine Host.settling_failed hpermit ?_ (hstamped ▸ hlater)
    rw [Handling.act, hchange, EngagementAction.change.reported, htransition]
    rfl
  subst happly
  obtain ⟨changed, outcome⟩ := change
  have haction : action.engagement.change (host.store.state.recordFor caller.user target)
      item.reviewed host.stamps.tick.1 = .ok (changed, outcome.applyTo) := by
    rw [hchange, EngagementAction.change.reported, htransition]
  -- the store would refuse a report of a reviewed item, but none is made
  have hopen : ¬(outcome = .added ∧ item.reviewed = true) := by
    rintro ⟨rfl, hreviewed⟩
    rw [hreviewed] at htransition
    exact EngagementRecord.report_reviewed_ne_added htransition
  have hcommit : host.store.state.reply host.store.limits
      (.commitReport changed target.content outcome) =
        (.ok (changed.written, outcome.applyTo item),
          (host.store.state.withRecord changed).putItem target.content (outcome.applyTo item)) := by
    simp only [StoreState.reply, StoreState.perform, StoreState.commitReport, hstored,
      keyed.writeRecord_of_change haction, if_neg hopen]
  have hact : (Handling.engage action.engagement).act host.store.state host.stamps.tick.1 caller
      target item = .ok (.record changed.written,
        (host.store.state.withRecord changed).putItem target.content (outcome.applyTo item),
        []) := by
    rw [Handling.act, haction]
    cases action <;> rfl
  refine yields_store hlater fun last hlast => ?_
  rw [hcommit] at hlast ⊢
  exact yields_done (Host.settling_done hpermit hact (hstamped ▸ hlast))

theorem yields_report {reason : Option String} :
    (report host.settings caller target reason).Yields host
      (host.Settling (.engage (.report reason)) caller target .record) := by
  refine yields_ofExcept (fun error herror => ?_) fun _ hshort => ?_
  · refine Host.settling_refused ?_ serving.leaves
    rw [Handling.permit, Handling.check, herror]
    rfl
  · refine @yields_applyReport _ _ _ serving keyed (.report reason) ?_
    change (checkReason reason).mapError OperationError.ofLimit = .ok ()
    rw [hshort]
    rfl

theorem yields_withdrawReport :
    (withdrawReport host.settings caller target).Yields host
      (host.Settling (.engage .withdraw) caller target .record) :=
  @yields_applyReport _ _ _ serving keyed .withdraw rfl

end Program

/-- A host whose store is there settles what is done with an item. -/
theorem Host.Serving.settles {host : Host} (serving : host.Serving)
    (keyed : host.store.state.Keyed) (caller : Caller) (target : Target) (handling : Handling) :
    host.Settles (handling.settle host.directory host.store.state host.stamps.tick.1 caller target)
      (host.handle caller target handling).1 (host.handle caller target handling).2 :=
  match handling with
  | .engage (.vote _) => yields_vote serving keyed
  | .engage (.save _) => yields_setSaved serving keyed
  | .engage (.report _) => yields_report serving keyed
  | .engage .withdraw => yields_withdrawReport serving keyed
  | .review => yields_markReviewed serving
  | .pin _ => yields_setPinned serving

end HiveForum
