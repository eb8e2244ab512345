import HiveForum.Proofs.Engagement.Handling
import HiveForum.Proofs.Store.Keys

/-!
# One operation after another

Users act on items one at a time, and moderators review and pin. What an action makes of a record
does not depend on the version of the record or on the time of its latest vote: these two only say
how often and when it was written.

## Main definitions

* `EngagementRecord.unstamped`, `EngagementRecord.plain`: a record without the time of its vote, and
  without its version either.
* `Visit`: an operation, at a reading of the wall clock.
* `Host.visit`, `Host.attend`: a host carries out one operation, or one after another.

## Main results

* `EngagementAction.change_alike`: an action makes the same of records that are the same but for
  version and time.
* `Handling.settle_cases`: what an operation may make of the store.
* `Host.Serving.visit`: a host whose store is there settles each operation.
-/

namespace HiveForum

/-! ### Records but for their stamps -/

namespace EngagementRecord

/-- The record without the time of its latest vote. -/
def unstamped (record : EngagementRecord) : EngagementRecord := { record with votedAt := none }

/-- The record without the time of its latest vote and without its version. -/
def plain (record : EngagementRecord) : EngagementRecord :=
  { record with votedAt := none, version := 0 }

variable {record other : EngagementRecord}

theorem unstamped_eq_iff :
    record.unstamped = other.unstamped ↔
      record.plain = other.plain ∧ record.version = other.version := by
  cases record
  cases other
  simp [unstamped, plain, and_assoc]

theorem key_eq_of_plain (h : record.plain = other.plain) : record.key = other.key := by
  have hkey := congrArg key h
  exact hkey

theorem unstamped_written (h : record.unstamped = other.unstamped) :
    record.written.unstamped = other.written.unstamped := by
  obtain ⟨hplain, hversion⟩ := unstamped_eq_iff.1 h
  exact unstamped_eq_iff.2 ⟨hplain, congrArg (· + 1) hversion⟩

end EngagementRecord

/-- What an operation gives, with the record in another form. -/
def Handled.map (form : EngagementRecord → EngagementRecord) : Handled → Handled
  | .record value => .record (form value)
  | .item value => .item value

namespace EngagementAction

variable {action : EngagementAction} {record changed other : EngagementRecord} {reviewed : Bool}
  {time : Int64} {edit : ContentItem → ContentItem}

/-- What an action makes of a record, without version and time. -/
def plainChange (action : EngagementAction) (record : EngagementRecord) (reviewed : Bool)
    (time : Int64) : Except OperationError (EngagementRecord × (ContentItem → ContentItem)) :=
  (action.change record reviewed time).map fun (changed, edit) => (changed.plain, edit)

/-- Neither the version of the record nor the time of its vote nor the present time matters. -/
theorem plainChange_plain (action : EngagementAction) (record : EngagementRecord)
    (reviewed : Bool) (time : Int64) :
    action.plainChange record reviewed time = action.plainChange record.plain reviewed 0 := by
  have reported : ∀ report,
      (change.reported record reviewed report).map
          (fun (changed, edit) => (changed.plain, edit)) =
        (change.reported record.plain reviewed report).map
          fun (changed, edit) => (changed.plain, edit) := by
    intro report
    have hflag : record.plain.reported = record.reported := rfl
    rw [change.reported, change.reported, EngagementRecord.report, EngagementRecord.report, hflag]
    cases reportTransition record.reported report reviewed with
    | error rejected => rfl
    | ok transition =>
      cases transition with
      | noOp => rfl
      | apply outcome => cases outcome <;> rfl
  cases action with
  | vote request =>
    have hup : record.plain.upVoted = record.upVoted := rfl
    have hdown : record.plain.downVoted = record.downVoted := rfl
    rw [plainChange, plainChange, change, change, EngagementRecord.vote, EngagementRecord.vote,
      hup, hdown]
    cases voteTransition record.upVoted record.downVoted request with
    | noOp => rfl
    | apply change =>
      obtain ⟨side, add⟩ := request
      cases side <;> cases add <;> rfl
  | save saved =>
    have hsaved : record.plain.saved = record.saved := rfl
    rw [plainChange, plainChange, change, change, EngagementRecord.setSaved,
      EngagementRecord.setSaved, hsaved]
    by_cases hsame : record.saved = saved
    · simp only [if_pos hsame]
    · simp only [if_neg hsame]
      rfl
  | report reason => exact reported _
  | withdraw => exact reported _

/-- An action makes the same of two records that are the same but for their versions and the times
of their votes. -/
theorem change_alike (action : EngagementAction) (h : record.plain = other.plain)
    (reviewed : Bool) (time time' : Int64) :
    (∃ error, action.change record reviewed time = .error error ∧
        action.change other reviewed time' = .error error) ∨
      ∃ changed changed' edit, action.change record reviewed time = .ok (changed, edit) ∧
        action.change other reviewed time' = .ok (changed', edit) ∧
          changed.plain = changed'.plain := by
  have hsame : action.plainChange record reviewed time =
      action.plainChange other reviewed time' := by
    rw [plainChange_plain, plainChange_plain action other, h]
  rw [plainChange, plainChange] at hsame
  generalize action.change record reviewed time = first at hsame ⊢
  generalize action.change other reviewed time' = second at hsame ⊢
  cases first with
  | error error =>
    cases second with
    | error error' =>
      cases hsame
      exact .inl ⟨error, rfl, rfl⟩
    | ok result => cases hsame
  | ok result =>
    cases second with
    | error error => cases hsame
    | ok result' =>
      obtain ⟨changed, edit⟩ := result
      obtain ⟨changed', edit'⟩ := result'
      have heq := Prod.mk.inj (Except.ok.inj hsame)
      obtain rfl := heq.2
      exact .inr ⟨changed, changed', edit, rfl, rfl, heq.1⟩

theorem edit_rest (h : action.change record reviewed time = .ok (changed, edit))
    (item : ContentItem) :
    (edit item).asCreated = item.asCreated ∧ (edit item).reviewed = item.reviewed := by
  obtain ⟨_, _, -, rfl⟩ | ⟨_, -, rfl⟩ | ⟨_, outcome, -, rfl⟩ := change_cases h
  · exact ⟨rfl, rfl⟩
  · exact ⟨rfl, rfl⟩
  · cases outcome <;> exact ⟨rfl, rfl⟩

end EngagementAction

theorem ContentItem.eq_of_asCreated {item item' : ContentItem}
    (h : item'.asCreated = item.asCreated) : item'.key = item.key ∧ item'.hive = item.hive := by
  have hkey := congrArg key h
  have hhive := congrArg hive h
  exact ⟨hkey, hhive⟩

/-! ### What an operation makes of the store -/

namespace Handling

variable {handling : Handling} {action : EngagementAction} {directory : Directory}
  {contents : StoreState} {time : Int64} {caller : Caller} {target : Target} {item : ContentItem}

/-- Only with an item that is there may something be done. -/
theorem locate_of_permit (h : handling.permit directory contents caller target = .ok item) :
    contents.locate target = .ok item := by
  rw [permit] at h
  cases hcheck : handling.check with
  | error error =>
    rw [hcheck] at h
    cases h
  | ok _ =>
    rw [hcheck] at h
    cases hrole : ((directory.checkMember caller target.hive).bind handling.require).mapError
        OperationError.ofAccess with
    | error error =>
      rw [hrole] at h
      cases h
    | ok role =>
      rw [hrole] at h
      exact h

theorem settle_of_error {error : OperationError}
    (h : handling.permit directory contents caller target = .error error) :
    handling.settle directory contents time caller target =
      ⟨.error error, contents, [], false⟩ := by
  rw [settle, h]

section

variable (permitted : (Handling.engage action).permit directory contents caller target = .ok item)

include permitted

theorem settle_of_change_error {error : OperationError}
    (h : action.change (contents.recordFor caller.user target) item.reviewed time = .error error) :
    (Handling.engage action).settle directory contents time caller target =
      ⟨.error error, contents, [], (Handling.engage action).isStamped⟩ := by
  rw [settle, permitted]
  dsimp only
  rw [act, h]
  rfl

theorem settle_of_change_ok {changed : EngagementRecord} {edit : ContentItem → ContentItem}
    (h : action.change (contents.recordFor caller.user target) item.reviewed time =
      .ok (changed, edit)) :
    (Handling.engage action).settle directory contents time caller target =
      ⟨.ok (.record changed.written),
        (contents.withRecord changed).putItem target.content (edit item),
        action.notices caller target item, (Handling.engage action).isStamped⟩ := by
  rw [settle, permitted]
  dsimp only
  rw [act, h]
  rfl

end

/-- An action fails and changes nothing, or it writes the record of the caller and edits the
item. -/
theorem settle_cases (action : EngagementAction) (directory : Directory) (contents : StoreState)
    (time : Int64) (caller : Caller) (target : Target) :
    (∃ error stamped, (Handling.engage action).settle directory contents time caller target =
        ⟨.error error, contents, [], stamped⟩) ∨
      ∃ item changed edit, contents.locate target = .ok item ∧
        action.change (contents.recordFor caller.user target) item.reviewed time =
            .ok (changed, edit) ∧
          (Handling.engage action).settle directory contents time caller target =
            ⟨.ok (.record changed.written),
              (contents.withRecord changed).putItem target.content (edit item),
              action.notices caller target item, (Handling.engage action).isStamped⟩ := by
  cases hpermit : (Handling.engage action).permit directory contents caller target with
  | error error => exact .inl ⟨error, _, settle_of_error hpermit⟩
  | ok item =>
    cases hchange : action.change (contents.recordFor caller.user target) item.reviewed time with
    | error error => exact .inl ⟨error, _, settle_of_change_error hpermit hchange⟩
    | ok result =>
      exact .inr ⟨item, result.1, result.2, locate_of_permit hpermit, hchange,
        settle_of_change_ok hpermit hchange⟩

end Handling

namespace StoreState

variable {store : StoreState} {user : UserId} {target : Target} {item : ContentItem}

theorem Keyed.key_of_locate (keyed : store.Keyed) (h : store.locate target = .ok item) :
    item.key = target.content :=
  keyed.items _ item (locate_eq_ok_iff.1 h).1

/-- Items and records are under their keys whatever is done with an item. -/
theorem Keyed.settle (keyed : store.Keyed) (handling : Handling) (directory : Directory)
    (time : Int64) (caller : Caller) (target : Target) :
    (handling.settle directory store time caller target).contents.Keyed := by
  have edited : ∀ {item item' : ContentItem} {store' : StoreState}, store'.Keyed →
      store.locate target = .ok item → item'.asCreated = item.asCreated →
        (store'.putItem target.content item').Keyed := by
    intro item item' store' keyed' hitem hsame
    have hkey := (ContentItem.eq_of_asCreated hsame).1
    exact keyed'.putItem (hkey.trans (keyed.key_of_locate hitem))
  cases handling with
  | engage action =>
    obtain ⟨error, stamped, hsettle⟩ | ⟨item, changed, edit, hitem, hchange, hsettle⟩ :=
      Handling.settle_cases action directory store time caller target
    · rw [hsettle]
      exact keyed
    · rw [hsettle]
      exact edited (keyed.withRecord changed) hitem (EngagementAction.edit_rest hchange item).1
  | review =>
    rw [Handling.settle]
    cases hpermit : Handling.review.permit directory store caller target with
    | error error => exact keyed
    | ok item => exact edited keyed (Handling.locate_of_permit hpermit) rfl
  | pin pinned =>
    rw [Handling.settle]
    cases hpermit : (Handling.pin pinned).permit directory store caller target with
    | error error => exact keyed
    | ok item =>
      dsimp only [Handling.act]
      by_cases hsame : item.pinned = pinned
      · simp only [if_pos hsame]
        exact keyed
      · simp only [if_neg hsame]
        exact edited keyed (Handling.locate_of_permit hpermit) rfl

end StoreState

theorem Host.Settles.outcome_map {host later : Host} {settlement : Settlement}
    {outcome : Outcome Handled} (h : host.Settles settlement outcome later)
    (form : EngagementRecord → EngagementRecord) :
    outcome.map (Handled.map form) =
      (settlement.result.map (Handled.map form)).mapError .failed := by
  rw [h.outcome]
  cases settlement.result <;> rfl

/-! ### Visits -/

/-- A caller does something with an item, while the wall clock shows some time. -/
structure Visit where
  /-- What the wall clock shows, in microseconds since the epoch. -/
  wall : Int
  caller : Caller
  target : Target
  handling : Handling

namespace Visit

/-- Somebody votes for an item, saves it or reports it, or takes this back. -/
def Engages (target : Target) (visit : Visit) : Prop :=
  visit.target = target ∧ ∃ action, visit.handling = .engage action

/-- What is done by whom, at whatever time. -/
def deed (visit : Visit) : Caller × Target × Handling :=
  (visit.caller, visit.target, visit.handling)

/-- A visit and what it has given, with the record in another form. -/
def entry (form : EngagementRecord → EngagementRecord) (entry : Visit × Outcome Handled) :
    Visit × Outcome Handled :=
  (entry.1, entry.2.map (Handled.map form))

end Visit

namespace Host

/-- The host when its wall clock shows some time. -/
def atWall (host : Host) (wall : Int) : Host :=
  { host with stamps := { host.stamps with wall := wall } }

/-- What becomes of a visit. -/
def settle (host : Host) (visit : Visit) : Settlement :=
  visit.handling.settle host.directory host.store.state (host.atWall visit.wall).stamps.tick.1
    visit.caller visit.target

/-- The host carries out one operation. -/
def visit (host : Host) (visit : Visit) : Outcome Handled × Host :=
  (host.atWall visit.wall).handle visit.caller visit.target visit.handling

/-- The host carries out one operation after another. -/
def attend (host : Host) : List Visit → List (Visit × Outcome Handled) × Host
  | [] => ([], host)
  | first :: rest =>
    let (outcome, later) := host.visit first
    let (log, last) := later.attend rest
    ((first, outcome) :: log, last)

theorem attend_cons (host : Host) (first : Visit) (rest : List Visit) :
    host.attend (first :: rest) =
      ((first, (host.visit first).1) :: ((host.visit first).2.attend rest).1,
        ((host.visit first).2.attend rest).2) := rfl

/-- A host whose store is there settles each operation. -/
theorem Serving.visit {host : Host} (serving : host.Serving) (keyed : host.store.state.Keyed)
    (visit : Visit) :
    (host.atWall visit.wall).Settles (host.settle visit) (host.visit visit).1
      (host.visit visit).2 := by
  have atWall : (host.atWall visit.wall).Serving :=
    ⟨serving.available, serving.waits, serving.timely⟩
  exact atWall.settles keyed visit.caller visit.target visit.handling

end Host

end HiveForum
