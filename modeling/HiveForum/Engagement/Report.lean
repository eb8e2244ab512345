import HiveForum.Engagement.Record
import HiveForum.Engagement.Counts

/-!
# Reports

A user reports an item, with or without a reason, and may withdraw the report. Reports hide an
item until a moderator has reviewed it; a reviewed item cannot be reported.

## Main definitions

* `ReportAction`: reporting and withdrawing.
* `ReportOutcome.applyTo`: the item after a report was added or removed.
* `reportTransition`: what an action does.
* `EngagementRecord.report`: the record after an action, with the outcome for the item.

## Main results

* `reportTransition_eq_error_iff`: exactly reports of reviewed items are rejected.
-/

namespace HiveForum

/-- Reporting an item, or withdrawing a report. -/
inductive ReportAction where
  | report (reason : Option String)
  | withdraw
deriving DecidableEq, Inhabited

/-- What an action does to the item. -/
inductive ReportOutcome where
  | added
  | removed
deriving DecidableEq, Inhabited

/-- Why a report is rejected. -/
inductive ReportRejected where
  | alreadyReviewed
deriving DecidableEq

/-- The text of the rejection. -/
def ReportRejected.message : ReportRejected → String
  | .alreadyReviewed => "content has already been reviewed"

/-- The item after a report was added or removed: its count of reports changes by one, and an item
that is not reviewed is hidden by a report and shown again when its last report is gone. -/
def ReportOutcome.applyTo (outcome : ReportOutcome) (item : ContentItem) : ContentItem :=
  match outcome with
  | .added =>
    { item with
      reports := Saturating.add item.reports 1
      obfuscated := if item.reviewed then item.obfuscated else true }
  | .removed =>
    let left := max (Saturating.sub item.reports 1) 0
    { item with
      reports := left
      obfuscated := if left = 0 ∧ ¬item.reviewed then false else item.obfuscated }

/-- What an action does, given whether the user has reported the item and whether the item is
reviewed. -/
def reportTransition (reported : Bool) (action : ReportAction) (reviewed : Bool) :
    Except ReportRejected (Transition ReportOutcome) :=
  match action with
  | .report _ =>
    if reviewed then .error .alreadyReviewed
    else if reported then .ok .noOp
    else .ok (.apply .added)
  | .withdraw => if reported then .ok (.apply .removed) else .ok .noOp

namespace EngagementRecord

/-- The record with a report added for the reason of the action, or removed. -/
def withReport (record : EngagementRecord) (action : ReportAction) : ReportOutcome →
    EngagementRecord
  | .added =>
    { record with
      reported := true
      reason := match action with
        | .report reason => reason
        | .withdraw => none }
  | .removed => { record with reported := false, reason := none }

/-- The record after an action on an item that is reviewed or not, with what it does to the
item. -/
def report (record : EngagementRecord) (action : ReportAction) (reviewed : Bool) :
    Except ReportRejected (Transition (EngagementRecord × ReportOutcome)) :=
  match reportTransition record.reported action reviewed with
  | .error rejected => .error rejected
  | .ok .noOp => .ok .noOp
  | .ok (.apply outcome) => .ok (.apply (record.withReport action outcome, outcome))

end EngagementRecord

/-- Exactly reports of reviewed items are rejected. -/
theorem reportTransition_eq_error_iff {reported reviewed : Bool} {action : ReportAction} :
    reportTransition reported action reviewed = .error .alreadyReviewed ↔
      reviewed = true ∧ ∃ reason, action = .report reason := by
  cases action <;> cases reported <;> cases reviewed <;> simp [reportTransition]

end HiveForum
