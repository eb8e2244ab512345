/-!
# Deadlines

A deadline is a point on a clock that counts milliseconds.

## Main definitions

* `Deadline`: the point in time by which something must be done.
* `Deadline.earliest`: the earlier of two deadlines.
* `Deadline.remaining`, `Deadline.isExpired`: a deadline seen from a time.

## Main results

* `Deadline.isExpired_iff`: a deadline has expired exactly when no time remains.
-/

namespace HiveForum

/-- A point in time by which something must be done, in milliseconds. -/
structure Deadline where
  instant : Nat
deriving DecidableEq, Inhabited

namespace Deadline

/-- The deadline `timeout` milliseconds from now. -/
def after (now timeout : Nat) : Deadline := ⟨now + timeout⟩

/-- The earlier of a deadline and another one, if there is another one. -/
def earliest (deadline : Deadline) : Option Deadline → Deadline
  | none => deadline
  | some other => if other.instant < deadline.instant then other else deadline

/-- The milliseconds left. -/
def remaining (deadline : Deadline) (now : Nat) : Nat := deadline.instant - now

/-- Whether the point in time is reached. -/
def isExpired (deadline : Deadline) (now : Nat) : Bool := decide (deadline.instant ≤ now)

/-- A deadline has expired exactly when no time remains. -/
theorem isExpired_iff (deadline : Deadline) (now : Nat) :
    deadline.isExpired now = true ↔ deadline.remaining now = 0 := by
  simp only [isExpired, remaining, decide_eq_true_eq]
  omega

theorem instant_earliest (deadline other : Deadline) :
    (deadline.earliest (some other)).instant = min deadline.instant other.instant := by
  simp only [earliest]
  split <;> omega

end Deadline

end HiveForum
