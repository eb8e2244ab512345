import HiveForum.Simulation.Host

/-!
# Planned faults

A rehearsal of operations plans faults for the calls that they make: a change of the store just
before a call, an error instead of its answer, or a page in reverse order.

## Main definitions

* `CallKind`: the calls that faults are planned for.
* `Intervention`: a change of the store from outside.
* `Fault`, `FaultPlan`: the faults that are planned.
* `FaultPlan.take`: the fault that strikes the next call.
-/

namespace HiveForum

/-- The calls that operations make. -/
inductive CallKind where
  | ping
  | putContent
  | getContent
  | queryContent
  | adjustCounts
  | touchActivity
  | markReviewed
  | setPinned
  | deleteContent
  | getEngagement
  | lookupEngagement
  | putEngagement
  | commitReport
  | commitVote
  | queryEngagement
  | deleteEngagements
  | membership
deriving DecidableEq, Inhabited

/-- The kind of a request to the store. -/
def Request.kind : Request → CallKind
  | .ping => .ping
  | .putContent _ => .putContent
  | .getContent _ => .getContent
  | .queryContent _ => .queryContent
  | .adjustCounts _ _ => .adjustCounts
  | .touchActivity _ _ => .touchActivity
  | .markReviewed _ => .markReviewed
  | .setPinned _ _ => .setPinned
  | .deleteContent _ => .deleteContent
  | .getEngagement _ _ => .getEngagement
  | .lookupEngagement _ _ => .lookupEngagement
  | .putEngagement _ => .putEngagement
  | .commitReport _ _ _ => .commitReport
  | .commitVote _ _ _ => .commitVote
  | .queryEngagement _ => .queryEngagement
  | .deleteEngagements _ => .deleteEngagements

/-- A page of items in reverse order; every other answer as it is. -/
def Request.reversed : (request : Request) → request.Answer → request.Answer
  | .queryContent _, page => { page with items := page.items.reverse }
  | .ping, answer => answer
  | .putContent _, answer => answer
  | .getContent _, answer => answer
  | .adjustCounts _ _, answer => answer
  | .touchActivity _ _, answer => answer
  | .markReviewed _, answer => answer
  | .setPinned _ _, answer => answer
  | .deleteContent _, answer => answer
  | .getEngagement _ _, answer => answer
  | .lookupEngagement _ _, answer => answer
  | .putEngagement _, answer => answer
  | .commitReport _ _ _, answer => answer
  | .commitVote _ _ _, answer => answer
  | .queryEngagement _, answer => answer
  | .deleteEngagements _, answer => answer

/-- A change of the store from outside. -/
inductive Intervention where
  | request (request : Request)
  | setAvailable (available : Bool)
  /-- Sets the largest number of keys that one batch removes. -/
  | setWriteCapacity (capacity : Nat)
deriving DecidableEq

/-- A fault that is planned for calls of one kind. -/
structure Fault where
  call : CallKind
  skip : Nat := 0
  times : Nat := 1
  race : Option Intervention := none
  error : Option StoreError := none
  accessError : Option AccessError := none
  reverse : Bool := false
deriving DecidableEq

/-- The faults that are planned, the first to strike first. -/
abbrev FaultPlan : Type := List Fault

/-- The fault that strikes the next call of a kind, and the plan after it. The first fault for the
kind that has strikes left decides: it strikes, or it lets the call through. -/
def FaultPlan.take (kind : CallKind) : FaultPlan → Option Fault × FaultPlan
  | [] => (none, [])
  | fault :: rest =>
    if fault.call = kind ∧ 0 < fault.times then
      if 0 < fault.skip then (none, { fault with skip := fault.skip - 1 } :: rest)
      else (some fault, { fault with times := fault.times - 1 } :: rest)
    else
      let (taken, rest) := take kind rest
      (taken, fault :: rest)

/-- The number of strikes that are planned. -/
def FaultPlan.strikes (plan : FaultPlan) : Nat :=
  plan.foldr (fun fault strikes => fault.times + strikes) 0

end HiveForum
