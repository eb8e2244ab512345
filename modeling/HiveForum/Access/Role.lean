import HiveForum.Identity

/-!
# Callers and roles

## Main definitions

* `Role`: the standing of a member in a hive, in increasing order.
* `Role.permits`: whether a role suffices for an action.
* `Caller`: who makes a request.
* `AccessError`: why a caller is turned away, each with its text.

## Main results

* `Role.permits_trans`: what suffices for more suffices for less.
-/

namespace HiveForum

/-- The standing of a member in a hive. -/
inductive Role where
  | member
  | moderator
  | owner
deriving DecidableEq, Inhabited

namespace Role

/-- The name of the role. -/
def name : Role → String
  | .member => "member"
  | .moderator => "moderator"
  | .owner => "owner"

/-- The rank of the role, from zero. -/
def rank : Role → Nat
  | .member => 0
  | .moderator => 1
  | .owner => 2

/-- Whether the role suffices for an action that requires `required`. -/
def permits (role required : Role) : Bool := decide (required.rank ≤ role.rank)

/-- What suffices for more suffices for less. -/
theorem permits_trans {a b c : Role} (hab : a.permits b = true) (hbc : b.permits c = true) :
    a.permits c = true := by
  simp only [permits, decide_eq_true_eq] at *
  omega

end Role

/-- Who makes a request. -/
structure Caller where
  user : UserId
  /-- Whether the user administers the site; administrators act as owners of every hive. -/
  isAdmin : Bool
deriving DecidableEq, Inhabited

/-- Why a caller is turned away. -/
inductive AccessError where
  | hiveNotFound
  | notMember
  | forbidden (required : Role)
  | unavailable (reason : String)
deriving DecidableEq

/-- The text of the error. -/
def AccessError.message : AccessError → String
  | .hiveNotFound => "hive not found"
  | .notMember => "caller is not a member of the hive"
  | .forbidden required => s!"caller lacks the {required.name} role"
  | .unavailable reason => s!"authorization backend unavailable: {reason}"

end HiveForum
