import HiveForum.Operation.Engage
import HiveForum.Operation.Remove

/-!
# The operations of the forum

## Main definitions

* `Operation`: what can be asked of the forum, with its arguments.
* `Operation.Result`: the type of what an operation gives.
* `Operation.program`: the program of an operation.
-/

namespace HiveForum

/-- What can be asked of the forum. -/
inductive Operation where
  | createPost (caller : Caller) (hive : ScopeId) (body : String) (tags : List TagId)
  | createComment (caller : Caller) (hive : ScopeId) (post : ContentId) (body : String)
  | getContent (caller : Caller) (target : Target)
  | markReviewed (caller : Caller) (target : Target)
  | setPinned (caller : Caller) (target : Target) (pinned : Bool)
  | deleteContent (caller : Caller) (target : Target)
  | vote (caller : Caller) (target : Target) (request : VoteRequest)
  | setSaved (caller : Caller) (target : Target) (saved : Bool)
  | report (caller : Caller) (target : Target) (reason : Option String)
  | withdrawReport (caller : Caller) (target : Target)
  | getEngagement (caller : Caller) (target : Target)
  | lookupEngagement (caller : Caller) (hive : ScopeId) (contents : List ContentId)
  | listContent (caller : Caller) (hive : ScopeId) (request : ListRequest)
  | ping
deriving DecidableEq

namespace Operation

/-- The type of what an operation gives. -/
abbrev Result : Operation → Type
  | .createPost .. => ContentItem
  | .createComment .. => ContentItem
  | .getContent .. => ContentItem
  | .markReviewed .. => ContentItem
  | .setPinned .. => ContentItem
  | .deleteContent .. => Unit
  | .vote .. => EngagementRecord
  | .setSaved .. => EngagementRecord
  | .report .. => EngagementRecord
  | .withdrawReport .. => EngagementRecord
  | .getEngagement .. => EngagementRecord
  | .lookupEngagement .. => Table ContentId EngagementRecord
  | .listContent .. => ListPage
  | .ping => Unit

/-- The program of an operation. The horizon bounds the pages of its walks and the depth of a
deletion; a program that would go beyond it has not come to an end. -/
def program (settings : Settings) (horizon : Nat) : (op : Operation) → Program op.Result
  | .createPost caller hive body tags => HiveForum.createPost caller hive body tags
  | .createComment caller hive post body => HiveForum.createComment caller hive post body
  | .getContent caller target => HiveForum.getContent caller target
  | .markReviewed caller target => HiveForum.markReviewed caller target
  | .setPinned caller target pinned => HiveForum.setPinned caller target pinned
  | .deleteContent caller target => HiveForum.deleteContent settings horizon caller target
  | .vote caller target request => HiveForum.vote settings caller target request
  | .setSaved caller target saved => HiveForum.setSaved settings caller target saved
  | .report caller target reason => HiveForum.report settings caller target reason
  | .withdrawReport caller target => HiveForum.withdrawReport settings caller target
  | .getEngagement caller target => HiveForum.getEngagement caller target
  | .lookupEngagement caller hive contents => HiveForum.lookupEngagement caller hive contents
  | .listContent caller hive request => HiveForum.listContent settings horizon caller hive request
  | .ping => Program.call .ping

end Operation

end HiveForum
