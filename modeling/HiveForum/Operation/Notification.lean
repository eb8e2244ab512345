import HiveForum.Content.Encoding

/-!
# Notifications

Users are told of comments on their posts and of votes for what they wrote.

## Main definitions

* `Notification`: what users are told.
* `Notification.toJson`: a notification as JSON, tagged with its type.
-/

namespace HiveForum

/-- What users are told after an action. -/
inductive Notification where
  | commentCreated (hive : ScopeId) (post comment : ContentId) (author postAuthor : UserId)
  | upVoted (hive : ScopeId) (content : ContentKey) (voter contentAuthor : UserId)
deriving DecidableEq

/-- The notification as a value. -/
def Notification.toJson : Notification → Json
  | .commentCreated hive post comment author postAuthor =>
    .record
      [("type", .text "comment_created"), ("hive_id", .text hive.uuid.text),
       ("post_id", .text post.uuid.text), ("comment_id", .text comment.uuid.text),
       ("author_id", .text author.name), ("post_author_id", .text postAuthor.name)]
  | .upVoted hive content voter contentAuthor =>
    .record
      [("type", .text "up_voted"), ("hive_id", .text hive.uuid.text),
       ("content", content.toJson), ("voter_id", .text voter.name),
       ("content_author_id", .text contentAuthor.name)]

end HiveForum
