import HiveForum.Operation.Settings
import HiveForum.Program.Basic

/-!
# Writing and moderating content

Members write posts and comments and read them; moderators review and pin them.

## Main definitions

* `loadTarget`: reads an item and checks that it belongs to the hive that was named.
* `createPost`, `createComment`, `getContent`, `markReviewed`, `setPinned`: the operations.
-/

namespace HiveForum

open Program

/-- Reads the addressed item; an item of another hive is not found. -/
def loadTarget (target : Target) : Program ContentItem := do
  let item ← call (.getContent target.content)
  if item.hive = target.hive then return item
  fail .notFound

/-- Writes a post. -/
def createPost (caller : Caller) (hive : ScopeId) (body : String) (tags : List TagId) :
    Program ContentItem := do
  let _ ← authorize caller hive
  ofExcept .ofLimit (checkBody body)
  ofExcept .ofLimit (checkTagCount tags.length Limit.itemTags)
  let time ← timestamp
  let id ← newContentId
  let post := ContentItem.newPost hive id caller.user body tags time
  call (.putContent post)
  return post

/-- Writes a comment on a post. The post's count of comments and its time of activity follow as
far as the store allows; the comment stands whether they do or not. -/
def createComment (caller : Caller) (hive : ScopeId) (postId : ContentId) (body : String) :
    Program ContentItem := do
  let _ ← authorize caller hive
  ofExcept .ofLimit (checkBody body)
  let post ← loadTarget ⟨hive, ⟨hive, postId⟩⟩
  if post.kind ≠ .post then
    fail (.badRequest .commentsOnPostsOnly)
  let time ← timestamp
  let id ← newContentId
  let comment := ContentItem.newComment hive postId id caller.user body time
  call (.putContent comment)
  let _ ← tryCall (.adjustCounts post.key (.ofComments 1))
  let _ ← tryCall (.touchActivity post.key comment.createdAt)
  notify (.commentCreated hive postId comment.id caller.user post.author)
  return comment

/-- Reads an item. -/
def getContent (caller : Caller) (target : Target) : Program ContentItem := do
  let _ ← authorize caller target.hive
  loadTarget target

/-- Reviews an item: it is shown again and takes no further reports. -/
def markReviewed (caller : Caller) (target : Target) : Program ContentItem := do
  let _ ← authorizeAs caller target.hive .moderator
  let _ ← loadTarget target
  call (.markReviewed target.content)

/-- Pins or unpins an item. -/
def setPinned (caller : Caller) (target : Target) (pinned : Bool) : Program ContentItem := do
  let _ ← authorizeAs caller target.hive .moderator
  let item ← loadTarget target
  if item.pinned = pinned then
    fail .noOp
  call (.setPinned target.content pinned)

end HiveForum
