import HiveForum.Proofs.Deletion.Tree
import HiveForum.Proofs.Forum.Answers
import HiveForum.Proofs.Forum.Asking

/-!
# What is owed to the count of comments

A comment is stored before the post above it counts it, and it is removed before the post counts it
off. In between its operation owes the post a change of the count. Where no call fails and the post
is not deleted, every operation pays what it owes before it ends.

## Main definitions

* `Duty`: what an operation owes to the count of comments of a post.
* `Effect.Ignores`: an effect is about neither the comments of a post nor their number.
* `Forum.Keeps`: the post is stored in a forum that can be reached.
* `Forum.discussion`: the protocol by which comments of a post are counted.
* `Operation.Removes`: an operation is the deletion of an item.

## Main results

* `Operation.follows_discussion`: operations that do not delete the post follow the protocol.
-/

namespace HiveForum

open Program

/-- What an operation owes to the count of comments of a post. -/
inductive Duty where
  | none
  | count
  | uncount
deriving DecidableEq

/-- An effect is about neither the comments of a post nor their number. -/
def Effect.Ignores (post : ContentItem) : Effect → Prop
  | .store (.putContent item) => item.scope ≠ post.id.asScope
  | .store (.adjustCounts key _) => key ≠ post.key
  | .store (.commitVote _ _ change) => change.comments = 0
  | .store (.deleteContent key) => key ≠ post.key ∧ key.scope ≠ post.id.asScope
  | _ => True

/-- How the duty of an operation changes with an effect on the comments of a post. -/
inductive Duty.Moves (post : ContentItem) :
    Duty → (effect : Effect) → effect.Reply → Duty → Prop where
  | refused {duty : Duty} {request : Request} {error : StoreError} :
      Moves post duty (.store request) (.error error) duty
  | write {item : ContentItem} (scope : item.scope = post.id.asScope) :
      Moves post .none (.store (.putContent item)) (.ok ()) .count
  | count {item : ContentItem} :
      Moves post .count (.store (.adjustCounts post.key (.ofComments 1))) (.ok item) .none
  | remove {key : ContentKey} (scope : key.scope = post.id.asScope) :
      Moves post .none (.store (.deleteContent key)) (.ok ()) .uncount
  | uncount {item : ContentItem} :
      Moves post .uncount (.store (.adjustCounts post.key (.ofComments (-1)))) (.ok item) .none

namespace Forum

/-- The forum can be reached, and the post is stored in it. -/
structure Keeps (site : Site) (post : ContentItem) (forum : Forum) : Prop where
  reachable : forum.Reachable site
  stored : ∃ item, forum.store.item? post.key = some item ∧ item.asCreated = post.asCreated

/-- How the comments of a post are counted while it is stored and no call fails. -/
def discussion (site : Site) (post : ContentItem) : Protocol Duty where
  Told := site.Tells .calm (Keeps site post)
  Apart := Effect.Ignores post
  Moves := Duty.Moves post
  home := .none

end Forum

/-- The operation is the deletion of an item. -/
def Operation.Removes (key : ContentKey) : Operation → Prop
  | .deleteContent _ target => target.content = key
  | _ => False

/-- The operation neither writes a comment on a post nor deletes the post or a comment on it. -/
def Operation.Elsewhere (post : ContentItem) : Operation → Prop
  | .createComment _ _ id _ => id ≠ post.id
  | .deleteContent _ target => target.content ≠ post.key ∧ target.content.scope ≠ post.id.asScope
  | _ => True

theorem Effect.ignores_of_isSilent (post : ContentItem) {effect : Effect}
    (h : effect.isSilent = true) : effect.Ignores post := by
  cases effect with
  | store request => cases request <;> trivial
  | _ => trivial

section

variable {site : Site} {post : ContentItem}

theorem Site.Tells.adjustCounts {change : CountChange} {reply : Except StoreError ContentItem}
    (told : site.Tells .calm (Forum.Keeps site post) (.store (.adjustCounts post.key change))
      reply) :
    ∃ item, reply = .ok item := by
  obtain ⟨forum, after, keeps, answer⟩ := told
  obtain ⟨item, hitem, -⟩ := keeps.stored
  cases reply with
  | ok item => exact ⟨item, rfl⟩
  | error error =>
    obtain ⟨rfl, hfailed | ⟨-, hrefused⟩⟩ := answer.of_error Conditions.honest_calm
    · simp [StoreState.perform, StoreState.updateItem, hitem] at hfailed
    · exact hrefused.elim

theorem Forum.Finds.eq_key {key : ContentKey} {item : ContentItem}
    (h : Forum.Finds (Forum.Keeps site post) key item) (id : key.id = post.id) :
    key = post.key := by
  obtain ⟨forum, keeps, stored⟩ := h
  obtain ⟨other, hother, -⟩ := keeps.stored
  have hkey := (keeps.reachable.sound.1.items key item stored).1
  have hkey' := (keeps.reachable.sound.1.items post.key other hother).1
  refine keeps.reachable.sound.1.key_eq stored hother ?_
  rw [show item.id = key.id from congrArg ContentKey.id hkey, id]
  exact (congrArg ContentKey.id hkey').symm

theorem Forum.Finds.parentKey {key : ContentKey} {item : ContentItem}
    (h : Forum.Finds (Forum.Keeps site post) key item) (scope : key.scope = post.id.asScope) :
    item.kind = .comment ∧ item.parentKey = post.key := by
  obtain ⟨forum, keeps, stored⟩ := h
  obtain ⟨other, hother, -⟩ := keeps.stored
  obtain ⟨sound, distinct⟩ := keeps.reachable.sound
  have hid : other.id = post.id := congrArg ContentKey.id (sound.items _ other hother).1
  have hscope : item.scope = other.id.asScope := by
    rw [hid, ← scope]
    exact congrArg ContentKey.scope (sound.items key item stored).1
  obtain ⟨hkind, -, hparent⟩ := sound.parentKey_eq distinct hother stored hscope
  exact ⟨hkind, hparent⟩

variable {settings : Settings} {caller : Caller}

/-- A comment on the post is stored and then counted. -/
theorem follows_discussion_createComment {hive : ScopeId} {body : String} :
    Returns (Forum.discussion site post) (createComment caller hive post.id body) := by
  have lenient : ∀ effect : Effect, effect.isSilent = true →
      (Forum.discussion site post).Apart effect := fun _ => Effect.ignores_of_isSilent post
  refine (follows_authorize lenient).bind fun _ _ hrole => ?_
  obtain ⟨-, rfl⟩ := hrole
  refine follows_ofExcept.bind fun _ _ hlimit => ?_
  obtain ⟨-, rfl⟩ := hlimit
  refine (follows_loadTarget lenient).bind fun item _ hitem => ?_
  obtain ⟨hitem, -, rfl⟩ := hitem
  have shown := Site.Tells.getContent hitem
  have hkey : item.key = post.key :=
    (shown.key_eq fun _ keeps => keeps.reachable).trans (shown.eq_key rfl)
  dsimp only
  split
  · exact rfl
  · refine follows_perform (lenient _ rfl) fun time _ => ?_
    refine follows_perform (lenient _ rfl) fun id _ => ?_
    have hput : (call (.putContent (.newComment hive post.id id caller.user body time))).Follows
        (Forum.discussion site post) .none fun _ stage => stage = .count := by
      intro reply _
      cases reply with
      | ok answer => exact ⟨.count, .inr (.write rfl), rfl⟩
      | error error => exact ⟨.none, .inr .refused, rfl⟩
    refine hput.bind fun _ stage hstage => ?_
    subst hstage
    rw [hkey]
    refine follows_move .none (fun reply told => ?_) fun _ _ => ?_
    · obtain ⟨counted, rfl⟩ := Site.Tells.adjustCounts told
      exact .count
    refine follows_perform trivial fun _ _ => ?_
    exact follows_perform trivial fun _ _ => rfl

/-- A comment on the post is removed and then counted off. -/
theorem follows_discussion_deleteContent {horizon : Nat} {target : Target}
    (scope : target.content.scope = post.id.asScope) :
    Returns (Forum.discussion site post) (deleteContent settings horizon caller target) := by
  have lenient : ∀ effect : Effect, effect.isSilent = true →
      (Forum.discussion site post).Apart effect := fun _ => Effect.ignores_of_isSilent post
  refine (follows_authorize lenient).bind fun role _ hrole => ?_
  obtain ⟨-, rfl⟩ := hrole
  have hload := (@follows_loadTarget _ (Forum.discussion site post) target lenient).weaken
    fun item stage h => (⟨h.1, h.2.2⟩ : _ ∧ _)
  refine (follows_unlessNotFound hload).bind fun found _ hfound => ?_
  obtain ⟨hfound, rfl⟩ := hfound
  cases found with
  | none => exact rfl
  | some item =>
    have shown := Site.Tells.getContent (hfound item rfl)
    have hkey : item.key = target.content := shown.key_eq fun _ keeps => keeps.reachable
    obtain ⟨hkind, hparent⟩ := shown.parentKey scope
    dsimp only
    split
    · exact rfl
    · have hcascade : (cascade settings horizon horizon item.key item.kind).Follows
          (Forum.discussion site post) .none
          fun deleted stage => stage = if deleted then .uncount else .none := by
        rw [hkind]
        refine follows_cascade_comment lenient (fun _ => trivial) ⟨.inr (.remove ?_), rfl⟩
          (fun _ => .inr .refused) rfl
        rw [hkey, scope]
      refine hcascade.bind fun deleted stage hstage => ?_
      subst hstage
      cases deleted with
      | false => exact rfl
      | true =>
        simp only [hkind, and_self, ↓reduceIte]
        refine follows_move .none (fun reply told => ?_) fun _ _ => rfl
        rw [show (⟨item.hive, item.scope.asContent⟩ : ContentKey) = post.key from hparent]
          at reply told ⊢
        obtain ⟨counted, rfl⟩ := Site.Tells.adjustCounts told
        exact .uncount

variable (kind : post.kind = .post)

include kind

theorem Forum.Finds.scope_ne {key : ContentKey} {item : ContentItem}
    (h : Forum.Finds (Forum.Keeps site post) key item) : key.id.asScope ≠ post.scope := by
  obtain ⟨forum, keeps, stored⟩ := h
  obtain ⟨other, hother, hsame⟩ := keeps.stored
  obtain ⟨sound, distinct⟩ := keeps.reachable.sound
  obtain ⟨rfl, hcreated⟩ := sound.items key item stored
  have hpost : post.asCreated ∈ forum.created := hsame ▸ (sound.items _ other hother).2
  have hne := sound.post_scope_ne distinct hpost kind hcreated
  exact hne

/-- Whatever an operation elsewhere asks ignores the comments of the post. -/
theorem Operation.Elsewhere.permits {op : Operation} (h : op.Elsewhere post)
    (notHive : site.directory.hives.get? post.id.asScope = none) :
    (Forum.discussion site post).Permits site (Forum.Keeps site post) op := by
  intro effect asks
  cases asks with
  | silent hsilent => exact Effect.ignores_of_isSilent post hsilent
  | post scope known =>
    intro hscope
    rw [← scope, hscope, notHive] at known
    cases known
  | comment scope =>
    intro hscope
    exact h (congrArg ScopeId.asContent (scope.symm.trans hscope))
  | count => exact fun hkey => h (congrArg ContentKey.id hkey)
  | remove => exact h
  | removeBelow shown below =>
    refine ⟨?_, fun hscope => h.1 (shown.eq_key ?_)⟩
    · rintro rfl
      exact shown.scope_ne kind below.symm
    · exact congrArg ScopeId.asContent (below.symm.trans hscope)
  | uncount shown above =>
    rintro rfl
    exact h.2 above.symm
  | vote => rfl
  | _ => trivial

/-- An operation that does not delete the post pays what it owes to the count of comments. -/
theorem Operation.follows_discussion (op : Operation) (other : ¬op.Removes post.key)
    (notHive : site.directory.hives.get? post.id.asScope = none) (horizon : Nat) :
    Returns (Forum.discussion site post) (op.program settings horizon) := by
  have elsewhere : op.Elsewhere post →
      Returns (Forum.discussion site post) (op.program settings horizon) := fun h =>
    op.follows (fun _ _ => id) (fun _ keeps => keeps.reachable) (h.permits kind notHive) _ _
  cases op with
  | createComment caller hive id body =>
    by_cases hid : id = post.id
    · subst hid
      exact follows_discussion_createComment
    · exact elsewhere hid
  | deleteContent caller target =>
    by_cases hscope : target.content.scope = post.id.asScope
    · exact follows_discussion_deleteContent hscope
    · exact elsewhere ⟨other, hscope⟩
  | _ => exact elsewhere trivial

end

end HiveForum
