import HiveForum.Proofs.Forum.Activity
import HiveForum.Proofs.Forum.Discussion

/-!
# Undisturbed turns

Where operations come to their ends one after another, no call fails and no deletion does, nothing
is left half done: the count of comments of every post is the number of the items in its scope, and
its time of activity is that of the latest comment that was written under it.

## Main definitions

* `Forum.Counted`: the counts of comments are right.
* `Forum.Undisturbed`: what undisturbed turns have made of the blank forum.

## Main results

* `Forum.Counted.becomes`, `Forum.Counted.deleted`: what an operation and a deletion make of the
  counts of comments.
* `Forum.Undisturbed.upheld`, `Forum.Undisturbed.counted`: what holds after undisturbed turns.
-/

namespace HiveForum

namespace Forum

/-- The count of comments of every post that is stored is the number of the items in its scope. -/
def Counted (forum : Forum) : Prop :=
  ∀ key post, forum.store.item? key = some post → post.kind = .post →
    post.comments.toInt = (forum.store.scopeItems post.id.asScope).length

theorem Counted.edited {store : StoreState} {created : List ContentItem} {key : ContentKey}
    {item item' : ContentItem} (h : Counted ⟨store, created⟩) (found : store.item? key = some item)
    (same : item'.key = item.key) (kind : item'.kind = item.kind)
    (comments : item'.comments.toInt = item.comments.toInt) :
    Counted ⟨store.putItem key item', created⟩ := by
  intro key' post hpost hkind
  dsimp only at hpost ⊢
  rw [StoreState.length_scopeItems_edit found]
  rw [StoreState.item?_putItem] at hpost
  split at hpost
  · obtain rfl := Option.some.inj hpost
    rw [comments, show item'.id = item.id from congrArg ContentKey.id same]
    exact h key item found (kind.symm.trans hkind)
  · exact h key' post hpost hkind

variable {site : Site} {outlook : Outlook} {forum later : Forum}

/-! ### Operations that do not delete -/

section

variable (h : forum.Counted) (sound : forum.Sound outlook)

include h sound

/-- Nothing has been written under a post that is stored. -/
theorem Counted.posted {post : ContentItem}
    (after : Sound ⟨site, forum.created ++ [post], fun _ => False⟩
      ⟨forum.store.putItem post.key post, forum.created ++ [post]⟩)
    (distinct : DistinctIds site ⟨forum.store.putItem post.key post, forum.created ++ [post]⟩)
    (kind : post.kind = .post) (fresh : post.asCreated = post)
    (unused : forum.Unused outlook.site post.id) :
    Counted ⟨forum.store.putItem post.key post, forum.created ++ [post]⟩ := by
  intro key item hitem hkind
  dsimp only at hitem ⊢
  have hlast : post ∈ forum.created ++ [post] := List.mem_append_right _ List.mem_cons_self
  have hscope : item.asCreated.id.asScope ≠ post.scope :=
    after.post_scope_ne distinct hlast kind (after.items key item hitem).2
  rw [StoreState.scopeItems_putItem_of_ne hscope]
  rw [StoreState.item?_putItem] at hitem
  split at hitem
  · obtain rfl := Option.some.inj hitem
    rw [sound.scopeItems_eq_nil unused, ← fresh]
    rfl
  · exact h key item hitem hkind

/-- A comment is stored, and the post above it counts it. -/
theorem Counted.commented {post post' comment : ContentItem} {key : ContentKey}
    (found : forum.store.item? key = some post) (postKind : post.kind = .post)
    (kind : comment.kind = .comment) (scope : comment.scope = post.id.asScope)
    (vacant : forum.store.item? comment.key = none) (moves : post.Moves post' 0 0 1 0)
    (room : (forum.store.scopeItems post.id.asScope).length < 9223372036854775807) :
    Counted ⟨(forum.store.putItem comment.key comment).putItem key post',
      forum.created ++ [comment]⟩ := by
  have hne : key ≠ comment.key := by
    rintro rfl
    rw [vacant] at found
    cases found
  have hfound : (forum.store.putItem comment.key comment).item? key = some post := by
    rw [StoreState.item?_putItem, if_neg hne, found]
  intro key' item hitem hkind
  dsimp only at hitem ⊢
  rw [StoreState.length_scopeItems_edit hfound]
  rw [StoreState.item?_putItem] at hitem
  split at hitem
  · obtain rfl := Option.some.inj hitem
    have hput := forum.store.length_scopeItems_putItem comment.key comment
    rw [vacant, show comment.key.scope = post.id.asScope from scope] at hput
    have hcomments := moves.comments
    rw [h key post found postKind] at hcomments
    rw [show post'.id = post.id from congrArg ContentKey.id moves.key, hcomments]
    simp only [Option.isSome_none, Bool.toNat_false, Nat.add_zero] at hput
    omega
  · rw [StoreState.item?_putItem] at hitem
    split at hitem
    · obtain rfl := Option.some.inj hitem
      rw [kind] at hkind
      cases hkind
    · rename_i hkey _
      rw [StoreState.scopeItems_putItem_of_ne, h key' item hitem hkind]
      intro heq
      have hid : item.id = post.id :=
        congrArg (fun scope : ScopeId => scope.asContent) (heq.trans scope)
      exact hkey (sound.key_eq hitem found hid)

end

/-- The counts of comments are right after an operation that does not delete. -/
theorem Counted.becomes (h : forum.Counted)
    (sound : forum.Sound ⟨site, forum.created, fun _ => False⟩)
    (after : later.Sound ⟨site, later.created, fun _ => False⟩) (distinct : later.DistinctIds site)
    (room : forum.created.length < 9223372036854775807) (becomes : forum.Becomes later) :
    later.Counted := by
  have unmoved : ∀ {store : StoreState} {key : ContentKey} {item item' : ContentItem}
      {up down reports : Int}, Counted ⟨store, forum.created⟩ → store.item? key = some item →
        item.Nonneg → item.Moves item' up down 0 reports →
          Counted ⟨store.putItem key item', forum.created⟩ :=
    fun hcounted found nonneg moves => hcounted.edited found moves.key moves.kind
      (moves.comments.trans (Int64.toInt_eq_clamp nonneg.comments).symm)
  cases becomes with
  | same => exact h
  | posted kind fresh vacant =>
    exact h.posted sound after distinct kind fresh distinct.unused_last
  | commented found postKind kind _ scope vacant moves =>
    exact h.commented sound found postKind kind scope vacant moves
      (Nat.lt_of_le_of_lt (sound.length_scopeItems_le _) room)
  | @engaged key item item' record _ _ _ found content flips moves =>
    have hrecord : Counted ⟨forum.store.withRecord record, forum.created⟩ := h
    exact unmoved hrecord found (sound.nonneg key item found) moves
  | marked flips => exact h
  | edited found moves => exact unmoved h found (sound.nonneg _ _ found) moves

/-! ### Deletions -/

section

variable {root : ContentItem} (sound : forum.Sound outlook)
  (distinct : forum.DistinctIds outlook.site) (stored : forum.store.item? root.key = some root)

include sound distinct stored

theorem Sound.scopeItems_withoutTree {key : ContentKey} {post : ContentItem}
    (found : forum.store.item? key = some post) (other : key ≠ root.key)
    (notAbove : root.kind = .comment → root.parentKey ≠ key) :
    (forum.store.withoutTree root).scopeItems post.id.asScope =
      forum.store.scopeItems post.id.asScope := by
  refine StoreState.scopeItems_congr fun id => ?_
  rw [StoreState.item?_withoutTree, if_neg]
  rintro (heq | ⟨-, hscope⟩)
  · have hscope : root.scope = post.id.asScope := (congrArg ContentKey.scope heq).symm
    obtain ⟨hkind, -, hparent⟩ := sound.parentKey_eq distinct found stored hscope
    exact notAbove hkind hparent
  · have hid : post.id = root.id := congrArg (fun scope : ScopeId => scope.asContent) hscope
    exact other (sound.key_eq found stored hid)

/-- The counts of comments are right after a deletion that has ended well. -/
theorem Counted.deleted (h : forum.Counted) (deleted : forum.Deleted .calm root later) :
    later.Counted := by
  obtain rfl : later = ⟨(forum.store.withoutTree root).uncounted root, forum.created⟩ :=
    deleted.resolve_right fun ⟨⟨_, hrefused⟩, _⟩ => hrefused
  have before : ∀ {key post}, (forum.store.withoutTree root).item? key = some post →
      key ≠ root.key ∧ forum.store.item? key = some post := by
    intro key post hpost
    rw [StoreState.item?_withoutTree] at hpost
    split at hpost
    · cases hpost
    · rename_i hkept
      exact ⟨fun heq => hkept (.inl heq), hpost⟩
  have kept : ∀ {key post}, (forum.store.withoutTree root).item? key = some post →
      (root.kind = .comment → root.parentKey ≠ key) → post.kind = .post →
        post.comments.toInt =
          ((forum.store.withoutTree root).scopeItems post.id.asScope).length := by
    intro key post hpost notAbove hkind
    obtain ⟨hother, hfound⟩ := before hpost
    rw [sound.scopeItems_withoutTree distinct stored hfound hother notAbove]
    exact h key post hfound hkind
  by_cases hcounted : ∃ post, root.kind = .comment ∧
      (forum.store.withoutTree root).item? root.parentKey = some post
  · obtain ⟨post, hcomment, hpost⟩ := hcounted
    have hfound := (before hpost).2
    obtain ⟨hkind, -, -, hlength⟩ := sound.withoutTree_parent distinct stored hcomment hfound
    rw [StoreState.uncounted_of_comment (sound.nonneg _ post hfound) hcomment hpost]
    have moves := (CountChange.ofComments (-1)).moves post
    have hpostComments := moves.comments
    rw [h _ post hfound hkind, show (CountChange.ofComments (-1)).comments.toInt = -1 from rfl]
      at hpostComments
    intro key item hitem hitemKind
    dsimp only at hitem ⊢
    rw [StoreState.length_scopeItems_edit hpost]
    rw [StoreState.item?_putItem] at hitem
    split at hitem
    · obtain rfl := Option.some.inj hitem
      rw [hpostComments, show ((CountChange.ofComments (-1)).applyTo post).id = post.id from rfl]
      have hroom := post.comments.toInt_lt
      rw [h _ post hfound hkind] at hroom
      omega
    · rename_i hne
      exact kept hitem (fun _ heq => hne heq.symm) hitemKind
  · rw [StoreState.uncounted_eq_self fun hkind => Option.eq_none_iff_forall_ne_some.2
      fun post hpost => hcounted ⟨post, hkind, hpost⟩]
    intro key item hitem hitemKind
    refine kept hitem (fun hkind heq => hcounted ⟨item, hkind, ?_⟩) hitemKind
    rw [heq]
    exact hitem

end

/-! ### Turns -/

/-- What turns have made of the blank forum, with their journal, if each came to its end, no call
failed, and every deletion ended well. -/
inductive Undisturbed (site : Site) : Forum × Journal → Prop where
  | blank : Undisturbed site (.blank, [])
  | turn {state after : Forum × Journal} {turn : Turn}
      {thread : Thread turn.invocation.operation.Result}
      {result : Except OperationError turn.invocation.operation.Result}
      (undisturbed : Undisturbed site state) (fits : turn.Fits site)
      (calm : turn.conditions = .calm) (run : turn.Runs site state thread after)
      (ended : thread.result? = some result)
      (well : turn.invocation.operation.isDeletion = true → ∃ value, result = .ok value) :
      Undisturbed site after

/-- After undisturbed turns items are dated, and the times of activity are right if the time stamps
increase. -/
theorem Undisturbed.upheld {state : Forum × Journal} (h : Undisturbed site state) :
    Upheld site .none state := by
  induction h with
  | blank => exact upheld_blank
  | turn _ fits calm run ended _ ih => exact ih.turn fits calm run ended

/-- A turn keeps the counts of comments right in which no call fails and no deletion does. -/
theorem Counted.turn {state after : Forum × Journal} {turn : Turn}
    {thread : Thread turn.invocation.operation.Result}
    {result : Except OperationError turn.invocation.operation.Result}
    (h : state.1.Counted) (reachable : state.1.Reachable site) (fits : turn.Fits site)
    (calm : turn.conditions = .calm) (run : turn.Runs site state thread after)
    (ended : thread.result? = some result)
    (well : turn.invocation.operation.isDeletion = true → ∃ value, result = .ok value)
    (room : after.1.created.length < 9223372036854775807) : after.1.Counted := by
  obtain ⟨sound, distinct⟩ := reachable.sound
  obtain ⟨sound', distinct'⟩ := (run.reachable fits reachable).sound
  have steps : Thread.Steps ((turn.place site).responses turn.conditions)
      turn.invocation.thread.2 state.1 thread after.1 := run.of_journaled.imp And.left
  rw [calm] at steps
  obtain ⟨directory, conditions, ⟨settings, horizon, operation⟩⟩ := turn
  by_cases hdeletion : operation.isDeletion = true
  · obtain ⟨value, rfl⟩ := well hdeletion
    cases operation with
    | deleteContent caller target =>
      obtain hsame | ⟨root, hroot, ⟨⟨_, herror⟩, -⟩ | hdeleted⟩ :=
        deletes_of_steps Conditions.honest_calm sound distinct steps ended
      · rw [hsame]
        exact h
      · cases herror
      · exact h.deleted sound distinct hroot hdeleted
    | _ => cases hdeletion
  · have room := Nat.lt_of_le_of_lt run.created_prefix.length_le room
    exact h.becomes sound sound' distinct' room
      (becomes_of_steps sound (Bool.eq_false_iff.2 hdeletion) steps ended)

/-- After undisturbed turns the counts of comments are right, if there is room for them. -/
theorem Undisturbed.counted {state : Forum × Journal} (h : Undisturbed site state)
    (room : state.1.created.length < 9223372036854775807) : state.1.Counted := by
  induction h with
  | blank => exact fun _ _ hpost => by cases hpost
  | turn before fits calm run ended well ih =>
    have hbefore := ih (Nat.lt_of_le_of_lt run.created_prefix.length_le room)
    exact hbefore.turn before.upheld.reachable fits calm run ended well room

end Forum

end HiveForum
