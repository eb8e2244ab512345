import HiveForum.Proofs.Deletion.Removal
import HiveForum.Proofs.Engagement.Journal
import HiveForum.Proofs.Forum.Alone
import HiveForum.Proofs.Forum.Commenting
import HiveForum.Proofs.Forum.Lineage
import HiveForum.Proofs.Store.Census
import Mathlib.Data.List.Perm.Subperm

/-!
# Counting the comments of a post

Comments are written and deleted side by side. The count of comments of the post never falls below
zero, so that counting a comment off while it is zero is lost: once everybody is done, the count
exceeds the number of comments by the number of times that this has happened. As long as no more
comments are removed than have been counted, nothing is lost, and the count is right in the end.

## Main definitions

* `Event.removes`, `Event.counts`, `Event.loses`: what an effect does to the comments of a post.
* `Journal.InTime`: at no time have more comments been removed than have been counted.
* `Forum.Balanced`: the invariant of a run.

## Main results

* `Forum.Balanced.passes`: every effect that is in accordance with the protocol keeps the balance.
* `Forum.comments_counted`: the count of comments of a post once everybody is done.
-/

namespace HiveForum

open Program

/-! ### Journals -/

/-- An item of a scope has been removed. -/
def Event.removes (scope : ScopeId) : Event Forum → Bool
  | ⟨.store (.deleteContent key), _, .ok _, _⟩ => decide (key.scope = scope)
  | _ => false

/-- The item under a key has counted one comment more. -/
def Event.counts (key : ContentKey) : Event Forum → Bool
  | ⟨.store (.adjustCounts key' change), _, .ok _, _⟩ =>
    decide (key' = key ∧ change = .ofComments 1)
  | _ => false

/-- The item under a key was to count one comment less while it counted none. -/
def Event.loses (key : ContentKey) : Event Forum → Bool
  | ⟨.store (.adjustCounts key' change), before, .ok _, _⟩ =>
    decide (key' = key ∧ change = .ofComments (-1)) &&
      (before.store.item? key).any fun item => decide (item.comments = 0)
  | _ => false

namespace Journal

/-- The number of comments on a post that have been removed. -/
def removed (post : ContentItem) (journal : Journal) : Nat :=
  journal.countP (Event.removes post.id.asScope)

/-- The number of comments that a post has counted. -/
def counted (post : ContentItem) (journal : Journal) : Nat :=
  journal.countP (Event.counts post.key)

/-- The number of comments that were counted off a post while it counted none. -/
def lost (post : ContentItem) (journal : Journal) : Nat :=
  journal.countP (Event.loses post.key)

/-- At no time had more comments on a post been removed than the post had counted, with those that
there were to begin with. -/
def InTime (post : ContentItem) (number : Nat) (journal : Journal) : Prop :=
  ∀ earlier, earlier <+: journal → removed post earlier ≤ number + counted post earlier

/-- The numbers of comments on a post that have been removed, counted and lost. -/
structure Sums (post : ContentItem) (journal : Journal) (removes counts loses : Nat) : Prop where
  removed : journal.removed post = removes
  counted : journal.counted post = counts
  lost : journal.lost post = loses

variable {post : ContentItem} {journal journal' : Journal} {number : Nat}

theorem removed_append :
    removed post (journal ++ journal') = removed post journal + removed post journal' :=
  List.countP_append

theorem counted_append :
    counted post (journal ++ journal') = counted post journal + counted post journal' :=
  List.countP_append

theorem lost_append : lost post (journal ++ journal') = lost post journal + lost post journal' :=
  List.countP_append

theorem InTime.of_append (h : InTime post number (journal ++ journal')) :
    InTime post number journal :=
  fun earlier hearlier => h earlier (hearlier.trans (List.prefix_append _ _))

variable {before after : Forum}

/-- An effect that ignores the comments of a post does nothing to them. -/
theorem Sums.of_ignores {effect : Effect} {reply : effect.Reply} (h : effect.Ignores post) :
    Sums post [⟨effect, before, reply, after⟩] 0 0 0 := by
  cases effect with
  | store request =>
    cases request with
    | deleteContent key =>
      have hscope : key.scope ≠ post.id.asScope := h.2
      cases reply with
      | ok answer => exact ⟨by simp [Journal.removed, Event.removes, hscope], rfl, rfl⟩
      | error error => exact ⟨rfl, rfl, rfl⟩
    | adjustCounts key change =>
      have hkey : key ≠ post.key := h
      cases reply with
      | ok answer =>
        exact ⟨rfl, by simp [Journal.counted, Event.counts, hkey],
          by simp [Journal.lost, Event.loses, hkey]⟩
      | error error => exact ⟨rfl, rfl, rfl⟩
    | _ => exact ⟨rfl, rfl, rfl⟩
  | _ => exact ⟨rfl, rfl, rfl⟩

theorem Sums.of_error {request : Request} {error : StoreError} :
    Sums post [⟨.store request, before, .error error, after⟩] 0 0 0 := by
  cases request <;> exact ⟨rfl, rfl, rfl⟩

end Journal

/-- An effect that ignores the comments of a post changes neither their number nor the count. -/
theorem Site.Answer.of_ignores {site : Site} {conditions : Conditions} {post item : ContentItem}
    {effect : Effect} {forum after : Forum} {reply : effect.Reply}
    (answer : site.Answer conditions effect forum reply after) (h : effect.Ignores post)
    (nonneg : item.Nonneg) (found : forum.store.item? post.key = some item) :
    (after.store.scopeItems post.id.asScope).length =
        (forum.store.scopeItems post.id.asScope).length ∧
      ∃ item', after.store.item? post.key = some item' ∧
        item'.comments.toInt = item.comments.toInt := by
  -- an edit of some item that leaves the count of comments of the post
  have edited : ∀ {store : StoreState} {key : ContentKey} {old edited : ContentItem},
      (∀ key, store.item? key = forum.store.item? key) → forum.store.item? key = some old →
      (key = post.key → edited.comments.toInt = old.comments.toInt) →
      ((store.putItem key edited).scopeItems post.id.asScope).length =
          (forum.store.scopeItems post.id.asScope).length ∧
        ∃ item', (store.putItem key edited).item? post.key = some item' ∧
          item'.comments.toInt = item.comments.toInt := by
    intro store key old edited hstore hold hcomments
    refine ⟨?_, ?_⟩
    · rw [StoreState.length_scopeItems_edit ((hstore key).trans hold)]
      exact congrArg List.length (StoreState.scopeItems_congr fun id => hstore _)
    · rw [StoreState.item?_putItem]
      split
      · rename_i hkey
        rw [← hkey, found] at hold
        exact ⟨edited, rfl, (hcomments hkey.symm).trans (by rw [Option.some.inj hold])⟩
      · exact ⟨item, (hstore _).trans found, rfl⟩
  obtain rfl | ⟨request, store, rfl, change, rfl⟩ := answer.change
  · exact ⟨rfl, item, found, rfl⟩
  rw [Forum.after_store]
  cases change with
  | read => exact ⟨rfl, item, found, rfl⟩
  | @put new vacant =>
    have hne : post.key ≠ new.key := by
      intro heq
      rw [← heq, found] at vacant
      cases vacant
    have hscope : post.id.asScope ≠ new.key.scope := Ne.symm h
    refine ⟨by rw [StoreState.scopeItems_putItem_of_ne hscope], item, ?_, rfl⟩
    rw [StoreState.item?_putItem, if_neg hne, found]
  | edit edits hold =>
    refine edited (fun _ => rfl) hold fun hkey => ?_
    cases edits with
    | counts => exact absurd hkey h
    | _ => rfl
  | @remove key =>
    refine ⟨by rw [StoreState.scopeItems_removeItem_of_ne (Ne.symm h.2)], item, ?_, rfl⟩
    rw [StoreState.item?_removeItem, if_neg (Ne.symm h.1), found]
  | write => exact ⟨rfl, item, found, rfl⟩
  | @vote record key change old hold =>
    refine edited (fun _ => rfl) hold fun hkey => ?_
    have hcomments : change.comments = 0 := h
    rw [hkey, found] at hold
    obtain rfl := Option.some.inj hold
    rw [(change.moves item).comments, hcomments]
    exact (Int64.toInt_eq_clamp nonneg.comments).symm
  | @report record key outcome old hold =>
    refine edited (fun _ => rfl) hold fun hkey => ?_
    cases outcome <;> rfl
  | erase => exact ⟨rfl, item, found, rfl⟩

namespace Forum

/-- Identifiers are given out once, and fewer items have been stored than a word can count. -/
structure Roomy (site : Site) (forum : Forum) : Prop extends DistinctIds site forum where
  room : forum.created.length < 9223372036854775808

/-- The number of comments on a post is that of the comments there were, and of those that have been
counted or are still to be counted, without those that have been removed. The count of comments
includes those that are still to be counted off, and those that were lost. -/
structure Balanced (site : Site) (post : ContentItem) (number counting uncounting : Nat)
    (state : Forum × Journal) : Prop where
  keeps : state.1.Keeps site post
  stored : (state.1.store.scopeItems post.id.asScope).length + state.2.removed post =
    number + state.2.counted post + counting
  count : ∀ item, state.1.store.item? post.key = some item →
    item.comments.toInt + state.2.removed post =
      number + state.2.counted post + uncounting + state.2.lost post
  bound : ∀ item, state.1.store.item? post.key = some item →
    item.comments.toInt ≤ number + state.2.counted post
  room : number + state.2.counted post + counting ≤ state.1.created.length
  timely : state.2.InTime post number → state.2.lost post = 0

variable {site : Site} {conditions : Conditions} {post item item' : ContentItem} {effect : Effect}
  {reply : effect.Reply} {forum after : Forum} {journal : Journal} {event : Event Forum}
  {number counting uncounting counting' uncounting' : Nat}

/-- The balance after an effect. -/
theorem Balanced.next {removes counts loses : Nat}
    (h : Balanced site post number counting uncounting (forum, journal)) (fresh : Nat)
    (reachable : after.Reachable site) (found : forum.store.item? post.key = some item)
    (found' : after.store.item? post.key = some item') (same : item'.asCreated = item.asCreated)
    (sums : Journal.Sums post [event] removes counts loses)
    (stored : (after.store.scopeItems post.id.asScope).length + removes + counting =
      (forum.store.scopeItems post.id.asScope).length + counts + counting')
    (count : item'.comments.toInt + removes + uncounting =
      item.comments.toInt + counts + uncounting' + loses)
    (bound : item'.comments.toInt ≤ item.comments.toInt + counts)
    (created : forum.created.length + fresh ≤ after.created.length)
    (room : counts + counting' ≤ counting + fresh)
    (timely : 0 < loses → number + journal.counted post < journal.removed post) :
    Balanced site post number counting' uncounting' (after, journal ++ [event]) := by
  obtain ⟨⟨-, other, hother, hsame⟩, hstored, hcount, hbound, hroom, htimely⟩ := h
  obtain rfl := Option.some.inj (found.symm.trans hother)
  have hcount := hcount item found
  have hbound := hbound item found
  obtain ⟨hremoves, hcounts, hloses⟩ := sums
  dsimp only at hstored hcount hbound hroom
  constructor <;> dsimp only
  case keeps => exact ⟨reachable, item', found', same.trans hsame⟩
  case stored =>
    rw [Journal.removed_append, Journal.counted_append, hremoves, hcounts]
    omega
  case count =>
    intro other hother
    obtain rfl := Option.some.inj (found'.symm.trans hother)
    rw [Journal.removed_append, Journal.counted_append, Journal.lost_append, hremoves, hcounts,
      hloses]
    push_cast
    omega
  case bound =>
    intro other hother
    obtain rfl := Option.some.inj (found'.symm.trans hother)
    rw [Journal.counted_append, hcounts]
    push_cast
    omega
  case room =>
    rw [Journal.counted_append, hcounts]
    omega
  case timely =>
    intro intime
    have hle := intime.of_append journal (List.prefix_refl _)
    rw [Journal.lost_append, htimely intime.of_append, hloses]
    omega

theorem Balanced.ignored (h : Balanced site post number counting uncounting (forum, journal))
    (answer : site.Answer conditions effect forum reply after) (reachable : after.Reachable site)
    (ignores : effect.Ignores post) :
    Balanced site post number counting uncounting
      (after, journal ++ [⟨effect, forum, reply, after⟩]) := by
  obtain ⟨item, found, -⟩ := h.keeps.stored
  have nonneg := h.keeps.reachable.sound.1.nonneg _ item found
  obtain ⟨hlength, item', found', hcomments⟩ := answer.of_ignores ignores nonneg found
  exact h.next 0 reachable found found' (answer.asCreated_eq found found') (.of_ignores ignores)
    (by omega) (by omega) (by omega) answer.created_prefix.length_le (by omega) (by omega)

theorem Balanced.refused {request : Request} {error : StoreError}
    (h : Balanced site post number counting uncounting (forum, journal))
    (answer : site.Answer conditions (.store request) forum (.error error) after)
    (honest : conditions.Honest) :
    Balanced site post number counting uncounting
      (after, journal ++ [⟨.store request, forum, .error error, after⟩]) := by
  obtain ⟨rfl, -⟩ := answer.of_error honest
  obtain ⟨item, found, -⟩ := h.keeps.stored
  exact h.next 0 h.keeps.reachable found found rfl .of_error rfl (by omega) (by omega)
    (Nat.le_refl _) (by omega) (by omega)

/-- A comment is stored, and is still to be counted. -/
theorem Balanced.written {comment : ContentItem}
    (h : Balanced site post number counting uncounting (forum, journal))
    (answer : site.Answer conditions (.store (.putContent comment)) forum (.ok ()) after)
    (reachable : after.Reachable site) (scope : comment.scope = post.id.asScope) :
    Balanced site post number (counting + 1) uncounting
      (after, journal ++ [⟨.store (.putContent comment), forum, .ok (), after⟩]) := by
  obtain ⟨item, found, -⟩ := h.keeps.stored
  obtain ⟨store, hput, rfl⟩ := answer.of_ok fun _ heq => by cases heq
  simp only [StoreState.perform] at hput
  split at hput
  · cases hput
  rename_i vacant
  cases hput
  have vacant : forum.store.item? comment.key = none := by simpa using vacant
  have hne : post.key ≠ comment.key := by
    intro heq
    rw [← heq, found] at vacant
    cases vacant
  have found' : (forum.store.putItem comment.key comment).item? post.key = some item := by
    rw [StoreState.item?_putItem, if_neg hne, found]
  have hlength : ((forum.store.putItem comment.key comment).scopeItems post.id.asScope).length =
      (forum.store.scopeItems post.id.asScope).length + 1 := by
    have hput := forum.store.length_scopeItems_putItem comment.key comment
    rw [vacant, show comment.key.scope = post.id.asScope from scope] at hput
    exact hput
  have hcreated : (forum.created ++ [comment]).length = forum.created.length + 1 := by simp
  have sums : Journal.Sums post [⟨.store (.putContent comment), forum, .ok (),
      forum.after (forum.store.putItem comment.key comment) (.putContent comment)⟩] 0 0 0 :=
    ⟨rfl, rfl, rfl⟩
  exact h.next 1 reachable found found' rfl sums (by rw [after_store]; omega) (by omega) (by omega)
    (Nat.le_of_eq hcreated.symm) (by omega) (by omega)

/-- A comment is removed, and is still to be counted off. -/
theorem Balanced.removed {key : ContentKey} (kind : post.kind = .post)
    (h : Balanced site post number counting uncounting (forum, journal))
    (answer : site.Answer conditions (.store (.deleteContent key)) forum (.ok ()) after)
    (reachable : after.Reachable site) (scope : key.scope = post.id.asScope) :
    Balanced site post number counting (uncounting + 1)
      (after, journal ++ [⟨.store (.deleteContent key), forum, .ok (), after⟩]) := by
  obtain ⟨item, found, -⟩ := h.keeps.stored
  obtain ⟨store, hremove, rfl⟩ := answer.of_ok fun _ heq => by cases heq
  simp only [StoreState.perform] at hremove
  split at hremove
  · cases hremove
  rename_i comment hcomment
  cases hremove
  have hne : post.key ≠ key := by
    rintro rfl
    have shown : Finds (Keeps site post) post.key item := ⟨forum, h.keeps, found⟩
    exact shown.scope_ne kind scope.symm
  have found' : (forum.store.removeItem key).item? post.key = some item := by
    rw [StoreState.item?_removeItem, if_neg hne, found]
  have hlength := StoreState.length_scopeItems_removeItem hcomment
  rw [scope] at hlength
  have sums : Journal.Sums post [⟨.store (.deleteContent key), forum, .ok (),
      forum.after (forum.store.removeItem key) (.deleteContent key)⟩] 1 0 0 :=
    ⟨by simp [Journal.removed, Event.removes, scope], rfl, rfl⟩
  exact h.next 0 reachable found found' rfl sums (by rw [after_store]; omega) (by omega) (by omega)
    (Nat.le_refl _) (by omega) (by omega)

theorem Keeps.of_adjustCounts {change : CountChange} {reply : ContentItem}
    (h : forum.Keeps site post)
    (answer : site.Answer conditions (.store (.adjustCounts post.key change)) forum (.ok reply)
      after) :
    ∃ item, forum.store.item? post.key = some item ∧
      after = ⟨forum.store.putItem post.key (change.applyTo item), forum.created⟩ ∧
      ((forum.store.putItem post.key (change.applyTo item)).scopeItems post.id.asScope).length =
        (forum.store.scopeItems post.id.asScope).length ∧
      0 ≤ item.comments.toInt ∧
      (change.applyTo item).comments.toInt =
        max 0 (min 9223372036854775807 (item.comments.toInt + change.comments.toInt)) := by
  obtain ⟨store, hupdate, rfl⟩ := answer.of_ok fun _ heq => by cases heq
  obtain ⟨item, found, -, rfl⟩ := StoreState.updateItem_eq_ok hupdate
  exact ⟨item, found, rfl, StoreState.length_scopeItems_edit found _ _,
    (h.reachable.sound.1.nonneg _ item found).comments, (change.moves item).comments⟩

/-- A comment is counted. -/
theorem Balanced.counts {reply : ContentItem}
    (h : Balanced site post number (counting + 1) uncounting (forum, journal))
    (answer : site.Answer conditions (.store (.adjustCounts post.key (.ofComments 1))) forum
      (.ok reply) after)
    (reachable : after.Reachable site) (room : forum.created.length < 9223372036854775808) :
    Balanced site post number counting uncounting
      (after, journal ++
        [⟨.store (.adjustCounts post.key (.ofComments 1)), forum, .ok reply, after⟩]) := by
  have keeps : forum.Keeps site post := h.keeps
  obtain ⟨item, found, rfl, hlength, hnonneg, hcomments⟩ := keeps.of_adjustCounts answer
  have hbound : item.comments.toInt ≤ number + journal.counted post := h.bound item found
  have hroom : number + journal.counted post + (counting + 1) ≤ forum.created.length := h.room
  rw [show (CountChange.ofComments 1).comments.toInt = 1 from rfl] at hcomments
  have found' : (forum.store.putItem post.key ((CountChange.ofComments 1).applyTo item)).item?
      post.key = some ((CountChange.ofComments 1).applyTo item) := by
    rw [StoreState.item?_putItem, if_pos rfl]
  have hother : CountChange.ofComments 1 ≠ .ofComments (-1) := by decide
  have sums : Journal.Sums post [⟨.store (.adjustCounts post.key (.ofComments 1)), forum,
      .ok reply, ⟨forum.store.putItem post.key ((CountChange.ofComments 1).applyTo item),
        forum.created⟩⟩] 0 1 0 :=
    ⟨rfl, by simp [Journal.counted, Event.counts], by simp [Journal.lost, Event.loses, hother]⟩
  exact h.next 0 reachable found found' rfl sums (by rw [hlength]; omega) (by omega) (by omega)
    (Nat.le_refl _) (by omega) (by omega)

/-- A comment is counted off. If the post counts none, the comment is lost to the count. -/
theorem Balanced.uncounts {reply : ContentItem}
    (h : Balanced site post number counting (uncounting + 1) (forum, journal))
    (answer : site.Answer conditions (.store (.adjustCounts post.key (.ofComments (-1)))) forum
      (.ok reply) after)
    (reachable : after.Reachable site) :
    Balanced site post number counting uncounting
      (after, journal ++
        [⟨.store (.adjustCounts post.key (.ofComments (-1))), forum, .ok reply, after⟩]) := by
  have keeps : forum.Keeps site post := h.keeps
  obtain ⟨item, found, rfl, hlength, hnonneg, hcomments⟩ := keeps.of_adjustCounts answer
  have hlt := item.comments.toInt_lt
  have hcount : item.comments.toInt + journal.removed post =
      number + journal.counted post + ((uncounting + 1 : Nat) : Int) + journal.lost post :=
    h.count item found
  rw [show (CountChange.ofComments (-1)).comments.toInt = -1 from rfl] at hcomments
  have found' : (forum.store.putItem post.key ((CountChange.ofComments (-1)).applyTo item)).item?
      post.key = some ((CountChange.ofComments (-1)).applyTo item) := by
    rw [StoreState.item?_putItem, if_pos rfl]
  have hother : CountChange.ofComments (-1) ≠ .ofComments 1 := by decide
  have sums : Journal.Sums post [⟨.store (.adjustCounts post.key (.ofComments (-1))), forum,
      .ok reply, ⟨forum.store.putItem post.key ((CountChange.ofComments (-1)).applyTo item),
        forum.created⟩⟩] 0 0 (if item.comments = 0 then 1 else 0) := by
    refine ⟨rfl, by simp [Journal.counted, Event.counts, hother], ?_⟩
    simp [Journal.lost, Event.loses, found, List.countP_cons]
  by_cases hzero : item.comments = 0
  · rw [if_pos hzero] at sums
    rw [← Int64.toInt_inj, Int64.toInt_zero] at hzero
    exact h.next 0 reachable found found' rfl sums (by rw [hlength]) (by omega) (by omega)
      (Nat.le_refl _) (by omega) (by omega)
  · rw [if_neg hzero] at sums
    rw [← Int64.toInt_inj, Int64.toInt_zero] at hzero
    exact h.next 0 reachable found found' rfl sums (by rw [hlength]) (by omega) (by omega)
      (Nat.le_refl _) (by omega) (by omega)

theorem count_duty (before later : List Duty) (duty duty' : Duty) :
    (before ++ duty :: later).count duty' =
      (before ++ later).count duty' + if duty = duty' then 1 else 0 := by
  rw [List.count_append, List.count_append, List.count_cons, Nat.add_assoc]
  simp only [beq_iff_eq]

theorem count_eq_zero {duties : List Duty} (nothing : ∀ duty ∈ duties, duty = .none) {duty : Duty}
    (h : duty ≠ .none) : duties.count duty = 0 :=
  List.count_eq_zero.2 fun hmem => h (nothing duty hmem)

/-- The balance of operations with some duties. -/
def BalancedAt (site : Site) (post : ContentItem) (number : Nat) (duties : List Duty) :
    Forum × Journal → Prop :=
  Balanced site post number (duties.count .count) (duties.count .uncount)

/-- An effect that is in accordance with the protocol keeps the balance. -/
theorem BalancedAt.passes {before later : List Duty} {duty duty' : Duty} (kind : post.kind = .post)
    (h : BalancedAt site post number (before ++ duty :: later) (forum, journal))
    (answer : site.Answer .calm effect forum reply after) (reachable : after.Reachable site)
    (room : after.created.length < 9223372036854775808)
    (passes : (discussion site post).Passes duty effect reply duty') :
    BalancedAt site post number (before ++ duty' :: later)
      (after, journal ++ [⟨effect, forum, reply, after⟩]) := by
  have hroom := Nat.lt_of_le_of_lt answer.created_prefix.length_le room
  obtain ⟨ignores, rfl⟩ | moves := passes
  · exact Balanced.ignored h answer reachable ignores
  · simp only [BalancedAt, count_duty] at h ⊢
    cases moves with
    | refused => exact h.refused answer Conditions.honest_calm
    | write scope => exact h.written answer reachable scope
    | count => exact h.counts answer reachable hroom
    | remove scope => exact h.removed kind answer reachable scope
    | uncount => exact h.uncounts answer reachable

/-- No more items are stored in a scope than have ever been stored. -/
theorem Sound.length_scopeItems_le {outlook : Outlook} (sound : forum.Sound outlook)
    (scope : ScopeId) : (forum.store.scopeItems scope).length ≤ forum.created.length := by
  have nodup : ((forum.store.scopeItems scope).map (·.asCreated)).Nodup := by
    refine List.pairwise_map.2 ((StoreState.scopeItems_pairwise sound.isKeyed.items scope).imp ?_)
    intro a b hne heq
    have hid : a.asCreated.id = b.asCreated.id := congrArg ContentItem.id heq
    exact hne hid
  have subset : (forum.store.scopeItems scope).map (·.asCreated) ⊆ forum.created := by
    intro created hcreated
    obtain ⟨item, hitem, rfl⟩ := List.mem_map.1 hcreated
    obtain ⟨id, hid⟩ := StoreState.mem_scopeItems_iff.1 hitem
    exact (sound.items _ item hid).2
  have hle := (List.subperm_of_subset nodup subset).length_le
  rwa [List.length_map] at hle

theorem Keeps.balancedAt (keeps : forum.Keeps site post)
    (right : ∀ item, forum.store.item? post.key = some item →
      item.comments.toInt = (forum.store.scopeItems post.id.asScope).length) {duties : List Duty}
    (nothing : ∀ duty ∈ duties, duty = .none) :
    BalancedAt site post (forum.store.scopeItems post.id.asScope).length duties (forum, []) := by
  rw [BalancedAt, count_eq_zero nothing (by decide), count_eq_zero nothing (by decide)]
  refine ⟨keeps, rfl, fun item hitem => ?_, fun item hitem => ?_,
    keeps.reachable.sound.1.length_scopeItems_le _, fun _ => rfl⟩
  · rw [right item hitem]
    rfl
  · rw [right item hitem]
    exact Int.le_refl _

/-- The balance is kept all along a run of operations that do not delete the post. -/
theorem BalancedAt.steps {start : Forum} {invocations : List Invocation} {pool : Thread.Pool}
    (keeps : start.Keeps site post) (kind : post.kind = .post)
    (right : ∀ item, start.store.item? post.key = some item →
      item.comments.toInt = (start.store.scopeItems post.id.asScope).length)
    (others : ∀ invocation ∈ invocations, ¬invocation.operation.Removes post.key)
    (run : Thread.Pool.Steps ((site.responses .calm).within (Roomy site)).journaled
      (Invocation.pool invocations) (start, []) pool (after, journal)) :
    ∃ duties, Thread.Pool.At (discussion site post) duties pool ∧
      BalancedAt site post (start.store.scopeItems post.id.asScope).length duties
        (after, journal) := by
  let Holds := BalancedAt site post (start.store.scopeItems post.id.asScope).length
  let responses := ((site.responses .calm).within fun forum =>
    Roomy site forum ∧ forum.Reachable site).journaled
  have told : ∀ {duties : List Duty} {state after : Forum × Journal} {effect : Effect}
      {reply : effect.Reply}, Holds duties state → responses.Answers effect state reply after →
        (discussion site post).Told effect reply :=
    fun h answer => ⟨_, _, h.keeps, answer.1.1⟩
  have passes : ∀ {before later : List Duty} {duty duty' : Duty} {state after : Forum × Journal}
      {effect : Effect} {reply : effect.Reply}, Holds (before ++ duty :: later) state →
        responses.Answers effect state reply after →
          (discussion site post).Passes duty effect reply duty' →
            Holds (before ++ duty' :: later) after := by
    rintro before later duty duty' ⟨forum, journal⟩ ⟨after, journal'⟩ effect reply h
      ⟨⟨answer, roomy, reachable⟩, hjournal⟩ hpasses
    obtain rfl : journal' = journal ++ [⟨effect, forum, reply, after⟩] := hjournal
    exact h.passes kind answer reachable roomy.room hpasses
  have notHive : site.directory.hives.get? post.id.asScope = none := by
    obtain ⟨item, hitem, hsame⟩ := keeps.stored
    obtain ⟨sound, distinct⟩ := keeps.reachable.sound
    exact distinct.notHive post.asCreated (hsame ▸ (sound.items _ item hitem).2)
  have begin : Thread.Pool.At (discussion site post) (invocations.map fun _ => Duty.none)
      (Invocation.pool invocations) := by
    refine List.forall₂_map_left_iff.2 (List.forall₂_map_right_iff.2 (List.forall₂_same.2 ?_))
    intro invocation hinvocation
    exact .running (invocation.operation.follows_discussion kind (others _ hinvocation) notHive _)
  have balanced : Holds (invocations.map fun _ => Duty.none) (start, []) :=
    keeps.balancedAt right fun duty hduty => by
      obtain ⟨-, -, rfl⟩ := List.mem_map.1 hduty
      rfl
  have steps := keeps.reachable.steps_within (fun forum (h : Roomy site forum) => h.toDistinctIds)
    run
  exact steps.follows told passes begin balanced

/-- Operations run side by side, no call fails, and none of the operations deletes a post whose
count of comments is right to begin with. Once they have all ended, the count is the number of the
comments that are stored, and of those that were counted off while the count was zero. There are
none of these if at no time more comments had been removed than the post had counted. -/
theorem comments_counted {start : Forum} {invocations : List Invocation} {pool : Thread.Pool}
    (reachable : start.Reachable site) (stored : start.store.item? post.key = some post)
    (kind : post.kind = .post)
    (right : post.comments.toInt = (start.store.scopeItems post.id.asScope).length)
    (others : ∀ invocation ∈ invocations, ¬invocation.operation.Removes post.key)
    (run : Thread.Pool.Steps ((site.responses .calm).within (Roomy site)).journaled
      (Invocation.pool invocations) (start, []) pool (after, journal))
    (ended : ∀ thread ∈ pool, thread.2.result?.isSome = true) :
    ∃ item, after.store.item? post.key = some item ∧
      item.comments.toInt =
        (after.store.scopeItems post.id.asScope).length + journal.lost post ∧
      (journal.InTime post (start.store.scopeItems post.id.asScope).length →
        journal.lost post = 0) := by
  have right : ∀ item, start.store.item? post.key = some item →
      item.comments.toInt = (start.store.scopeItems post.id.asScope).length := by
    intro item hitem
    rwa [← Option.some.inj (stored.symm.trans hitem)]
  obtain ⟨duties, hat, balanced⟩ :=
    BalancedAt.steps ⟨reachable, post, stored, rfl⟩ kind right others run
  have nothing := hat.eq_home ended
  rw [BalancedAt, count_eq_zero nothing (by decide), count_eq_zero nothing (by decide)] at balanced
  obtain ⟨⟨-, item, hitem, -⟩, hstored, hcount, -, -, timely⟩ := balanced
  refine ⟨item, hitem, ?_, timely⟩
  have hcount := hcount item hitem
  dsimp only at hstored hcount
  omega

end Forum

/-- The operation writes a comment on a post, or deletes one. -/
def Operation.Discusses (post : ContentItem) : Operation → Prop
  | .createComment _ hive id _ => hive = post.hive ∧ id = post.id
  | .deleteContent _ target => target.content.scope = post.id.asScope
  | _ => False

namespace Sample

/-- The forum with the comment, before the post has counted it. -/
def uncounted : Forum := ⟨forum.store.putItem comment.key comment, [post, comment]⟩

/-- The forum without the comment, after the post has counted it. -/
def miscounted : Forum := ⟨forum.store.putItem post.key discussedPost, [post, comment]⟩

/-- A member writes the comment, and deletes it. -/
def discussing : List Invocation :=
  [⟨{}, 0, .createComment caller post.hive post.id "reply"⟩, ⟨{}, 2, .deleteContent caller target⟩]

/-- Both are done. -/
def ended : Thread.Pool :=
  [⟨ContentItem, .running (.done comment)⟩, ⟨Unit, .running (.done ())⟩]

theorem discussing_ended : ∀ thread ∈ ended, thread.2.result?.isSome = true :=
  List.forall_mem_cons.2 ⟨rfl, List.forall_mem_singleton.2 rfl⟩

theorem discussing_others : ∀ invocation ∈ discussing, ¬invocation.operation.Removes post.key := by
  have hne : comment.key ≠ post.key := by decide
  exact List.forall_mem_cons.2 ⟨id, List.forall_mem_singleton.2 hne⟩

/-- The comment is deleted before the post has counted it. -/
theorem discussing_steps :
    Thread.Pool.Steps ((site.responses .calm).within (Forum.Roomy site))
      (Invocation.pool discussing) forum ended miscounted := by
  let responses := (site.responses .calm).within (Forum.Roomy site)
  have posted : forum.Roomy site := ⟨⟨by decide, by decide⟩, by decide⟩
  have nodup : ([post, comment].map (·.id)).Nodup := by decide
  have notHive : ∀ item ∈ [post, comment],
      site.directory.hives.get? item.id.asScope = none := by decide
  have commented : ∀ store, Forum.Roomy site ⟨store, [post, comment]⟩ :=
    fun _ => ⟨⟨nodup, notHive⟩, (by decide : 2 < 9223372036854775808)⟩
  have asked : ∀ forum, (site.responses .calm).Answers (.membership caller post.hive) forum
      (.ok .owner) forum := fun forum => .role caller post.hive forum
  have found : forum.store.perform site.limits (.getContent post.key) = .ok (post, forum.store) :=
    rfl
  have put : forum.store.perform site.limits (.putContent comment) = .ok ((), uncounted.store) :=
    rfl
  have write : ∃ next : Except StoreError ContentItem → Program ContentItem,
      Thread.Steps responses (.running (createComment caller post.hive post.id "reply")) forum
        (.running (.perform (.store (.adjustCounts post.key (.ofComments 1))) next)) uncounted ∧
      Thread.Steps responses (.running (next (.ok discussedPost))) miscounted
        (.running (.done comment)) miscounted := by
    have touch : miscounted.store.perform site.limits (.touchActivity post.key 0) =
        .ok ((), miscounted.store) := rfl
    exact ⟨_, .perform ⟨asked forum, posted⟩ <| .perform ⟨.carriedOut found, posted⟩ <|
      .perform ⟨.stamp forum 0, posted⟩ <| .perform ⟨.draw forum comment.id, posted⟩ <|
        .perform ⟨.carriedOut put, commented _⟩ .none,
      .perform ⟨.carriedOut touch, commented _⟩ <| .perform ⟨.notified _ _, commented _⟩ .none⟩
  have remove : Thread.Steps responses (.running (deleteContent {} 2 caller target)) uncounted
      (.running (.done ())) ⟨forum.store, [post, comment]⟩ := by
    have read : uncounted.store.perform site.limits (.getContent comment.key) =
        .ok (comment, uncounted.store) := rfl
    have listed : uncounted.store.perform site.limits
        (.queryEngagement ⟨comment.id, Limit.batchWrite, none⟩) =
        .ok (⟨[], none⟩, uncounted.store) := rfl
    have gone : uncounted.store.perform site.limits (.deleteContent comment.key) =
        .ok ((), forum.store) := rfl
    have floor : forum.store.perform site.limits (.adjustCounts post.key (.ofComments (-1))) =
        .ok (post, forum.store) := rfl
    exact .perform ⟨asked _, commented _⟩ <| .perform ⟨.carriedOut read, commented _⟩ <|
      .head .gather <| .head (.spawner (.perform ⟨.carriedOut listed, commented _⟩)) <|
        .head (.join rfl) <| .perform ⟨.carriedOut gone, commented _⟩ <|
          .perform ⟨.carriedOut floor, commented _⟩ .none
  have count : forum.store.perform site.limits (.adjustCounts post.key (.ofComments 1)) =
      .ok (discussedPost, miscounted.store) := rfl
  obtain ⟨next, first, last⟩ := write
  have counted : Thread.Steps responses
      (.running (.perform (.store (.adjustCounts post.key (.ofComments 1))) next))
      ⟨forum.store, [post, comment]⟩ (.running (.done comment)) miscounted :=
    .perform ⟨.carriedOut count, commented _⟩ last
  exact ((Thread.Pool.Steps.of_thread first [] _).trans
    (.of_thread remove [⟨_, _⟩] [])).trans (.of_thread counted [] _)

/-- Once everybody is done, the count of comments of the post includes the comment that was lost. -/
theorem discussing_counted : ∃ journal : Journal,
    forum.Reachable site ∧ forum.store.item? post.key = some post ∧ post.kind = .post ∧
      post.comments.toInt = (forum.store.scopeItems post.id.asScope).length ∧
      (∀ invocation ∈ discussing, ¬invocation.operation.Removes post.key) ∧
      Thread.Pool.Steps ((site.responses .calm).within (Forum.Roomy site)).journaled
        (Invocation.pool discussing) (forum, []) ended (miscounted, journal) ∧
      (∀ thread ∈ ended, thread.2.result?.isSome = true) ∧
      ∃ item, miscounted.store.item? post.key = some item ∧
        item.comments.toInt =
          (miscounted.store.scopeItems post.id.asScope).length + journal.lost post ∧
        (journal.InTime post (forum.store.scopeItems post.id.asScope).length →
          journal.lost post = 0) := by
  obtain ⟨journal, run⟩ := discussing_steps.exists_journal []
  exact ⟨journal, forum_reachable, rfl, rfl, rfl, discussing_others, run, discussing_ended,
    Forum.comments_counted forum_reachable rfl rfl rfl discussing_others run discussing_ended⟩

/-- The count of comments need not be right once everybody is done: a comment may be counted off
before it is counted. -/
theorem comments_miscounted : ¬∀ (site : Site) (start after : Forum) (post : ContentItem)
    (invocations : List Invocation) (pool : Thread.Pool), start.Reachable site →
    start.store.item? post.key = some post → post.kind = .post →
    post.comments.toInt = (start.store.scopeItems post.id.asScope).length →
    (∀ invocation ∈ invocations, invocation.operation.Discusses post) →
    Thread.Pool.Steps ((site.responses .calm).within (Forum.Roomy site))
      (Invocation.pool invocations) start pool after →
    (∀ thread ∈ pool, thread.2.result?.isSome = true) →
    ∃ item, after.store.item? post.key = some item ∧
      item.comments.toInt = (after.store.scopeItems post.id.asScope).length := by
  intro h
  have discusses : ∀ invocation ∈ discussing, invocation.operation.Discusses post :=
    List.forall_mem_cons.2 ⟨⟨rfl, rfl⟩, List.forall_mem_singleton.2 rfl⟩
  obtain ⟨item, hitem, hcount⟩ := h site forum miscounted post discussing ended forum_reachable
    rfl rfl rfl discusses discussing_steps discussing_ended
  obtain rfl : discussedPost = item := Option.some.inj hitem
  exact absurd hcount (by decide)

end Sample

end HiveForum
