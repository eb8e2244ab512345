import HiveForum.Proofs.Deletion.Tree
import HiveForum.Proofs.Engagement.Journal
import HiveForum.Proofs.Forum.Asking
import HiveForum.Proofs.Forum.Lineage

/-!
# Posts and comments are dated

Whoever writes a post or a comment takes a time stamp first and stores the item under it, once at
most; after a comment the time of activity of the post above is to be that of the comment. Time
stamps that are taken for votes, or for items that are never stored, are lost. So in a run of
operations one after another the times of creation are some of the time stamps, in their order.

## Main definitions

* `Draft`: how far an operation is that writes an item.
* `Effect.Timeless`: an effect neither stores an item nor changes a time of activity.
* `Forum.dating`: the protocol by which items are dated.
* `Journal.stamps`: the time stamps that have been taken.
* `Forum.Dated`: the times of creation are some of the time stamps.

## Main results

* `Operation.follows_dating`: all operations follow the protocol.
* `Forum.Dated.answer`, `Forum.Dated.steps`: an effect and an operation keep the times in order.
-/

namespace HiveForum

open Program

/-- How far an operation is that writes an item. -/
inductive Draft where
  | none
  | stamped (time : Int64)
  | owing (post : ContentKey) (time : Int64)

/-- The time stamp under which an item may still be stored. -/
def Draft.stamps : Draft → List Int64
  | .none => []
  | .stamped time => [time]
  | .owing _ _ => []

/-- An effect neither stores an item nor changes a time of activity. -/
def Effect.Timeless : Effect → Prop
  | .store (.putContent _) => False
  | .store (.touchActivity _ _) => False
  | _ => True

/-- An item that is read has the key that was asked for. -/
def Effect.Locates : (effect : Effect) → effect.Reply → Prop
  | .store (.getContent key), .ok item => item.key = key
  | _, _ => True

/-- How the writing of an item goes on with an effect. -/
inductive Draft.Moves : Draft → (effect : Effect) → effect.Reply → Draft → Prop where
  | take {time : Int64} : Moves .none .timestamp time (.stamped time)
  | post {time : Int64} {item : ContentItem} (dated : item.createdAt = time)
      (fresh : item.asCreated = item) (kind : item.kind = .post) :
      Moves (.stamped time) (.store (.putContent item)) (.ok ()) .none
  | comment {time : Int64} {item : ContentItem} (dated : item.createdAt = time)
      (fresh : item.asCreated = item) (kind : item.kind = .comment) :
      Moves (.stamped time) (.store (.putContent item)) (.ok ()) (.owing item.parentKey time)
  | refused {time : Int64} {item : ContentItem} {error : StoreError}
      (dated : item.createdAt = time) (fresh : item.asCreated = item) :
      Moves (.stamped time) (.store (.putContent item)) (.error error) .none
  | touch {post : ContentKey} {time : Int64} {reply : Except StoreError Unit} :
      Moves (.owing post time) (.store (.touchActivity post time)) reply .none

/-- How items are dated. -/
def Forum.dating : Protocol Draft where
  Told := Effect.Locates
  Apart := Effect.Timeless
  Moves := Draft.Moves
  home := .none

/-! ### Operations -/

theorem Effect.timeless_of_isSilent {effect : Effect} (h : effect.isSilent = true) :
    effect.Timeless := by
  cases effect with
  | store request => cases request with
    | putContent => cases h
    | touchActivity => cases h
    | _ => trivial
  | _ => trivial

/-- Whether the operation writes a post or a comment. -/
def Operation.isWriting : Operation → Bool
  | .createPost .. => true
  | .createComment .. => true
  | _ => false

theorem Operation.permits_dating (site : Site) {op : Operation} (h : op.isWriting = false) :
    Forum.dating.Permits site (fun _ => True) op := by
  intro effect asks
  cases asks with
  | silent hsilent => exact Effect.timeless_of_isSilent hsilent
  | post | comment | count | touch | commented => cases h
  | _ => trivial

namespace Program

variable {settings : Settings} {caller : Caller} {hive : ScopeId} {target : Target}

theorem follows_dating_createPost {body : String} {tags : List TagId} :
    Returns Forum.dating (createPost caller hive body tags) := by
  have lenient : ∀ effect : Effect, effect.isSilent = true → Forum.dating.Apart effect :=
    fun _ => Effect.timeless_of_isSilent
  refine (follows_authorize lenient).bind fun _ _ hrole => ?_
  obtain ⟨-, rfl⟩ := hrole
  refine follows_ofExcept.bind fun _ _ hlimit => ?_
  obtain ⟨-, rfl⟩ := hlimit
  refine follows_ofExcept.bind fun _ _ hlimit => ?_
  obtain ⟨-, rfl⟩ := hlimit
  intro time _
  refine ⟨.stamped time, .inr .take, follows_perform (lenient _ rfl) fun id _ => ?_⟩
  intro reply _
  cases reply with
  | ok answer => exact ⟨.none, .inr (.post rfl rfl rfl), rfl⟩
  | error error => exact ⟨.none, .inr (.refused rfl rfl), rfl⟩

/-- The time of activity of the post that was found follows the comment. -/
theorem follows_dating_createComment {post : ContentId} {body : String} :
    Returns Forum.dating (createComment caller hive post body) := by
  have lenient : ∀ effect : Effect, effect.isSilent = true → Forum.dating.Apart effect :=
    fun _ => Effect.timeless_of_isSilent
  refine (follows_authorize lenient).bind fun _ _ hrole => ?_
  obtain ⟨-, rfl⟩ := hrole
  refine follows_ofExcept.bind fun _ _ hlimit => ?_
  obtain ⟨-, rfl⟩ := hlimit
  refine (follows_loadTarget lenient).bind fun stored _ hstored => ?_
  obtain ⟨hkey, -, rfl⟩ := hstored
  have hkey : stored.key = ⟨hive, post⟩ := hkey
  dsimp only
  split
  · exact rfl
  · intro time _
    refine ⟨.stamped time, .inr .take, follows_perform (lenient _ rfl) fun id _ => ?_⟩
    intro reply _
    cases reply with
    | error error => exact ⟨.none, .inr (.refused rfl rfl), rfl⟩
    | ok answer =>
      rw [hkey]
      refine ⟨.owing ⟨hive, post⟩ time, .inr (.comment rfl rfl rfl), ?_⟩
      refine follows_perform trivial fun _ _ => follows_move .none (fun _ _ => .touch) fun _ _ => ?_
      exact follows_perform trivial fun _ _ => rfl

section

variable {δ : Type} {protocol : Protocol δ}
  (lenient : ∀ effect : Effect, effect.isSilent = true → protocol.Apart effect)
  (erases : ∀ keys, protocol.Apart (.store (.deleteEngagements keys)))
  (removes : ∀ key, protocol.Apart (.store (.deleteContent key)))

include lenient erases removes

/-- The units of a cascade are of no account if the removal of any item is. -/
theorem follows_cascade_still (pages depth : Nat) (key : ContentKey) (kind : ContentKind) :
    (cascade settings pages depth key kind).Follows protocol.still () fun _ _ => True := by
  induction depth generalizing key kind with
  | zero => trivial
  | succ depth ih =>
    have hrecords : (spawnRecords settings key.id pages none).Follows protocol.still ()
        fun _ _ => True :=
      (@follows_spawnRecords _ protocol.still _ lenient erases _ _ _).weaken fun _ _ _ => trivial
    refine @follows_cascade _ protocol.still _ _ _ _ _ _ () ?_ ⟨.inl ⟨removes key, rfl⟩, trivial⟩
      (fun _ => .inl ⟨removes key, rfl⟩) trivial
    dsimp only
    split
    · refine Follows.bind (@follows_spawnChildren _ protocol.still _ lenient _ _ _ _ _
        (fun _ => True) (fun _ _ _ _ _ _ => trivial) fun child _ => ?_) fun _ _ _ => hrecords
      exact (ih child.key child.kind).bind fun _ _ _ => trivial
    · exact hrecords

/-- So is a cascade. -/
theorem follows_cascade_lenient (pages depth : Nat) (key : ContentKey) (kind : ContentKind) :
    Returns protocol (cascade settings pages depth key kind) := by
  cases depth with
  | zero => trivial
  | succ depth =>
    refine follows_cascade ?_ ⟨.inl ⟨removes key, rfl⟩, rfl⟩
      (fun _ => .inl ⟨removes key, rfl⟩) rfl
    -- what is spawned is what a cascade that is a unit spawns
    have hunit := @follows_cascade_still settings _ protocol lenient erases removes pages
      (depth + 1) key kind
    rw [cascade] at hunit
    exact hunit.1

/-- So is a deletion, if the counts are of no account either. -/
theorem follows_deleteContent_lenient
    (counts : ∀ key change, protocol.Apart (.store (.adjustCounts key change))) (horizon : Nat) :
    Returns protocol (deleteContent settings horizon caller target) := by
  refine (follows_authorize lenient).bind fun role _ hrole => ?_
  obtain ⟨-, rfl⟩ := hrole
  have hload := (@follows_loadTarget _ protocol target lenient).weaken
    fun item stage h => (⟨trivial, h.2.2⟩ : True ∧ _)
  refine (follows_unlessNotFound hload).bind fun found _ hfound => ?_
  obtain ⟨-, rfl⟩ := hfound
  cases found with
  | none => exact rfl
  | some item =>
    dsimp only
    split
    · exact rfl
    · refine (follows_cascade_lenient lenient erases removes horizon horizon item.key
        item.kind).bind fun deleted _ hstage => ?_
      subst hstage
      split
      · exact follows_perform (counts _ _) fun _ _ => rfl
      · exact rfl

end

end Program

/-- An operation that writes neither posts nor comments is of no account if nothing that it may ask
is, and if no removal is. -/
theorem Operation.follows_lenient {δ : Type} {protocol : Protocol δ} {site : Site}
    {Holds : Forum → Prop} {op : Operation} (writes : op.isWriting = false)
    (permits : protocol.Permits site Holds op)
    (erases : ∀ keys, protocol.Apart (.store (.deleteEngagements keys)))
    (removes : ∀ key, protocol.Apart (.store (.deleteContent key)))
    (counts : ∀ key change, protocol.Apart (.store (.adjustCounts key change)))
    (settings : Settings) (horizon : Nat) : Returns protocol (op.program settings horizon) := by
  have lenient := fun (effect : Effect) (h : effect.isSilent = true) => permits (.silent h)
  cases op with
  | createPost | createComment => cases writes
  | getContent =>
    refine (follows_authorize lenient).bind fun _ _ hrole => ?_
    obtain ⟨-, rfl⟩ := hrole
    exact (follows_loadTarget lenient).weaken fun _ _ hitem => hitem.2.2
  | markReviewed => exact follows_markReviewed permits
  | setPinned => exact follows_setPinned permits
  | deleteContent => exact follows_deleteContent_lenient lenient erases removes counts horizon
  | vote => exact follows_vote permits
  | setSaved => exact follows_setSaved permits
  | report =>
    refine follows_ofExcept.bind fun _ _ hlimit => ?_
    obtain ⟨-, rfl⟩ := hlimit
    exact follows_applyReport lenient fun _ _ => permits .report
  | withdrawReport => exact follows_applyReport lenient fun _ _ => permits .withdraw
  | getEngagement => exact follows_getEngagement lenient
  | lookupEngagement => exact follows_lookupEngagement lenient
  | listContent => exact follows_listContent lenient
  | ping => exact returns_call (lenient _ rfl)

/-- Every operation dates the item that it writes, and no other effect of it is of account. -/
theorem Operation.follows_dating (op : Operation) (settings : Settings) (horizon : Nat) :
    Returns Forum.dating (op.program settings horizon) := by
  -- what an operation may ask does not depend on where it is run
  let anywhere : Site := ⟨⟨1, 0, Nat.one_pos⟩, .empty⟩
  cases h : op.isWriting with
  | false =>
    exact op.follows_lenient h (permits_dating anywhere h) (fun _ => trivial) (fun _ => trivial)
      (fun _ _ => trivial) settings horizon
  | true =>
    cases op with
    | createPost => exact follows_dating_createPost
    | createComment => exact follows_dating_createComment
    | _ => cases h

/-! ### Times of creation -/

/-- The time stamps that have been taken. -/
def Journal.stamps (journal : Journal) : List Int64 := journal.filterMap Event.stamp?

theorem Journal.stamps_append (journal later : Journal) :
    Journal.stamps (journal ++ later) = journal.stamps ++ later.stamps := List.filterMap_append

theorem Site.Answer.created_cases {site : Site} {conditions : Conditions} {effect : Effect}
    {forum after : Forum} {reply : effect.Reply}
    (answer : site.Answer conditions effect forum reply after) :
    after.created = forum.created ∨
      ∃ item, effect = .store (.putContent item) ∧ after.created = forum.created ++ [item] := by
  obtain rfl | ⟨request, store, rfl, -, rfl⟩ := answer.change
  · exact .inl rfl
  · cases request with
    | putContent item => exact .inr ⟨item, rfl, rfl⟩
    | _ => exact .inl rfl

/-- An item that is read where every item is stored under its own key has the key that was asked
for. -/
theorem Site.Answer.locates {site : Site} {conditions : Conditions} {effect : Effect}
    {forum after : Forum} {reply : effect.Reply}
    (answer : site.Answer conditions effect forum reply after) (filed : forum.store.Filed) :
    effect.Locates reply := by
  cases effect with
  | store request =>
    cases request with
    | getContent key =>
      cases reply with
      | ok item => exact filed key item answer.getContent.1
      | error error => trivial
    | _ => trivial
  | _ => trivial

namespace Forum

/-- Items are stored under their own keys and are on record, and the times of creation are some of
the time stamps that have been taken, in their order. The time stamp of a draft is a later one. -/
structure Dated (draft : Draft) (state : Forum × Journal) : Prop where
  filed : state.1.store.Filed
  recorded : ∀ key item, state.1.store.item? key = some item → item.asCreated ∈ state.1.created
  times : (state.1.created.map (·.createdAt) ++ draft.stamps).Sublist state.2.stamps

variable {site : Site} {conditions : Conditions} {draft draft' : Draft}
  {state after : Forum × Journal}

theorem dated_blank : Dated .none (.blank, []) where
  filed := StoreState.filed_empty
  recorded _ _ h := by cases h
  times := .slnil

theorem Dated.settled (h : Dated draft state) : Dated .none state where
  filed := h.filed
  recorded := h.recorded
  times := by
    refine List.Sublist.trans ?_ h.times
    exact List.Sublist.append_left (List.nil_sublist _) _

theorem Dated.times_put {time : Int64} {item : ContentItem} {created : List ContentItem}
    (h : Dated (.stamped time) state) (dated : item.createdAt = time)
    (stored : created = state.1.created ∨ created = state.1.created ++ [item]) :
    (created.map ContentItem.createdAt ++ []).Sublist state.2.stamps := by
  rw [List.append_nil]
  obtain rfl | rfl := stored
  · exact (List.sublist_append_left _ _).trans h.times
  · rw [List.map_append, List.map_singleton, dated]
    exact h.times

/-- An effect by which an item is dated, or a timeless one, keeps the times of creation in order. -/
theorem Dated.answer (h : Dated draft state) {effect : Effect} {reply : effect.Reply}
    (answer : (site.responses conditions).journaled.Answers effect state reply after)
    (passes : dating.Passes draft effect reply draft') : Dated draft' after := by
  obtain ⟨answer, hjournal⟩ := answer
  have answer : site.Answer conditions effect state.1 reply after.1 := answer
  have hstamps : after.2.stamps = state.2.stamps ++
      Journal.stamps [⟨effect, state.1, reply, after.1⟩] := by
    rw [hjournal, Journal.stamps_append]
  have hgrows : state.2.stamps.Sublist after.2.stamps := hstamps ▸ List.sublist_append_left _ _
  have fresh : ∀ item, effect = .store (.putContent item) → item.asCreated = item := by
    rintro item rfl
    obtain ⟨apart, -⟩ | moves := passes
    · exact apart.elim
    · cases moves with
      | post _ fresh => exact fresh
      | comment _ fresh => exact fresh
      | refused _ fresh => exact fresh
  refine ⟨answer.filed h.filed, fun key item hitem => ?_, ?_⟩
  · obtain ⟨before, hbefore, hsame⟩ | ⟨heffect, -, -, hmem⟩ := answer.item?_origin hitem
    · exact hsame ▸ answer.created_subset (h.recorded key before hbefore)
    · rwa [fresh item heffect]
  · have unchanged : (∀ item, effect ≠ .store (.putContent item)) →
        after.1.created = state.1.created := fun other =>
      answer.created_cases.resolve_right fun ⟨item, heq, _⟩ => other item heq
    have stored : ∀ {item : ContentItem}, effect = .store (.putContent item) →
        after.1.created = state.1.created ∨ after.1.created = state.1.created ++ [item] := by
      rintro item rfl
      refine answer.created_cases.imp_right ?_
      rintro ⟨_, ⟨⟩, hput⟩
      exact hput
    obtain ⟨apart, rfl⟩ | moves := passes
    · rw [unchanged (by rintro item rfl; exact apart)]
      exact h.times.trans hgrows
    · cases moves with
      | take =>
        rw [unchanged (fun _ heq => by cases heq), hstamps]
        have htimes : (state.1.created.map (·.createdAt)).Sublist state.2.stamps := by
          simpa [Draft.stamps] using h.times
        exact htimes.append (.refl _)
      | post dated => exact (h.times_put dated (stored rfl)).trans hgrows
      | comment dated => exact (h.times_put dated (stored rfl)).trans hgrows
      | refused dated => exact (h.times_put dated (stored rfl)).trans hgrows
      | touch =>
        rw [unchanged (fun _ heq => by cases heq)]
        exact h.times.trans hgrows

/-- An operation that runs alone keeps the times of creation in order, however far it gets. -/
theorem Dated.steps (h : Dated .none state) {invocation : Invocation}
    {thread : Thread invocation.operation.Result}
    (steps : Thread.Steps (site.responses conditions).journaled invocation.thread.2 state thread
      after) : Dated .none after := by
  have follows := invocation.operation.follows_dating invocation.settings invocation.horizon
  obtain ⟨draft, -, hdated⟩ := steps.follows
    (fun hdated answer => Site.Answer.locates answer.1 hdated.filed)
    (fun hdated answer passes => hdated.answer answer passes) (.running follows) h
  exact hdated.settled

end Forum

/-! ### Clocks -/

namespace StampClock

/-- The time stamps that a clock gives after the latest one, at successive readings of the wall
clock. -/
def readings : (last : Int64) → (walls : List Int) → List Int64
  | _, [] => []
  | last, wall :: walls =>
    let time := (⟨wall, last⟩ : StampClock).next
    time :: readings time walls

/-- As long as none of them is the last one that there is, time stamps increase, whatever the wall
clock shows. -/
theorem pairwise_readings {last : Int64} {walls : List Int}
    (early : ∀ time ∈ last :: readings last walls, time.toInt < 9223372036854775807) :
    (last :: readings last walls).Pairwise (· < ·) := by
  induction walls generalizing last with
  | nil => exact List.pairwise_singleton _ _
  | cons wall walls ih =>
    let time := (⟨wall, last⟩ : StampClock).next
    obtain ⟨hlast, hrest⟩ := List.forall_mem_cons.1 early
    have hnext : last < time := Int64.lt_iff_toInt_lt.2 (lt_next hlast)
    have hlater : (time :: readings time walls).Pairwise (· < ·) := ih hrest
    refine List.pairwise_cons.2 ⟨fun later hmem => ?_, hlater⟩
    obtain rfl | hmem := List.mem_cons.1 hmem
    · exact hnext
    · exact Std.lt_trans hnext ((List.pairwise_cons.1 hlater).1 later hmem)

end StampClock

theorem Int64.length_lt_of_pairwise {first : Int64} {times : List Int64} {bound : Int}
    (increasing : (first :: times).Pairwise (· < ·))
    (early : ∀ time ∈ first :: times, time.toInt < bound) :
    first.toInt + times.length < bound := by
  induction times generalizing first with
  | nil => simpa using early
  | cons time times ih =>
    obtain ⟨hfirst, hrest⟩ := List.pairwise_cons.1 increasing
    have hnext := Int64.lt_iff_toInt_lt.1 (hfirst time List.mem_cons_self)
    have hlength := ih hrest (List.forall_mem_cons.1 early).2
    rw [List.length_cons]
    push_cast
    omega

theorem Thread.Steps.entered {σ α : Type} {responses : Responses σ} {effect : Effect}
    {next : effect.Reply → Program α} {reply : effect.Reply} {state after : σ}
    {journal : List (Event σ)} {thread : Thread α} {last : σ × List (Event σ)}
    (answer : responses.Answers effect state reply after)
    (rest : Thread.Steps responses.journaled (.running (next reply))
      (after, journal ++ [⟨effect, state, reply, after⟩]) thread last) :
    Thread.Steps responses.journaled (.running (.perform effect next)) (state, journal) thread
      last :=
  .perform ⟨answer, rfl⟩ rest

namespace Sample

/-- A post in the hive that is written at a later time. -/
def laterPost : ContentItem := .newPost ⟨.ofNat 1⟩ ⟨.ofNat 4⟩ caller.user "body" [] 5

/-- A comment on it. -/
def reply : ContentItem := .newComment ⟨.ofNat 1⟩ laterPost.id ⟨.ofNat 3⟩ caller.user "body" 6

/-- The post with the comment. -/
def repliedPost : ContentItem := { laterPost with comments := 1, lastActivityAt := 6 }

/-- The forum with the post. -/
def laterForum : Forum := ⟨StoreState.empty.putItem laterPost.key laterPost, [laterPost]⟩

/-- The forum with the post and the comment. -/
def repliedForum : Forum :=
  ⟨(laterForum.store.putItem reply.key reply).putItem laterPost.key repliedPost,
    [laterPost, reply]⟩

/-- The member writes the post. -/
def writePost : Invocation := ⟨{}, 0, .createPost caller ⟨.ofNat 1⟩ "body" []⟩

/-- The member writes the comment. -/
def writeReply : Invocation := ⟨{}, 0, .createComment caller ⟨.ofNat 1⟩ laterPost.id "body"⟩

theorem readings_replied : [5, 6] = StampClock.readings 0 [5, -3] := by decide

theorem early_replied : ∀ time ∈ ([5, 6] : List Int64), time.toInt < 9223372036854775807 := by
  refine List.forall_mem_cons.2 ⟨by decide, List.forall_mem_singleton.2 (by decide)⟩

variable {conditions : Conditions} {Holds : Forum → Prop}

theorem writePost_steps (before : Holds .blank) (after : Holds laterForum) :
    ∃ journal : Journal, journal.stamps = [5] ∧
      Thread.Steps ((site.responses conditions).within Holds).journaled writePost.thread.2
        (.blank, []) (.running (.done laterPost)) (laterForum, journal) := by
  have asked : (site.responses conditions).Answers (.membership caller ⟨.ofNat 1⟩) .blank
      (.ok .owner) .blank := .role caller ⟨.ofNat 1⟩ .blank
  have put : Forum.blank.store.perform site.limits (.putContent laterPost) =
      .ok ((), laterForum.store) := rfl
  refine ⟨_, ?_, .entered ⟨asked, before⟩ <| .entered ⟨.stamp _ 5, before⟩ <|
    .entered ⟨.draw _ laterPost.id, before⟩ <| .entered ⟨.carriedOut put, after⟩ .none⟩
  rfl

/-- The member writes the comment at its time. -/
theorem writeReply_steps {journal : Journal} (before : Holds laterForum)
    (during : ∀ store, Holds ⟨store, [laterPost, reply]⟩) :
    ∃ journal' : Journal, journal'.stamps = journal.stamps ++ [6] ∧
      Thread.Steps ((site.responses conditions).within Holds).journaled writeReply.thread.2
        (laterForum, journal) (.running (.done reply)) (repliedForum, journal') := by
  let stored : StoreState := laterForum.store.putItem reply.key reply
  let counted : StoreState :=
    stored.putItem laterPost.key { laterPost with comments := 1 }
  have asked : (site.responses conditions).Answers (.membership caller ⟨.ofNat 1⟩) laterForum
      (.ok .owner) laterForum := .role caller ⟨.ofNat 1⟩ laterForum
  have read : laterForum.store.perform site.limits (.getContent laterPost.key) =
      .ok (laterPost, laterForum.store) := rfl
  have put : laterForum.store.perform site.limits (.putContent reply) = .ok ((), stored) := rfl
  have count : stored.perform site.limits (.adjustCounts laterPost.key (.ofComments 1)) =
      .ok ({ laterPost with comments := 1 }, counted) := rfl
  have touch : counted.perform site.limits (.touchActivity laterPost.key reply.createdAt) =
      .ok ((), repliedForum.store) := rfl
  refine ⟨_, ?_, .entered ⟨asked, before⟩ <| .entered ⟨.carriedOut read, before⟩ <|
    .entered ⟨.stamp _ 6, before⟩ <| .entered ⟨.draw _ reply.id, before⟩ <|
      .entered ⟨.carriedOut put, during _⟩ <| .entered ⟨.carriedOut count, during _⟩ <|
        .entered ⟨.carriedOut touch, during _⟩ <| .entered ⟨.notified _ _, during _⟩ .none⟩
  simp only [Journal.stamps_append, List.append_assoc]
  rfl

end Sample

end HiveForum
