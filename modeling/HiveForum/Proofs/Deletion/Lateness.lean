import HiveForum.Proofs.Engagement.Journal
import HiveForum.Proofs.Forum.Answers
import HiveForum.Proofs.Forum.Asking
import HiveForum.Proofs.Forum.Lineage

/-!
# What comes too late for a deletion

Others may go on writing while an item is deleted. The deletion lists what is below its item page by
page, and it cannot know of anything that is written to a place that a page has come by already:
such a write comes too late. Nothing else is missed. The journal of a run tells which write came
after which page, and the contract of a run says that whatever is left below a removed item came
too late.

## Main definitions

* `Event.ListsRecord`, `Event.ListsItem`: a page has come by a place.
* `Journal.LateRecord`, `Journal.LateItem`: a write to a place that a page had come by.
* `Forum.Grows`: what is stored was stored before, or was written meanwhile.
* `Forum.Settled`, `Forum.SettledScope`: what is left in a place, or in a scope, came too late.
* `Forum.tracking`: the contract under which only what came too late is left below removed items.

## Main results

* `Forum.grows_of_answer`: whatever is written is entered in the journal.
* `Forum.Settled.grows`, `Forum.SettledScope.grows`: what is settled remains so.
* `Operation.meets_tracking`: operations that do not delete meet the contract.
-/

namespace HiveForum

open Program

/-! ### Journals -/

/-- A walk over users that starts after one of them, or at the beginning, comes by another one. -/
def UserId.IsPast (user : UserId) (startAfter : Option UserId) : Prop :=
  ∀ start, startAfter = some start → compare start user = .lt

theorem UserId.isPast_none (user : UserId) : user.IsPast none := fun _ h => by cases h

@[simp]
theorem UserId.isPast_some {user start : UserId} :
    user.IsPast (some start) ↔ compare start user = .lt := by
  simp [IsPast]

/-- A page of records has come by the place of a key. -/
def Event.ListsRecord (key : EngagementKey) : Event Forum → Prop
  | ⟨.store (.queryEngagement query), _, .ok page, _⟩ =>
    query.content = key.content ∧ key.user.IsPast query.startAfter ∧
      ∀ last, page.lastEvaluated = some last → ¬key.user.IsPast (some last)
  | _ => False

/-- A page of all items of a scope, in the order of their creation, has come by a position. -/
def Event.ListsItem (scope : ScopeId) (position : IndexKey) : Event Forum → Prop
  | ⟨.store (.queryContent query), _, .ok page, _⟩ =>
    (query.scope = scope ∧ query.sort = .created ∧ query.direction = .ascending ∧
        query.tags = .empty) ∧
      Direction.ascending.isPast query.startAfter position = true ∧
        ∀ last, page.lastEvaluated = some last →
          Direction.ascending.isAfter position last = false
  | _ => False

/-- An item has been stored. -/
def Event.Puts (item : ContentItem) : Event Forum → Prop
  | ⟨.store (.putContent new), _, .ok _, _⟩ => new.asCreated = item.asCreated
  | _ => False

/-- The item that has been removed. -/
def Event.removed? : Event Forum → Option ContentItem
  | ⟨.store (.deleteContent key), before, .ok _, _⟩ => before.store.item? key
  | _ => none

namespace Journal

variable {journal journal' : Journal} {Lists Writes : Event Forum → Prop}

/-- Something was written after it would have been listed. -/
def Late (journal : Journal) (Lists Writes : Event Forum → Prop) : Prop :=
  ∃ listing write, [listing, write].Sublist journal ∧ Lists listing ∧ Writes write

/-- A record was written after a page had come by its place. -/
def LateRecord (journal : Journal) (key : EngagementKey) (record : EngagementRecord) : Prop :=
  journal.Late (Event.ListsRecord key) fun write => write.stored? = some record

/-- An item was stored in a scope after a page had come by its position. -/
def LateItem (journal : Journal) (scope : ScopeId) (item : ContentItem) : Prop :=
  journal.Late (Event.ListsItem scope (item.indexKey .created)) (Event.Puts item)

theorem Late.mono (h : journal.Late Lists Writes) (more : journal.Sublist journal') :
    journal'.Late Lists Writes := by
  obtain ⟨listing, write, hjournal, hlists, hwrites⟩ := h
  exact ⟨listing, write, hjournal.trans more, hlists, hwrites⟩

theorem late_of_listed (listed : ∃ listing ∈ journal, Lists listing) {write : Event Forum}
    (writes : Writes write) (more : (journal ++ [write]).Sublist journal') :
    journal'.Late Lists Writes := by
  obtain ⟨listing, hlisting, hlists⟩ := listed
  have hfirst : [listing].Sublist journal := List.singleton_sublist.2 hlisting
  exact ⟨listing, write, (hfirst.append (.refl [write])).trans more, hlists, writes⟩

theorem LateItem.congr {scope : ScopeId} {before item : ContentItem}
    (h : journal.LateItem scope before) (same : before.asCreated = item.asCreated) :
    journal.LateItem scope item := by
  have hposition : before.indexKey .created = item.indexKey .created :=
    ContentItem.field_eq same (fun item => item.indexKey .created) fun _ => rfl
  have hputs : Event.Puts before = Event.Puts item := by
    funext event
    unfold Event.Puts
    rw [same]
  rw [LateItem, hposition, hputs] at h
  exact h

end Journal

namespace Forum

variable {site : Site} {conditions : Conditions} {state middle later : Forum × Journal}

/-! ### Growth -/

/-- A forum goes on, and its effects are entered in a journal. Whatever is stored was stored before,
or the journal tells that it was written meanwhile. -/
structure Grows (state later : Forum × Journal) : Prop where
  journal : state.2.Sublist later.2
  created : state.1.created ⊆ later.1.created
  records : ∀ key record, later.1.store.record? key = some record →
    state.1.store.record? key = some record ∨
      ∃ write, (state.2 ++ [write]).Sublist later.2 ∧ write.stored? = some record
  items : ∀ key item, later.1.store.item? key = some item →
    (∃ before, state.1.store.item? key = some before ∧ before.asCreated = item.asCreated) ∨
      item.asCreated ∉ state.1.created ∧
        ∃ write, (state.2 ++ [write]).Sublist later.2 ∧ write.Puts item

theorem Grows.refl (state : Forum × Journal) : Grows state state where
  journal := .refl _
  created := List.Subset.refl _
  records _ _ h := .inl h
  items _ item h := .inl ⟨item, h, rfl⟩

theorem Grows.trans (h : Grows state middle) (h' : Grows middle later) : Grows state later where
  journal := h.journal.trans h'.journal
  created := List.Subset.trans h.created h'.created
  records key record hrecord := by
    obtain hmiddle | ⟨write, hjournal, hstored⟩ := h'.records key record hrecord
    · refine (h.records key record hmiddle).imp_right ?_
      rintro ⟨write, hjournal, hstored⟩
      exact ⟨write, hjournal.trans h'.journal, hstored⟩
    · exact .inr ⟨write, (h.journal.append_right _).trans hjournal, hstored⟩
  items key item hitem := by
    obtain ⟨between, hmiddle, hsame⟩ | ⟨hnew, write, hjournal, hputs⟩ := h'.items key item hitem
    · obtain ⟨before, hbefore, hsame'⟩ | ⟨hnew, write, hjournal, hputs⟩ :=
        h.items key between hmiddle
      · exact .inl ⟨before, hbefore, hsame'.trans hsame⟩
      · refine .inr ⟨hsame ▸ hnew, write, hjournal.trans h'.journal, ?_⟩
        unfold Event.Puts at hputs ⊢
        rwa [← hsame]
    · refine .inr ⟨fun hmem => hnew (h.created hmem), write, ?_, hputs⟩
      exact (h.journal.append_right _).trans hjournal

theorem Grows.listed {Lists : Event Forum → Prop} (grows : Grows state later)
    (h : ∃ listing ∈ state.2, Lists listing) : ∃ listing ∈ later.2, Lists listing :=
  h.imp fun _ => And.imp_left (grows.journal.subset ·)

end Forum

/-- The effects on a forum that can be reached, as they are entered in a journal. -/
abbrev Site.tracing (site : Site) (conditions : Conditions) : Responses (Forum × Journal) :=
  ((site.responses conditions).within fun forum =>
    forum.DistinctIds site ∧ forum.Reachable site).journaled

namespace Site.Answer

variable {site : Site} {conditions : Conditions} {forum after : Forum} {effect : Effect}
  {reply : effect.Reply} (honest : conditions.Honest)
  (answer : site.Answer conditions effect forum reply after)

include honest answer

/-- A record that is stored after an effect was stored before, or the reply tells so. -/
theorem record?_origin {key : EngagementKey} {record : EngagementRecord}
    (h : after.store.record? key = some record) :
    forum.store.record? key = some record ∨
      (⟨effect, forum, reply, after⟩ : Event Forum).stored? = some record := by
  obtain rfl | ⟨request, store, rfl, change, heq⟩ := answer.change
  · exact .inl h
  · cases reply with
    | error error =>
      obtain ⟨rfl, -⟩ := answer.of_error honest
      exact .inl h
    | ok value =>
      subst heq
      rw [Forum.after_store] at h
      refine (change.record?_origin h).imp_right ?_
      rintro ⟨asked, hasked, -, rfl⟩
      obtain ⟨store', hperform, -⟩ := answer.of_ok fun _ heq => by subst heq; cases hasked
      exact (StoreState.written_of_perform hasked hperform).1

/-- An item that is stored after an effect was stored before, or it is new and the reply tells
so. -/
theorem puts_of_item? (distinct : after.DistinctIds site) {key : ContentKey} {item : ContentItem}
    (h : after.store.item? key = some item) :
    (∃ before, forum.store.item? key = some before ∧ before.asCreated = item.asCreated) ∨
      item.asCreated ∉ forum.created ∧
        (⟨effect, forum, reply, after⟩ : Event Forum).Puts item := by
  obtain ⟨before, hbefore, hsame⟩ | ⟨rfl, rfl, hnone, -⟩ := answer.item?_origin h
  · exact .inl ⟨before, hbefore, hsame.symm⟩
  · cases reply with
    | error error =>
      obtain ⟨rfl, -⟩ := answer.of_error honest
      rw [hnone] at h
      cases h
    | ok value =>
      obtain ⟨store, -, rfl⟩ := answer.of_ok fun _ heq => by cases heq
      refine .inr ⟨fun hmem => ?_, rfl⟩
      have hnodup : ((forum.created ++ [item]).map (·.id)).Nodup := distinct.nodup
      simp only [List.map_append, List.nodup_append] at hnodup
      exact hnodup.2.2 item.asCreated.id (List.mem_map_of_mem hmem) item.id (by simp) rfl

end Site.Answer

namespace Forum

variable {site : Site} {conditions : Conditions} {state middle later : Forum × Journal}

/-- Whatever an effect writes is entered in the journal. -/
theorem grows_of_answer (honest : conditions.Honest) {effect : Effect} {reply : effect.Reply}
    (answer : (site.tracing conditions).Answers effect state reply later) :
    Grows state later := by
  obtain ⟨⟨answer, distinct, -⟩, hjournal⟩ := answer
  have answer : site.Answer conditions effect state.1 reply later.1 := answer
  have hlast : List.Sublist (state.2 ++ [⟨effect, state.1, reply, later.1⟩]) later.2 := by
    rw [hjournal]
  exact ⟨(List.sublist_append_left _ _).trans hlast, answer.created_subset,
    fun key record h => (answer.record?_origin honest h).imp_right fun hstored =>
      ⟨_, hlast, hstored⟩,
    fun key item h => (answer.puts_of_item? honest distinct h).imp_right fun hputs =>
      ⟨hputs.1, _, hlast, hputs.2⟩⟩

/-! ### What came too late -/

/-- A page has come by the place of a key, and what is stored there was written after it. -/
structure Settled (state : Forum × Journal) (key : EngagementKey) : Prop where
  listed : ∃ listing ∈ state.2, listing.ListsRecord key
  late : ∀ record, state.1.store.record? key = some record → state.2.LateRecord key record

/-- Pages have come by all positions of a scope, and what is stored in the scope was stored after
them. -/
structure SettledScope (state : Forum × Journal) (scope : ScopeId) : Prop where
  listed : ∀ position, ∃ listing ∈ state.2, listing.ListsItem scope position
  late : ∀ key item, key.scope = scope → state.1.store.item? key = some item →
    state.2.LateItem scope item

/-- What is left below an item came too late. -/
structure Cleared (state : Forum × Journal) (root : ContentItem) : Prop where
  records : ∀ key, key.content = root.id → Settled state key
  items : root.kind = .post → SettledScope state root.id.asScope

/-- The forum can be reached, and what is left below the items that have been removed came too
late. -/
structure Tracked (site : Site) (state : Forum × Journal) : Prop where
  reachable : state.1.Reachable site
  cleared : ∀ removal ∈ state.2, ∀ root, removal.removed? = some root → Cleared state root

/-- An item that is gone does not come back. -/
theorem Grows.item?_eq_none {item : ContentItem} (grows : Grows state later)
    (tracked : Tracked site later) (created : item.asCreated ∈ state.1.created)
    (gone : state.1.store.item? item.key = none) : later.1.store.item? item.key = none := by
  cases hother : later.1.store.item? item.key with
  | none => rfl
  | some other =>
    obtain ⟨sound, -⟩ := tracked.reachable.sound
    obtain ⟨hkey, hcreated⟩ := sound.items _ other hother
    have hsame : other.asCreated = item.asCreated :=
      sound.eq_of_id hcreated (grows.created created) (congrArg ContentKey.id hkey)
    obtain ⟨before, hbefore, -⟩ | ⟨hnew, -⟩ := grows.items _ other hother
    · rw [gone] at hbefore
      cases hbefore
    · exact absurd (hsame ▸ created) hnew

/-- A place that is settled remains so. -/
theorem Settled.grows {key : EngagementKey} (h : Settled state key) (grows : Grows state later) :
    Settled later key where
  listed := grows.listed h.listed
  late record hrecord := by
    obtain hbefore | ⟨write, hjournal, hstored⟩ := grows.records key record hrecord
    · exact (h.late record hbefore).mono grows.journal
    · exact Journal.late_of_listed h.listed hstored hjournal

/-- An item that was stored too late, or is stored from now on in a place that a page has come by,
is too late. -/
theorem Grows.lateItem (grows : Grows state later) {key : ContentKey} {item : ContentItem}
    {scope : ScopeId} (stored : later.1.store.item? key = some item)
    (listed : ∃ listing ∈ state.2, listing.ListsItem scope (item.indexKey .created))
    (late : ∀ before, state.1.store.item? key = some before → before.asCreated = item.asCreated →
      state.2.LateItem scope before) :
    later.2.LateItem scope item := by
  obtain ⟨before, hbefore, hsame⟩ | ⟨-, write, hjournal, hputs⟩ := grows.items key item stored
  · exact ((late before hbefore hsame).congr hsame).mono grows.journal
  · exact Journal.late_of_listed listed hputs hjournal

/-- A scope that is settled remains so. -/
theorem SettledScope.grows {scope : ScopeId} (h : SettledScope state scope)
    (grows : Grows state later) : SettledScope later scope where
  listed position := grows.listed (h.listed position)
  late key _ hscope hitem := grows.lateItem hitem (h.listed _) fun before hbefore _ =>
    h.late key before hscope hbefore

theorem Cleared.grows {root : ContentItem} (h : Cleared state root) (grows : Grows state later) :
    Cleared later root where
  records key hkey := (h.records key hkey).grows grows
  items hkind := (h.items hkind).grows grows

/-! ### The contract -/

/-- The contract under which only what came too late is left below the items that are removed. -/
def tracking (site : Site) : Contract (Forum × Journal) where
  rely state later := Tracked site state → Tracked site later ∧ Grows state later
  guarantee state later := Tracked site state → Tracked site later ∧ Grows state later
  failing _ _ := True
  endless := True
  rely_refl state tracked := ⟨tracked, .refl state⟩
  rely_trans h h' tracked :=
    let ⟨hmiddle, hgrows⟩ := h tracked
    let ⟨hlater, hgrows'⟩ := h' hmiddle
    ⟨hlater, hgrows.trans hgrows'⟩

theorem tracked_of_moves (moves : (tracking site).Moves state later)
    (tracked : Tracked site state) : Tracked site later ∧ Grows state later := by
  induction moves with
  | refl => exact ⟨tracked, .refl state⟩
  | tail _ change ih =>
    obtain ⟨hmiddle, hgrows⟩ := ih
    obtain ⟨hlater, hgrows'⟩ := change.elim (· hmiddle) (· hmiddle)
    exact ⟨hlater, hgrows.trans hgrows'⟩

variable {effect : Effect} {reply : effect.Reply} (honest : conditions.Honest)
  (answer : (site.tracing conditions).Answers effect state reply later)

include honest answer

/-- An effect keeps the contract, if what is left below the item that it may remove came too
late. -/
theorem tracked_of_answer (tracked : Tracked site state)
    (cleared : ∀ root, (⟨effect, state.1, reply, later.1⟩ : Event Forum).removed? = some root →
      Cleared later root) :
    Tracked site later ∧ Grows state later := by
  have grows := grows_of_answer honest answer
  obtain ⟨⟨-, -, reachable⟩, hjournal⟩ := answer
  refine ⟨⟨reachable, fun removal hremoval root hroot => ?_⟩, grows⟩
  rw [hjournal] at hremoval
  rcases List.mem_append.1 hremoval with hbefore | hlast
  · exact (tracked.cleared removal hbefore root hroot).grows grows
  · rw [List.mem_singleton.1 hlast] at hroot
    exact cleared root hroot

theorem tracked_of_ne (tracked : Tracked site state)
    (other : ∀ key, effect ≠ .store (.deleteContent key)) :
    Tracked site later ∧ Grows state later := by
  refine tracked_of_answer honest answer tracked fun root hroot => ?_
  unfold Event.removed? at hroot
  split at hroot
  · rename_i heq
    cases heq
    exact absurd rfl (other _)
  · cases hroot

omit honest answer

/-! ### Operations that do not delete -/

/-- The protocol by which no item is removed from a forum that can be reached. -/
def sparing (site : Site) (conditions : Conditions) : Protocol Unit where
  Told := site.Tells conditions fun forum => forum.Reachable site
  Apart effect := ∀ key, effect ≠ .store (.deleteContent key)
  Moves _ _ _ _ := False
  home := ()

include honest

/-- A program that opens no group and removes no item meets the contract. -/
theorem meets_of_sparing {α : Type} {p : Program α} {post : α → Unit → Prop} {idle acted : α → Prop}
    (follows : p.Follows (sparing site conditions) () post)
    (single : p.Cautious idle acted ∨ p.Gives acted) (tracked : Tracked site state) :
    p.Meets (site.tracing conditions) (tracking site) none (fun _ _ => True) state := by
  induction p generalizing state with
  | done value => exact fun _ _ _ => trivial
  | fail error => exact fun _ _ => trivial
  | unfinished => exact trivial
  | perform effect next ih =>
    intro later reply after rely answer
    obtain ⟨hlater, -⟩ := rely tracked
    obtain ⟨stage, ⟨apart, -⟩ | moves, hnext⟩ :=
      follows reply ⟨later.1, after.1, hlater.reachable, answer.1.1⟩
    · have hafter := tracked_of_ne honest answer hlater apart
      have hsingle : (next reply).Cautious idle acted ∨ (next reply).Gives acted := by
        obtain hcautious | hgives := single
        · cases hcautious with
          | silent _ hnext => exact .inl (hnext reply)
          | call refused answered =>
            cases reply with
            | ok value => exact .inr (answered value)
            | error error => exact .inl (refused error)
        · cases hgives with
          | perform hnext => exact .inr (hnext reply)
      exact ⟨fun _ => hafter, ih reply hnext hsingle hafter.1⟩
    · exact moves.elim
  | spawn unit next => obtain ⟨⟨⟩⟩ | ⟨⟨⟩⟩ := single
  | gather limit spawner next => obtain ⟨⟨⟩⟩ | ⟨⟨⟩⟩ := single

end Forum

theorem Operation.permits_sparing {site : Site} {conditions : Conditions} {op : Operation}
    (h : op.isDeletion = false) :
    (Forum.sparing site conditions).Permits site (fun forum => forum.Reachable site) op := by
  intro effect asks
  cases asks with
  | @silent _ effect silent =>
    rintro key rfl
    cases silent
  | erase | remove | removeBelow | uncount => cases h
  | _ => exact fun _ heq => by cases heq

/-- An operation that does not delete meets the contract. -/
theorem Operation.meets_tracking {site : Site} {conditions : Conditions} {op : Operation}
    {state : Forum × Journal} (honest : conditions.Honest) (h : op.isDeletion = false)
    (tracked : Forum.Tracked site state) (settings : Settings) (horizon : Nat) :
    (op.program settings horizon).Meets (site.tracing conditions) (Forum.tracking site) none
      (fun _ _ => True) state := by
  obtain ⟨idle, acted, cautious⟩ := op.cautious h settings horizon
  have follows : Returns (Forum.sparing site conditions) (op.program settings horizon) :=
    op.follows (fun _ _ => id) (fun _ => id) (permits_sparing h) settings horizon
  exact Forum.meets_of_sparing honest follows (.inl cautious) tracked

end HiveForum
