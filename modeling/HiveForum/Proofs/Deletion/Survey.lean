import HiveForum.Proofs.Browse.Filling
import HiveForum.Proofs.Deletion.Lateness

/-!
# Surveying a tree while others write

A deletion surveys the records and the comments below an item page by page, while others write to
the same collections. Of every place it knows more and more: a page has come by the place, and what
is stored there is on a page or came too late for it, or the place lies ahead. What is on a page is
in the charge of a unit. Once the units have ended and nothing lies ahead, only what came too late
is left.

## Main definitions

* `Forum.Tracks`, `Forum.Seeks`: programs that meet the contract of `Forum.tracking`.
* `Forum.Erases`: a batch of records that is being deleted.
* `Forum.Pages`: what a page of records says about the places after its start.
* `Forum.Covers`: what is known of a scope while some items are held.

## Main results

* `Forum.Pages.settled`, `Forum.Covers.left`: once what a page shows is gone, the rest lies ahead.
* `Forum.tracks_deleteBatchFrom`: the places of a batch are settled when it has been deleted.
* `Forum.tracks_spawnRecords`: so are those of all records on an item, once the units have ended.
* `Forum.seeks_collectFrom`: a page of comments covers what lies between its start and its end.
* `Forum.tracks_spawnChildren`: a scope is settled once the units for its items have ended.
-/

namespace HiveForum

open Program Std

/-- A position lies after the end of a page; nothing lies after the last page. -/
def IndexKey.Follows (position : IndexKey) (last : Option IndexKey) : Prop :=
  ∃ key, last = some key ∧ Direction.ascending.isAfter position key = true

theorem IndexKey.not_follows_none (position : IndexKey) : ¬position.Follows none := by
  rintro ⟨key, h, -⟩
  cases h

@[simp]
theorem IndexKey.follows_some {position key : IndexKey} :
    position.Follows (some key) ↔ Direction.ascending.isPast (some key) position = true := by
  simp [Follows, Direction.isPast]

namespace Forum

variable {site : Site} {conditions : Conditions} {state later : Forum × Journal}

/-- A program meets the contract under which only what came too late is left. -/
abbrev Tracks (site : Site) (conditions : Conditions) {α : Type} (pledge : Pledge (Forum × Journal))
    (p : Program α) (claim : α → Forum × Journal → Prop) (state : Forum × Journal) : Prop :=
  p.Meets (site.tracing conditions) (tracking site) pledge claim state

/-- A program meets that contract, and does not fail as one that finds nothing. -/
abbrev Seeks (site : Site) (conditions : Conditions) {α : Type} (p : Program α)
    (claim : α → Forum × Journal → Prop) (state : Forum × Journal) : Prop :=
  p.Meets (site.tracing conditions)
    ((tracking site).withFailing fun error _ => error ≠ .notFound) none claim state

theorem Tracked.keyed (tracked : Tracked site state) : state.1.store.Keyed :=
  tracked.reachable.sound.1.isKeyed

theorem tracks_perform (honest : conditions.Honest) {α : Type} {pledge : Pledge (Forum × Journal)}
    {failing : OperationError → Forum × Journal → Prop} {post : α → Forum × Journal → Prop}
    {effect : Effect} {next : effect.Reply → Program α} (tracked : Tracked site state)
    (other : ∀ key, effect ≠ .store (.deleteContent key))
    (follows : ∀ later reply after, Tracked site later → Grows state later →
      (site.tracing conditions).Answers effect later reply after → Tracked site after →
        Grows later after → (next reply).Meets (site.tracing conditions)
          ((tracking site).withFailing failing) pledge post after) :
    (Program.perform effect next).Meets (site.tracing conditions)
      ((tracking site).withFailing failing) pledge post state := by
  intro later reply after rely answer
  obtain ⟨hlater, hgrows⟩ := rely tracked
  have hafter := tracked_of_ne honest answer hlater other
  exact ⟨fun _ => hafter, follows later reply after hlater hgrows answer hafter.1 hafter.2⟩

/-! ### Batches of records -/

/-- A batch of records is being deleted: pages have come by the places of its keys, and those that
are no longer pending are settled. -/
structure Erases (state : Forum × Journal) (keys pending : List EngagementKey) : Prop where
  part : pending ⊆ keys
  size : pending.length ≤ Limit.batchWrite
  listed : ∀ key ∈ keys, ∃ listing ∈ state.2, listing.ListsRecord key
  settled : ∀ key ∈ keys, key ∉ pending → Settled state key

theorem Erases.grows {keys pending : List EngagementKey} (h : Erases state keys pending)
    (grows : Grows state later) : Erases later keys pending where
  part := h.part
  size := h.size
  listed key hkey := grows.listed (h.listed key hkey)
  settled key hkey hnot := (h.settled key hkey hnot).grows grows

section

variable (honest : conditions.Honest)

include honest

/-- After a call for a batch the places of what does not remain to be done are settled. -/
theorem Erases.of_answer {keys pending rest : List EngagementKey}
    {reply : Except StoreError (List EngagementKey)} (h : Erases state keys pending)
    (answer : (site.tracing conditions).Answers (.store (.deleteEngagements pending)) state reply
      later) (remaining : remainingKeys pending reply = .ok rest) :
    Erases later keys rest := by
  have h' := h.grows (grows_of_answer honest answer)
  have answer : site.Answer conditions (.store (.deleteEngagements pending)) state.1 reply
      later.1 := answer.1.1
  rcases answer.of_batch honest h.size with ⟨done, left, rfl, hsplit, hlater⟩ | ⟨error, rfl, -, -⟩
  · have hmem : ∀ key, key ∈ pending ↔ key ∈ done ∨ key ∈ left :=
      fun key => hsplit.mem_iff.trans List.mem_append
    have hsize := hsplit.length_eq ▸ h.size
    rw [List.length_append] at hsize
    cases remaining
    refine ⟨fun key hkey => h.part ((hmem key).2 (.inr hkey)), by omega, h'.listed,
      fun key hkey hleft => ?_⟩
    by_cases hdone : key ∈ done
    · refine ⟨h'.listed key hkey, fun record hrecord => ?_⟩
      rw [hlater, StoreState.record?_removeRecords, if_pos hdone] at hrecord
      cases hrecord
    · exact h'.settled key hkey fun hpending => ((hmem key).1 hpending).elim hdone hleft
  · unfold remainingKeys at remaining
    dsimp only at remaining
    split at remaining
    · cases remaining
      exact h'
    · cases remaining

/-- A batch is retried until the places of all its keys are settled. -/
theorem tracks_deleteBatchFrom {settings : BackoffSettings} {keys : List EngagementKey}
    (tracked : Tracked site state) (left : Nat) {pending : List EngagementKey}
    (h : Erases state keys pending) :
    Tracks site conditions none (deleteBatchFrom settings left pending)
      (fun _ later => ∀ key ∈ keys, Settled later key) state := by
  have hdone : ∀ {after : Forum × Journal}, Tracked site after → Erases after keys [] →
      Tracks site conditions none (.done ()) (fun _ later => ∀ key ∈ keys, Settled later key)
        after :=
    fun hafter herases last rely _ key hkey =>
      (herases.settled key hkey List.not_mem_nil).grows (rely hafter).2
  induction left generalizing state pending with
  | zero =>
    rw [deleteBatchFrom]
    refine tracks_perform honest tracked (fun _ heq => by cases heq)
      fun later reply after hlater hgrows answer hafter _ => ?_
    simp only [done_bind]
    split
    · exact hdone hafter ((h.grows hgrows).of_answer honest answer rfl)
    · cases remainingKeys pending reply with
      | ok rest => exact fun _ _ => trivial
      | error error => exact fun _ _ => trivial
  | succ left ih =>
    rw [deleteBatchFrom]
    refine tracks_perform honest tracked (fun _ heq => by cases heq)
      fun later reply after hlater hgrows answer hafter _ => ?_
    simp only [done_bind]
    split
    · exact hdone hafter ((h.grows hgrows).of_answer honest answer rfl)
    · cases hremaining : remainingKeys pending reply with
      | error error => exact fun _ _ => trivial
      | ok rest =>
        have hrest := (h.grows hgrows).of_answer honest answer hremaining
        refine tracks_perform honest hafter (fun _ heq => by cases heq)
          fun _ word second _ hgrows _ hsecond hgrows' => ?_
        have hsecond' := hrest.grows (hgrows.trans hgrows')
        refine tracks_perform honest hsecond (fun _ heq => by cases heq)
          fun _ paused third _ hgrows _ hthird hgrows' => ?_
        cases paused with
        | ok _ => exact ih hthird (hsecond'.grows (hgrows.trans hgrows'))
        | error error => exact fun _ _ => trivial

omit honest

/-! ### Records -/

/-- A page of records has come by the places after its start: each of them is settled, is that of a
record on the page, or lies ahead. -/
structure Pages (state : Forum × Journal) (content : ContentId) (startAfter : Option UserId)
    (page : EngagementPage) : Prop where
  batch : Erases state (page.records.map (·.key)) (page.records.map (·.key))
  rest : ∀ key : EngagementKey, key.content = content → key.user.IsPast startAfter →
    Settled state key ∨ key ∈ page.records.map (·.key) ∨
      ∃ last, page.lastEvaluated = some last ∧ key.user.IsPast (some last)

theorem Pages.grows {content : ContentId} {startAfter : Option UserId} {page : EngagementPage}
    (h : Pages state content startAfter page) (grows : Grows state later) :
    Pages later content startAfter page where
  batch := h.batch.grows grows
  rest key hkey hpast := (h.rest key hkey hpast).imp_left (·.grows grows)

/-- Once the places of what a page shows are settled, so is every place that does not lie ahead, if
that holds of the places before the page. -/
theorem Pages.settled {content : ContentId} {startAfter : Option UserId} {page : EngagementPage}
    (h : Pages state content startAfter page)
    (covered : ∀ key : EngagementKey, key.content = content → ¬key.user.IsPast startAfter →
      Settled state key)
    (shown : ∀ key ∈ page.records.map (·.key), Settled state key) {key : EngagementKey}
    (hkey : key.content = content)
    (ahead : ∀ last, page.lastEvaluated = some last → ¬key.user.IsPast (some last)) :
    Settled state key := by
  by_cases hpast : key.user.IsPast startAfter
  · rcases h.rest key hkey hpast with hsettled | hmem | ⟨last, hlast, hahead⟩
    · exact hsettled
    · exact shown key hmem
    · exact absurd hahead (ahead last hlast)
  · exact covered key hkey hpast

/-- A page of records that is read. -/
theorem pages_of_answer {content : ContentId} {startAfter : Option UserId} {page : EngagementPage}
    (tracked : Tracked site state)
    (answer : (site.tracing conditions).Answers
      (.store (.queryEngagement ⟨content, Limit.batchWrite, startAfter⟩)) state (.ok page) later) :
    Pages later content startAfter page := by
  obtain ⟨⟨answer, -⟩, hjournal⟩ := answer
  obtain ⟨hpage, hlater⟩ := Site.Answer.queryEngagement answer
  have keyed := tracked.keyed
  obtain ⟨-, hrecords, -⟩ := StoreState.queryEngagement_eq_ok hpage
  have hlisted : ∀ key : EngagementKey, key.content = content → key.user.IsPast startAfter →
      (∀ last, page.lastEvaluated = some last → ¬key.user.IsPast (some last)) →
      ∃ listing ∈ later.2, listing.ListsRecord key := by
    intro key hkey hpast hlast
    rw [hjournal]
    exact ⟨_, List.mem_append_right _ List.mem_cons_self, hkey.symm, hpast, hlast⟩
  have hshown : ∀ key ∈ page.records.map (·.key), ∃ listing ∈ later.2, listing.ListsRecord key := by
    intro key hkey
    obtain ⟨record, hrecord, rfl⟩ := List.mem_map.1 hkey
    have hafter := hrecords ▸ hrecord
    obtain ⟨-, hcontent, hpast⟩ :=
      (StoreState.mem_recordsAfter_iff keyed).1 (List.mem_of_mem_take hafter)
    refine hlisted _ hcontent hpast fun last hlast => ?_
    rw [UserId.isPast_some]
    exact StoreState.lastEvaluated_of_queryEngagement keyed hpage hrecord hlast
  refine ⟨⟨List.Subset.refl _, ?_, hshown, fun _ hkey hnot => absurd hkey hnot⟩,
    fun key hkey hpast => ?_⟩
  · rw [hrecords, List.length_map, List.length_take]
    dsimp only
    omega
  · by_cases hahead : ∃ last, page.lastEvaluated = some last ∧ key.user.IsPast (some last)
    · exact .inr (.inr hahead)
    · by_cases hmem : key ∈ page.records.map (·.key)
      · exact .inr (.inl hmem)
      · -- nothing is stored in a place that the page has come by without showing it
        refine .inl ⟨hlisted key hkey hpast fun last hlast h => hahead ⟨last, hlast, h⟩, ?_⟩
        intro record hrecord
        rw [hlater] at hrecord
        obtain rfl := keyed.records key record hrecord
        have hafter : record ∈ state.1.store.recordsAfter content startAfter :=
          (StoreState.mem_recordsAfter_iff keyed).2 ⟨hrecord, hkey, hpast⟩
        rcases StoreState.mem_or_after_of_queryEngagement keyed hpage hafter with
          hmem' | ⟨last, hlast, hlt⟩
        · exact absurd (List.mem_map_of_mem hmem') hmem
        · exact absurd ⟨last, hlast, UserId.isPast_some.2 hlt⟩ hahead

include honest

theorem seeks_queryEngagement {content : ContentId} {startAfter : Option UserId}
    (tracked : Tracked site state) :
    Seeks site conditions (call (.queryEngagement ⟨content, Limit.batchWrite, startAfter⟩))
      (fun page later => Pages later content startAfter page) state := by
  refine tracks_perform honest tracked (fun _ heq => by cases heq)
    fun later reply after hlater _ answer hafter _ => ?_
  cases reply with
  | ok page => exact fun last rely _ => (pages_of_answer hlater answer).grows (rely hafter).2
  | error error =>
    have limit : 0 < Limit.batchWrite := by decide
    obtain ⟨-, hfound, -⟩ := Site.Answer.of_queryEngagement honest answer.1.1 limit
    exact fun _ _ => StoreError.ofStore_ne_notFound hfound

/-- Once the units that a survey of records spawns have ended, the places of all records on an item
are settled, if the units spawned before take care of those before the position that it starts
from. -/
theorem tracks_spawnRecords {settings : Settings} {content : ContentId} (pages : Nat)
    {startAfter : Option UserId} {pledged extra : Forum × Journal → Prop}
    (tracked : Tracked site state)
    (hextra : ∀ later, Tracked site later → Grows state later → pledged later → extra later)
    (covered : ∀ later, Tracked site later → Grows state later → pledged later →
      ∀ key : EngagementKey, key.content = content → ¬key.user.IsPast startAfter →
        Settled later key) :
    Tracks site conditions (some pledged) (spawnRecords settings content pages startAfter)
      (fun _ later => extra later ∧ ∀ key : EngagementKey, key.content = content →
        Settled later key) state := by
  induction pages generalizing state startAfter pledged with
  | zero => exact trivial
  | succ pages ih =>
    rw [spawnRecords]
    dsimp only
    refine Meets.unlessNotFound (seeks_queryEngagement honest tracked)
      (fun page middle moves hpage => ?_)
      (fun middle moves hmissing => (hmissing middle ((tracking site).rely_refl middle) rfl).elim)
      fun _ _ _ _ => trivial
    obtain ⟨hmiddle, hgrows⟩ := tracked_of_moves moves tracked
    have hpages := hpage middle ((tracking site).rely_refl middle)
    have hbatch : Tracks site conditions none
        (deleteBatch settings.backoff (page.records.map (·.key)))
        (fun _ later => ∀ key ∈ page.records.map (·.key), Settled later key) middle :=
      tracks_deleteBatchFrom honest hmiddle _ hpages.batch
    have hsettled : ∀ later, Tracked site later → Grows middle later → pledged later →
        (∀ key ∈ page.records.map (·.key), Settled later key) →
        ∀ key : EngagementKey, key.content = content →
          (∀ last, page.lastEvaluated = some last → ¬key.user.IsPast (some last)) →
            Settled later key :=
      fun later hlater hgrows' hpledged hshown key =>
        (hpages.grows hgrows').settled (covered later hlater (hgrows.trans hgrows') hpledged) hshown
    dsimp only
    cases hlast : page.lastEvaluated with
    | none =>
      have hdone : ∀ later, (tracking site).rely middle later → pledged later →
          (∀ key ∈ page.records.map (·.key), Settled later key) →
          extra later ∧ ∀ key : EngagementKey, key.content = content → Settled later key := by
        intro later rely hpledged hshown
        obtain ⟨hlater, hgrows'⟩ := rely hmiddle
        refine ⟨hextra later hlater (hgrows.trans hgrows') hpledged, fun key hkey => ?_⟩
        refine hsettled later hlater hgrows' hpledged hshown key hkey fun last h => ?_
        rw [hlast] at h
        cases h
      split
      · exact ⟨pledged, _, rfl, hbatch, fun later rely h => hdone later rely h.1 h.2⟩
      · rename_i hpage
        exact fun later rely h => hdone later rely h (EngagementPage.forall_key_of_isEmpty hpage)
    | some last =>
      have hmore : ∀ made : Forum × Journal → Prop,
          (∀ later, made later → pledged later ∧
            ∀ key ∈ page.records.map (·.key), Settled later key) →
          Tracks site conditions (some made) (spawnRecords settings content pages (some last))
            (fun _ later => extra later ∧ ∀ key : EngagementKey, key.content = content →
              Settled later key) middle := by
        intro made hmade
        refine ih hmiddle ?_ fun later hlater hgrows' h key hkey hpast => ?_
        · exact fun later hlater hgrows' h =>
            hextra later hlater (hgrows.trans hgrows') (hmade later h).1
        · obtain ⟨hpledged, hshown⟩ := hmade later h
          refine hsettled later hlater hgrows' hpledged hshown key hkey fun other hother => ?_
          rw [hlast] at hother
          cases hother
          exact hpast
      split
      · exact ⟨pledged, _, rfl, hbatch, hmore _ fun later h => h⟩
      · rename_i hpage
        exact hmore pledged fun later h => ⟨h, EngagementPage.forall_key_of_isEmpty hpage⟩

omit honest

/-! ### Comments -/

/-- What is known of a scope while some items are held. A page has come by every position after the
start that does not lie ahead; an item that is stored there is held, or came too late. -/
structure Covers (state : Forum × Journal) (scope : ScopeId) (startAfter : Option IndexKey)
    (held : List ContentItem) (Ahead : IndexKey → Prop) : Prop where
  known : ∀ item ∈ held, item.scope = scope ∧ item.asCreated ∈ state.1.created
  listed : ∀ position, Direction.ascending.isPast startAfter position = true →
    (∃ listing ∈ state.2, listing.ListsItem scope position) ∨ Ahead position
  rest : ∀ key item, key.scope = scope → state.1.store.item? key = some item →
    Direction.ascending.isPast startAfter (item.indexKey .created) = true →
      state.2.LateItem scope item ∨
        item.indexKey .created ∈ held.map (·.indexKey .created) ∨ Ahead (item.indexKey .created)

variable {scope : ScopeId} {startAfter reached : Option IndexKey} {held : List ContentItem}
  {Ahead : IndexKey → Prop}

theorem Covers.grows (h : Covers state scope startAfter held Ahead) (grows : Grows state later) :
    Covers later scope startAfter held Ahead where
  known item hitem := (h.known item hitem).imp_right (grows.created ·)
  listed position hpast := (h.listed position hpast).imp_left grows.listed
  rest key item hscope hitem hpast := by
    obtain hlisted | hahead := h.listed _ hpast
    · by_cases hrest : item.indexKey .created ∈ held.map (·.indexKey .created) ∨
        Ahead (item.indexKey .created)
      · exact .inr hrest
      · refine .inl (grows.lateItem hitem hlisted fun before hbefore hsame => ?_)
        have hposition : before.indexKey .created = item.indexKey .created :=
          ContentItem.field_eq hsame (fun item => item.indexKey .created) fun _ => rfl
        refine (h.rest key before hscope hbefore (hposition ▸ hpast)).resolve_right ?_
        rwa [hposition]
    · exact .inr (.inr hahead)

theorem Covers.imp {Ahead' : IndexKey → Prop} (h : Covers state scope startAfter held Ahead)
    (imp : ∀ position, Ahead position → Ahead' position) :
    Covers state scope startAfter held Ahead' where
  known := h.known
  listed position hpast := (h.listed position hpast).imp_right (imp position)
  rest key item hscope hitem hpast :=
    (h.rest key item hscope hitem hpast).imp_right (Or.imp_right (imp _))

theorem covers_nil (state : Forum × Journal) (scope : ScopeId) (startAfter : Option IndexKey) :
    Covers state scope startAfter [] fun position =>
      Direction.ascending.isPast startAfter position = true where
  known _ h := by cases h
  listed _ hpast := .inr hpast
  rest _ _ _ _ hpast := .inr (.inr hpast)

/-- A round adds its page to what is held, and leaves ahead what follows the page. -/
theorem Covers.round {settings : Settings} {page : ContentPage} (tracked : Tracked site state)
    (h : Covers state scope startAfter held fun position =>
      Direction.ascending.isPast reached position = true)
    (answer : (site.tracing conditions).Answers
      (.store (.queryContent ((Scan.children scope startAfter).query settings reached))) state
      (.ok page) later) (grows : Grows state later) :
    Covers later scope startAfter (held ++ page.items) (·.Follows page.lastEvaluated) := by
  obtain ⟨⟨answer, -⟩, hjournal⟩ := answer
  obtain ⟨hpage, hlater⟩ := Site.Answer.queryContent answer
  have filed := tracked.keyed.items
  have h' := h.grows grows
  refine ⟨fun item hitem => ?_, fun position hpast => ?_, fun key item hscope hitem hpast => ?_⟩
  · rcases List.mem_append.1 hitem with hheld | hnew
    · exact h'.known item hheld
    · obtain ⟨hstored, hscope⟩ := (StoreState.Filed.mem_scopeItems_iff filed).1
        (StoreState.mem_scope_of_queryContent hpage hnew).1
      rw [hlater]
      exact ⟨hscope, (tracked.reachable.sound.1.items _ item hstored).2⟩
  · refine (h'.listed position hpast).elim .inl fun hahead => or_iff_not_imp_right.2 fun hnot => ?_
    rw [hjournal]
    refine ⟨_, List.mem_append_right _ List.mem_cons_self, ⟨rfl, rfl, rfl, rfl⟩, hahead, ?_⟩
    exact fun last hlast => Bool.eq_false_iff.2 fun hafter => hnot ⟨last, hlast, hafter⟩
  · obtain hlate | hheld | hahead := h'.rest key item hscope hitem hpast
    · exact .inl hlate
    · rw [List.map_append, List.mem_append]
      exact .inr (.inl (.inl hheld))
    · have hmem : item ∈ state.1.store.scopeItems scope := by
        rw [hlater] at hitem
        obtain rfl := filed key item hitem
        exact (StoreState.Filed.mem_scopeItems_iff filed).2 ⟨hitem, hscope⟩
      rcases StoreState.mem_or_after_of_queryContent filed hpage hmem hahead rfl with hnew | hafter
      · exact .inr (.inl (List.mem_map_of_mem (List.mem_append_right _ hnew)))
      · exact .inr (.inr hafter)

/-- Once the items that are held are gone, what is still in the scope lies ahead or came too late,
if what lies before the start did. -/
theorem Covers.left (h : Covers state scope startAfter held Ahead) (tracked : Tracked site state)
    (covered : ∀ key item, key.scope = scope → state.1.store.item? key = some item →
      Direction.ascending.isPast startAfter (item.indexKey .created) = true ∨
        state.2.LateItem scope item)
    (gone : ∀ item ∈ held, state.1.store.item? item.key = none) {key : ContentKey}
    {item : ContentItem} (hscope : key.scope = scope)
    (hitem : state.1.store.item? key = some item) :
    Ahead (item.indexKey .created) ∨ state.2.LateItem scope item := by
  obtain hpast | hlate := covered key item hscope hitem
  · rcases h.rest key item hscope hitem hpast with hlate | hmem | hahead
    · exact .inr hlate
    · obtain ⟨child, hchild, hposition⟩ := List.mem_map.1 hmem
      obtain rfl := tracked.keyed.items key item hitem
      have hkey : child.key = item.key := by
        have hid : child.id = item.id := congrArg IndexKey.id hposition
        unfold ContentItem.key at hscope ⊢
        rw [(h.known child hchild).1, hid, ← hscope]
      rw [← hkey, gone child hchild] at hitem
      cases hitem
    · exact .inl hahead
  · exact .inr hlate

/-- What lies after a page that is cut from what is held. -/
theorem Covers.ofHeld {exhausted : Bool} (h : Covers state scope startAfter held Ahead)
    (ordered : held.Pairwise fun a b =>
      Direction.ascending.isAfter (b.indexKey .created) (a.indexKey .created) = true)
    (full : ∀ position, Ahead position → exhausted = false ∧
      (Scan.children scope startAfter).pageSize ≤ held.length ∧ ∀ item ∈ held,
        Direction.ascending.isAfter position (item.indexKey .created) = true) :
    let collected := Collected.ofHeld (.children scope startAfter) exhausted held
    Covers state scope startAfter collected.items (·.Follows collected.next) := by
  intro collected
  have hcut : ∀ {position : IndexKey}, position ∈ held.map (·.indexKey .created) ∨ Ahead position →
      position ∈ collected.items.map (·.indexKey .created) ∨ position.Follows collected.next :=
    fun hposition => Collected.mem_or_after_ofHeld ordered (hposition.imp_right (full _))
  refine ⟨fun item hitem => h.known item (List.mem_of_mem_take hitem), fun position hpast => ?_,
    fun key item hscope hitem hpast => ?_⟩
  · refine (h.listed position hpast).imp_right fun hahead => ?_
    refine (hcut (.inr hahead)).resolve_left fun hmem => ?_
    obtain ⟨item, hitem, rfl⟩ := List.mem_map.1 hmem
    have hafter := (full _ hahead).2.2 item (List.mem_of_mem_take hitem)
    rw [Direction.isAfter_self] at hafter
    cases hafter
  · exact (h.rest key item hscope hitem hpast).imp_right hcut

include honest

/-- The rounds of a page go on until the page covers what lies between its start and its end. -/
theorem seeks_collectFrom {settings : Settings} (rounds : Nat) (tracked : Tracked site state)
    (covers : Covers state scope startAfter held fun position =>
      Direction.ascending.isPast reached position = true)
    (order : (Scan.children scope startAfter).course.Held (fun _ => True) startAfter reached held) :
    Seeks site conditions (collectFrom settings (.children scope startAfter) rounds reached held)
      (fun collected later =>
        Covers later scope startAfter collected.items (·.Follows collected.next)) state := by
  induction rounds generalizing state reached held with
  | zero => exact trivial
  | succ rounds ih =>
    rw [collectFrom]
    refine tracks_perform honest tracked (fun _ heq => by cases heq)
      fun later reply after hlater hgrows answer hafter hgrows' => ?_
    cases reply with
    | error error =>
      obtain ⟨-, hfound, -⟩ :=
        Site.Answer.of_queryContent honest answer.1.1 (Scan.query_limit_pos ..)
      exact fun _ _ => StoreError.ofStore_ne_notFound hfound
    | ok page =>
      obtain ⟨hpage, -⟩ := Site.Answer.queryContent answer.1.1
      have filed := hlater.keyed.items
      have hround := (covers.grows hgrows).round hlater answer hgrows'
      have hreads := order.append trivial filed hpage
      have hsort : ContentItem.sort .created .ascending (held ++ page.items) =
          held ++ page.items := hreads.sort_eq
      simp only [Program.ofExcept, done_bind, Scan.children, hsort]
      cases hlast : page.lastEvaluated with
      | none =>
        rw [hlast] at hround
        refine fun last rely _ => (hround.ofHeld hreads.ordered ?_).grows (rely hafter).2
        exact fun position hfollows => absurd hfollows position.not_follows_none
      | some position =>
        obtain ⟨-, -, horder⟩ := order.round trivial filed hpage hlast
        rw [hlast] at hround
        have hahead := hround.imp fun other => IndexKey.follows_some.1
        dsimp only
        split
        · exact ih hafter hahead horder
        · rename_i hfull
          refine fun last rely _ => (hahead.ofHeld hreads.ordered ?_).grows (rely hafter).2
          exact fun other hother => ⟨rfl, Nat.le_of_not_lt hfull,
            fun item hitem => horder.isAfter_of_past hitem hother⟩

/-- Once the units that a survey of comments spawns have ended, the scope is settled, if each unit
removes its comment and the units spawned before take care of all comments before the position that
it starts from. -/
theorem tracks_spawnChildren {settings : Settings} {rounds : Nat}
    {unit : ContentItem → Program Unit}
    (hunit : ∀ later, Tracked site later → ∀ item : ContentItem,
      item.asCreated ∈ later.1.created → Tracks site conditions none (unit item)
        (fun _ last => last.1.store.item? item.key = none) later) (pages : Nat)
    {startAfter : Option IndexKey} {pledged : Forum × Journal → Prop} (tracked : Tracked site state)
    (listed : ∀ position, Direction.ascending.isPast startAfter position = true ∨
      ∃ listing ∈ state.2, listing.ListsItem scope position)
    (covered : ∀ later, Tracked site later → Grows state later → pledged later →
      ∀ key item, key.scope = scope → later.1.store.item? key = some item →
        Direction.ascending.isPast startAfter (item.indexKey .created) = true ∨
          later.2.LateItem scope item) :
    Tracks site conditions (some pledged)
      (spawnChildren settings rounds scope unit pages startAfter)
      (fun _ later => SettledScope later scope) state := by
  induction pages generalizing state startAfter pledged with
  | zero => exact trivial
  | succ pages ih =>
    rw [spawnChildren]
    have hcollect : Seeks site conditions (collect settings rounds (.children scope startAfter))
        (fun collected later =>
          Covers later scope startAfter collected.items (·.Follows collected.next)) state :=
      seeks_collectFrom honest rounds tracked (covers_nil state scope startAfter)
        (Course.held_nil _ _ startAfter)
    refine Meets.unlessNotFound hcollect (fun collected middle moves hcovers => ?_)
      (fun middle moves hmissing => (hmissing middle ((tracking site).rely_refl middle) rfl).elim)
      fun _ _ _ _ => trivial
    obtain ⟨hmiddle, hgrows⟩ := tracked_of_moves moves tracked
    have hcovers := hcovers middle ((tracking site).rely_refl middle)
    refine Meets.forkAll (fun item hitem => hunit middle hmiddle item (hcovers.known item hitem).2)
      fun made hmade => ?_
    have hlisted : ∀ position : IndexKey, position.Follows collected.next ∨
        ∃ listing ∈ middle.2, listing.ListsItem scope position := by
      intro position
      obtain hpast | hlisted := listed position
      · exact (hcovers.listed position hpast).symm
      · exact .inr (hgrows.listed hlisted)
    have hleft : ∀ later, Tracked site later → Grows middle later → made later →
        ∀ key item, key.scope = scope → later.1.store.item? key = some item →
          (item.indexKey .created).Follows collected.next ∨ later.2.LateItem scope item := by
      intro later hlater hgrows' h key item
      obtain ⟨hpledged, hgone⟩ := hmade later h
      exact (hcovers.grows hgrows').left hlater
        (covered later hlater (hgrows.trans hgrows') hpledged) hgone
    cases hnext : collected.next with
    | none =>
      intro later rely h
      obtain ⟨hlater, hgrows'⟩ := rely hmiddle
      rw [hnext] at hleft hlisted
      refine ⟨fun position => ?_, fun key item hscope hitem => ?_⟩
      · exact hgrows'.listed ((hlisted position).resolve_left position.not_follows_none)
      · exact (hleft later hlater hgrows' h key item hscope hitem).resolve_left
          (IndexKey.not_follows_none _)
    | some next =>
      rw [hnext] at hleft hlisted
      refine ih hmiddle (fun position => (hlisted position).imp_left IndexKey.follows_some.1)
        fun later hlater hgrows' h key item hscope hitem => ?_
      exact (hleft later hlater hgrows' h key item hscope hitem).imp_left IndexKey.follows_some.1

end

end Forum

end HiveForum
