import HiveForum.Proofs.Isolation.Confinement

/-!
# Every operation keeps to its hive

Each operation names the hive that it is about. It asks for membership in that hive, loads the item
that it is to work on and checks that it belongs there, and from then on reaches only what is stored
under that item or what it writes itself.

## Main definitions

* `Operation.hive?`: the hive that an operation is addressed to.

## Main results

* `Program.confined_loadTarget`: an item of another hive is not found.
* `Program.confined_currentRecord`: a record on an item of the hive is of the hive.
* `Program.confined_cascade`: what is deleted with an item of the hive is of the hive.
* `Operation.confined`: every operation keeps to the hive that it is addressed to.
-/

namespace HiveForum

/-- The hive that an operation is addressed to; none if it asks for the store only. -/
def Operation.hive? : Operation → Option ScopeId
  | .createPost _ hive _ _ => some hive
  | .createComment _ hive _ _ => some hive
  | .getContent _ target => some target.hive
  | .markReviewed _ target => some target.hive
  | .setPinned _ target _ => some target.hive
  | .deleteContent _ target => some target.hive
  | .vote _ target _ => some target.hive
  | .setSaved _ target _ => some target.hive
  | .report _ target _ => some target.hive
  | .withdrawReport _ target => some target.hive
  | .getEngagement _ target => some target.hive
  | .lookupEngagement _ hive _ => some hive
  | .listContent _ hive _ => some hive
  | .ping => none

namespace View.OwnsRecord

variable {view : View} {record changed : EngagementRecord}

theorem vote {request : VoteRequest} {time : Int64} {change : VoteChange}
    (owned : view.OwnsRecord record)
    (h : record.vote request time = .apply (changed, change)) : view.OwnsRecord changed := by
  rw [EngagementRecord.vote] at h
  split at h
  · cases h
    obtain ⟨side, add⟩ := request
    cases side <;> cases add <;> exact ⟨owned.hive, owned.content⟩
  · cases h

theorem report {action : ReportAction} {reviewed : Bool} {outcome : ReportOutcome}
    (owned : view.OwnsRecord record)
    (h : record.report action reviewed = .ok (.apply (changed, outcome))) :
    view.OwnsRecord changed := by
  rw [EngagementRecord.report] at h
  split at h
  · cases h
  · cases h
  · cases h
    cases outcome <;> exact ⟨owned.hive, owned.content⟩

theorem setSaved {saved : Bool} (owned : view.OwnsRecord record)
    (h : record.setSaved saved = .apply changed) : view.OwnsRecord changed := by
  rw [EngagementRecord.setSaved] at h
  split at h
  · cases h
  · cases h
    exact ⟨owned.hive, owned.content⟩

end View.OwnsRecord

namespace Program

variable {view : View} {draws : Bool} {caller : Caller} {target : Target} {settings : Settings}

/-! ### Membership and items -/

theorem confined_authorize :
    (authorize caller view.hive).Confined view draws fun _ => view.owns view.hive.asContent := by
  refine .ask rfl (fun _ _ => rfl) fun reply hreply => ?_
  cases reply with
  | ok role => exact .done (hreply role rfl)
  | error error => exact .fail

theorem confined_authorizeAs {required : Role} :
    (authorizeAs caller view.hive required).Confined view false fun _ => True :=
  .ask rfl (fun _ _ => rfl) fun _ _ => confined_ofExcept.weaken fun _ _ => trivial

/-- An item that is loaded is of the hive; one of another hive is not found, as if there were
none. -/
theorem confined_loadTarget (h : target.hive = view.hive) :
    (loadTarget target).Confined view draws
      fun item => item.key = target.content ∧ view.OwnsItem item := by
  refine .perform trivial (fun reply _ => ?_) fun reply hreply => ?_
  · cases reply with
    | error error => rfl
    | ok item =>
      by_cases hhive : item.hive = view.hive
      · simp only [Effect.veil, if_pos hhive]
      · have hother : item.hive ≠ target.hive := h ▸ hhive
        simp only [Effect.veil, if_neg hhive, ofExcept, done_bind, if_neg hother]
        rfl
  · cases reply with
    | error error => exact .fail
    | ok item =>
      obtain ⟨hkey, tells⟩ := hreply item rfl
      by_cases hhive : item.hive = target.hive
      · simp only [ofExcept, done_bind, if_pos hhive]
        exact .done ⟨hkey, tells.owns (hhive.trans h)⟩
      · simp only [ofExcept, done_bind, if_neg hhive]
        exact .fail

/-! ### Publishing -/

theorem confined_createPost {body : String} {tags : List TagId} :
    (createPost caller view.hive body tags).Confined view true fun _ => True := by
  rw [createPost]
  refine confined_authorize.bind fun _ hknown => ?_
  refine confined_ofExcept.bind fun _ _ => ?_
  refine confined_ofExcept.bind fun _ _ => ?_
  refine .ask trivial (fun _ _ => rfl) fun time _ => ?_
  refine .draw fun id hid => ?_
  rw [done_bind]
  refine Confined.bind (confined_call ⟨rfl, hknown, hid⟩ fun _ _ => rfl) fun _ _ => ?_
  exact .done trivial

theorem confined_createComment {post : ContentId} {body : String} :
    (createComment caller view.hive post body).Confined view true fun _ => True := by
  rw [createComment]
  refine confined_authorize.bind fun _ _ => ?_
  refine confined_ofExcept.bind fun _ _ => ?_
  refine (confined_loadTarget rfl).bind fun parent hparent => ?_
  obtain ⟨hkey, owned⟩ := hparent
  have hpost : view.owns post := by
    have hid : parent.id = post := congrArg ContentKey.id hkey
    exact hid ▸ owned.id
  dsimp only
  split
  · exact .fail
  · refine .ask trivial (fun _ _ => rfl) fun time _ => ?_
    refine .draw fun id hid => ?_
    rw [done_bind]
    refine Confined.bind (confined_call ⟨rfl, hpost, hid⟩ fun _ _ => rfl) fun _ _ => ?_
    refine .ask owned.id (fun _ _ => rfl) fun _ _ => ?_
    refine .ask owned.id (fun _ _ => rfl) fun _ _ => ?_
    exact .ask trivial (fun _ _ => rfl) fun _ _ => .done trivial

/-! ### Moderating -/

theorem confined_getContent (h : target.hive = view.hive) :
    (getContent caller target).Confined view false fun _ => True := by
  rw [getContent, h]
  refine confined_authorize.bind fun _ _ => ?_
  exact (confined_loadTarget h).weaken fun _ _ => trivial

theorem confined_markReviewed (h : target.hive = view.hive) :
    (markReviewed caller target).Confined view false fun _ => True := by
  rw [markReviewed, h]
  refine confined_authorizeAs.bind fun _ _ => ?_
  refine (confined_loadTarget h).bind fun item hitem => ?_
  exact Confined.weaken (confined_call (hitem.1 ▸ hitem.2.id) fun _ _ => rfl) fun _ _ => trivial

theorem confined_setPinned {pinned : Bool} (h : target.hive = view.hive) :
    (setPinned caller target pinned).Confined view false fun _ => True := by
  rw [setPinned, h]
  refine confined_authorizeAs.bind fun _ _ => ?_
  refine (confined_loadTarget h).bind fun item hitem => ?_
  dsimp only
  split
  · exact .fail
  · exact Confined.weaken (confined_call (hitem.1 ▸ hitem.2.id) fun _ _ => rfl) fun _ _ => trivial

/-! ### Engaging -/

/-- A record on an item of the hive is of the hive, whether it is stored or new. -/
theorem confined_currentRecord (h : target.hive = view.hive)
    (owned : view.owns target.content.id) :
    (currentRecord caller target).Confined view false view.OwnsRecord := by
  have hrecord : ∀ reply, view.Vouches (.store (.getEngagement caller.user target.content.id))
      reply → ∀ record, reply = .ok record → view.OwnsRecord record := by
    intro reply hreply record heq
    obtain ⟨hcontent, tells⟩ := hreply record heq
    exact ⟨tells.1 (hcontent ▸ owned), hcontent ▸ owned⟩
  rw [currentRecord]
  refine Confined.bind (confined_tryCall trivial fun reply hreply => ?_) fun reply hreply => ?_
  · cases reply with
    | error error => rfl
    | ok record => simp only [Effect.veil, if_pos (hrecord _ hreply record rfl).hive]
  · cases reply with
    | ok record => exact .done (hrecord _ hreply record rfl)
    | error error =>
      dsimp only
      split
      · exact .done ⟨h, owned⟩
      · exact .fail

theorem confined_changeOf {α : Type} {transition : Transition α} :
    (changeOf transition).Confined view draws fun change => transition = .apply change := by
  cases transition with
  | apply change => exact .done rfl
  | noOp => exact .fail

/-- An attempt that is made again and again. -/
theorem confined_retryConflicts {α : Type} {attempt : Program (Except StoreError α)}
    (h : attempt.Confined view false fun _ => True) (retries : Nat) :
    (retryConflicts attempt retries).Confined view false fun _ => True := by
  have hresult : ∀ result : Except StoreError α,
      (ofExcept .ofStore result).Confined view false fun _ => True :=
    fun _ => confined_ofExcept.weaken fun _ _ => trivial
  induction retries with
  | zero => exact h.bind fun result _ => hresult result
  | succ retries ih =>
    refine h.bind fun result _ => ?_
    split
    · exact ih
    · exact hresult result

theorem confined_attemptVote {request : VoteRequest} {time : Int64} (h : target.hive = view.hive)
    (owned : view.owns target.content.id) :
    (attemptVote caller target request time).Confined view false fun _ => True := by
  rw [attemptVote]
  refine (confined_currentRecord h owned).bind fun record hrecord => ?_
  refine confined_changeOf.bind fun change hchange => ?_
  obtain ⟨changed, change⟩ := change
  have hchanged := hrecord.vote hchange
  exact Confined.weaken (confined_tryCall ⟨hchanged, owned⟩ fun _ _ => rfl) fun _ _ => trivial

theorem confined_vote {request : VoteRequest} (h : target.hive = view.hive) :
    (vote settings caller target request).Confined view false fun _ => True := by
  rw [vote, h]
  refine confined_authorize.bind fun _ _ => ?_
  refine (confined_loadTarget h).bind fun item hitem => ?_
  refine .ask trivial (fun _ _ => rfl) fun time _ => ?_
  refine (confined_retryConflicts (confined_attemptVote h (hitem.1 ▸ hitem.2.id)) _).bind
    fun pair _ => ?_
  dsimp only
  split
  · exact .ask trivial (fun _ _ => rfl) fun _ _ => .done trivial
  · exact .done trivial

theorem confined_attemptSave {saved : Bool} (h : target.hive = view.hive)
    (owned : view.owns target.content.id) :
    (attemptSave caller target saved).Confined view false fun _ => True := by
  rw [attemptSave]
  refine (confined_currentRecord h owned).bind fun record hrecord => ?_
  refine confined_changeOf.bind fun changed hchange => ?_
  have hchanged := hrecord.setSaved hchange
  exact Confined.weaken (confined_tryCall hchanged fun _ _ => rfl) fun _ _ => trivial

theorem confined_setSaved {saved : Bool} (h : target.hive = view.hive) :
    (setSaved settings caller target saved).Confined view false fun _ => True := by
  rw [setSaved, h]
  refine confined_authorize.bind fun _ _ => ?_
  refine (confined_loadTarget h).bind fun item hitem => ?_
  exact confined_retryConflicts (confined_attemptSave h (hitem.1 ▸ hitem.2.id)) _

theorem confined_attemptReport {action : ReportAction} (h : target.hive = view.hive) :
    (attemptReport caller target action).Confined view false fun _ => True := by
  rw [attemptReport]
  refine (confined_loadTarget h).bind fun item hitem => ?_
  have owned : view.owns target.content.id := hitem.1 ▸ hitem.2.id
  refine (confined_currentRecord h owned).bind fun record hrecord => ?_
  refine confined_ofExcept.bind fun transition htransition => ?_
  refine confined_changeOf.bind fun change hchange => ?_
  obtain ⟨changed, outcome⟩ := change
  have hchanged := hrecord.report (hchange ▸ htransition)
  exact Confined.weaken (confined_tryCall ⟨hchanged, owned⟩ fun _ _ => rfl) fun _ _ => trivial

theorem confined_applyReport {action : ReportAction} (h : target.hive = view.hive) :
    (applyReport settings caller target action).Confined view false fun _ => True := by
  rw [applyReport, h]
  refine confined_authorize.bind fun _ _ => ?_
  refine (confined_retryConflicts (confined_attemptReport h) _).bind fun pair _ => ?_
  exact .done trivial

theorem confined_report {reason : Option String} (h : target.hive = view.hive) :
    (report settings caller target reason).Confined view false fun _ => True := by
  rw [report]
  exact confined_ofExcept.bind fun _ _ => confined_applyReport h

/-- A record of another hive is not found, as if there were none. -/
theorem confined_getEngagement (h : target.hive = view.hive) :
    (getEngagement caller target).Confined view false fun _ => True := by
  rw [getEngagement, h]
  refine confined_authorize.bind fun _ _ => ?_
  refine .perform trivial (fun reply _ => ?_) fun reply _ => ?_
  · cases reply with
    | error error => rfl
    | ok record =>
      by_cases hhive : record.hive = view.hive
      · simp only [Effect.veil, if_pos hhive]
      · simp only [Effect.veil, if_neg hhive, ofExcept, done_bind]
        rfl
  · cases reply with
    | error error => exact .fail
    | ok record =>
      simp only [ofExcept, done_bind]
      split
      · exact .done trivial
      · exact .fail

/-- Records of other hives are left out. -/
theorem confined_lookupEngagement {contents : List ContentId} :
    (lookupEngagement caller view.hive contents).Confined view false fun _ => True := by
  rw [lookupEngagement]
  refine confined_authorize.bind fun _ _ => ?_
  refine confined_ofExcept.bind fun _ _ => ?_
  refine .perform trivial (fun reply _ => ?_) fun reply _ => ?_
  · cases reply with
    | error error => rfl
    | ok records =>
      have htwice : ∀ table : Table ContentId EngagementRecord,
          (table.filter fun _ record => record.hive = view.hive).filter
            (fun _ record => record.hive = view.hive) =
          table.filter fun _ record => record.hive = view.hive := by
        intro table
        exact Table.ext_get? fun key => by simp [Table.get?_filter, Option.filter_filter]
      simp only [Effect.veil, ofExcept, done_bind, htwice]
  · cases reply with
    | error error => exact .fail
    | ok records => exact .done trivial

/-! ### Browsing -/

/-- The items that a scan collects are of the hive if its scope is. -/
theorem confined_collectFrom {scan : Scan} (scope : view.owns scan.scope.asContent) (rounds : Nat)
    (startAfter : Option IndexKey) (held : List ContentItem)
    (hheld : ∀ item ∈ held, view.OwnsItem item) :
    (collectFrom settings scan rounds startAfter held).Confined view false
      fun collected => ∀ item ∈ collected.items, view.OwnsItem item := by
  induction rounds generalizing startAfter held with
  | zero => exact .unfinished
  | succ rounds ih =>
    rw [collectFrom]
    refine Confined.bind (confined_call scope fun _ _ => rfl) fun page hpage => ?_
    have hmerged : ∀ item ∈ ContentItem.sort scan.sort scan.direction (held ++ page.items),
        view.OwnsItem item := by
      intro item hitem
      rw [(ContentItem.sort_perm _ _ _).mem_iff, List.mem_append] at hitem
      exact hitem.elim (hheld item) (hpage page rfl item)
    have hdone : ∀ exhausted, (Program.done (Collected.ofHeld scan exhausted
        (ContentItem.sort scan.sort scan.direction (held ++ page.items)))).Confined view false
        fun collected => ∀ item ∈ collected.items, view.OwnsItem item :=
      fun _ => .done fun item hitem => hmerged item (List.mem_of_mem_take hitem)
    dsimp only
    split
    · exact hdone true
    · split
      · exact ih _ _ hmerged
      · exact hdone false

theorem confined_collect {scan : Scan} (scope : view.owns scan.scope.asContent) (rounds : Nat) :
    (collect settings rounds scan).Confined view false
      fun collected => ∀ item ∈ collected.items, view.OwnsItem item :=
  confined_collectFrom scope rounds _ [] (by simp)

theorem confined_listItems {rounds : Nat} {request : ListRequest}
    (scope : view.owns request.scope.asContent) :
    (listItems settings rounds request).Confined view false fun _ => True := by
  rw [listItems]
  refine confined_ofExcept.bind fun _ _ => ?_
  refine confined_ofExcept.bind fun _ _ => ?_
  refine (confined_collect scope rounds).bind fun _ _ => ?_
  exact .done trivial

/-- What stands in the scope of the hive is of the hive, so that the post whose comments are listed
need not be checked. -/
theorem confined_listContent {rounds : Nat} {request : ListRequest} :
    (listContent settings rounds caller view.hive request).Confined view false
      fun _ => True := by
  rw [listContent]
  refine confined_authorize.bind fun _ hknown => ?_
  dsimp only
  split
  · have howned : ∀ reply, view.Vouches
        (.store (.getContent ⟨view.hive, request.scope.asContent⟩)) reply →
        ∀ item, reply = .ok item → view.OwnsItem item ∧ item.id = request.scope.asContent := by
      intro reply hreply item heq
      obtain ⟨hkey, tells⟩ := hreply item heq
      have hscope : item.scope = view.hive := congrArg ContentKey.scope hkey
      exact ⟨tells.owns (tells.scope.1 (hscope ▸ hknown)), congrArg ContentKey.id hkey⟩
    refine Confined.bind (confined_call trivial fun reply hreply => ?_) fun post hpost => ?_
    · cases reply with
      | error error => rfl
      | ok item => simp only [Effect.veil, if_pos (howned _ hreply item rfl).1.hive]
    · obtain ⟨owned, hid⟩ := howned _ hpost post rfl
      split
      · exact .fail
      · exact confined_listItems (hid ▸ owned.id)
  · rename_i hscope
    exact confined_listItems (Decidable.not_not.1 hscope ▸ hknown)

/-! ### Deleting -/

theorem Confined.unlessNotFound {α : Type} {p : Program α} {claim : α → Prop}
    (h : p.Confined view false claim) :
    (HiveForum.unlessNotFound p).Confined view false
      fun found => ∀ value, found = some value → claim value := by
  rw [HiveForum.unlessNotFound]
  refine h.attempt.bind fun result hresult => ?_
  split
  · exact .done fun value heq => hresult value (Option.some.inj heq ▸ rfl)
  · exact .done fun _ heq => by cases heq
  · exact .fail

/-- A batch is retried with its own keys only. -/
theorem confined_deleteBatchFrom {settings : BackoffSettings} (left : Nat)
    (keys : List EngagementKey) (owned : ∀ key ∈ keys, view.owns key.content) :
    (deleteBatchFrom settings left keys).Confined view false fun _ => True := by
  induction left generalizing keys with
  | zero =>
    rw [deleteBatchFrom]
    refine Confined.bind (confined_tryCall owned fun _ _ => rfl) fun reply _ => ?_
    split
    · exact .done trivial
    · exact confined_ofExcept.bind fun _ _ => .fail
  | succ left ih =>
    rw [deleteBatchFrom]
    refine Confined.bind (confined_tryCall owned fun _ _ => rfl) fun reply hreply => ?_
    split
    · exact .done trivial
    · refine confined_ofExcept.bind fun pending heq => ?_
      have hsub : pending ⊆ keys := by
        cases reply with
        | ok left => exact Except.ok.inj heq ▸ hreply left rfl
        | error error =>
          rw [remainingKeys] at heq
          split at heq
          · exact Except.ok.inj heq ▸ List.Subset.refl _
          · cases heq
      refine .ask trivial (fun _ _ => rfl) fun word _ => ?_
      refine .ask trivial (fun _ _ => rfl) fun passed _ => ?_
      cases passed with
      | ok _ => exact ih pending fun key hkey => owned key (hsub hkey)
      | error _ => exact .fail

/-- The units that delete the records of an item of the hive touch no others. -/
theorem confined_spawnRecords {content : ContentId} (owned : view.owns content) (pages : Nat)
    (startAfter : Option UserId) :
    (spawnRecords settings content pages startAfter).Confined view false fun _ => True := by
  induction pages generalizing startAfter with
  | zero => exact .unfinished
  | succ pages ih =>
    rw [spawnRecords]
    dsimp only
    have hquery : (call (.queryEngagement ⟨content, Limit.batchWrite, startAfter⟩)).Confined view
        false fun page => ∀ record ∈ page.records, view.owns record.content :=
      Confined.weaken (confined_call owned fun _ _ => rfl) fun page hpage => hpage page rfl
    refine hquery.unlessNotFound.bind fun found hfound => ?_
    cases found with
    | none => exact .done trivial
    | some page =>
      have hbatch : (deleteBatch settings.backoff (page.records.map (·.key))).Confined view false
          fun _ => True := by
        refine confined_deleteBatchFrom _ _ fun key hkey => ?_
        obtain ⟨record, hrecord, rfl⟩ := List.mem_map.1 hkey
        exact hfound page rfl record hrecord
      dsimp only
      cases page.lastEvaluated with
      | none =>
        split
        · exact .spawn hbatch (.done trivial)
        · exact .done trivial
      | some user =>
        split
        · exact .spawn hbatch (ih (some user))
        · exact ih (some user)

/-- A unit is spawned for items of the hive only. -/
theorem confined_spawnChildren {scope : ScopeId} {unit : ContentItem → Program Unit} {rounds : Nat}
    (owned : view.owns scope.asContent)
    (hunit : ∀ item, view.OwnsItem item → (unit item).Confined view false fun _ => True)
    (pages : Nat) (startAfter : Option IndexKey) :
    (spawnChildren settings rounds scope unit pages startAfter).Confined view false
      fun _ => True := by
  induction pages generalizing startAfter with
  | zero => exact .unfinished
  | succ pages ih =>
    rw [spawnChildren]
    have hcollect := @confined_collect view settings (.children scope startAfter) owned rounds
    refine hcollect.unlessNotFound.bind fun found hfound => ?_
    cases found with
    | none => exact .done trivial
    | some collected =>
      have hunits : ∀ work ∈ collected.items.map unit,
          work.Confined view false fun _ => True := by
        intro work hwork
        obtain ⟨item, hitem, rfl⟩ := List.mem_map.1 hwork
        exact hunit item (hfound collected rfl item hitem)
      refine (confined_forkAll hunits).bind fun _ _ => ?_
      split
      · exact .done trivial
      · exact ih _

/-- What is deleted with an item of the hive is of the hive. -/
theorem confined_cascade {pages : Nat} (depth : Nat) {key : ContentKey} {kind : ContentKind}
    (owned : view.owns key.id) :
    (cascade settings pages depth key kind).Confined view false fun _ => True := by
  induction depth generalizing key kind with
  | zero => exact .unfinished
  | succ depth ih =>
    have hrecords := @confined_spawnRecords view settings key.id owned pages none
    rw [cascade]
    refine .gather ?_ fun gathered => ?_
    · dsimp only
      split
      · refine Confined.bind (confined_spawnChildren owned (fun child hchild => ?_) pages none)
          fun _ _ => hrecords
        exact (ih hchild.id).bind fun _ _ => .done trivial
      · exact hrecords
    · refine confined_ofExcept.bind fun _ _ => ?_
      refine confined_ofExcept.bind fun _ _ => ?_
      refine Confined.bind (confined_tryCall owned fun _ _ => rfl) fun reply _ => ?_
      split
      · exact .done trivial
      · split
        · exact .done trivial
        · exact .fail

theorem confined_deleteContent {horizon : Nat} (h : target.hive = view.hive) :
    (deleteContent settings horizon caller target).Confined view false fun _ => True := by
  rw [deleteContent, h]
  refine confined_authorize.bind fun role _ => ?_
  refine (confined_loadTarget h).unlessNotFound.bind fun found hfound => ?_
  cases found with
  | none => exact .done trivial
  | some item =>
    obtain ⟨-, owned⟩ := hfound item rfl
    dsimp only
    split
    · exact .fail
    · refine Confined.bind (confined_cascade horizon owned.id) fun deleted _ => ?_
      split
      · exact .ask owned.scope (fun _ _ => rfl) fun _ _ => .done trivial
      · exact .done trivial

end Program

/-- Every operation keeps to the hive that it is addressed to, and draws an identifier once at
most. -/
theorem Operation.confined {view : View} (op : Operation)
    (addressed : ∀ hive, op.hive? = some hive → hive = view.hive) (settings : Settings)
    (horizon : Nat) : ∃ draws, (op.program settings horizon).Confined view draws fun _ => True := by
  cases op with
  | createPost => exact ⟨true, addressed _ rfl ▸ Program.confined_createPost⟩
  | createComment => exact ⟨true, addressed _ rfl ▸ Program.confined_createComment⟩
  | getContent => exact ⟨false, Program.confined_getContent (addressed _ rfl)⟩
  | markReviewed => exact ⟨false, Program.confined_markReviewed (addressed _ rfl)⟩
  | setPinned => exact ⟨false, Program.confined_setPinned (addressed _ rfl)⟩
  | deleteContent => exact ⟨false, Program.confined_deleteContent (addressed _ rfl)⟩
  | vote => exact ⟨false, Program.confined_vote (addressed _ rfl)⟩
  | setSaved => exact ⟨false, Program.confined_setSaved (addressed _ rfl)⟩
  | report => exact ⟨false, Program.confined_report (addressed _ rfl)⟩
  | withdrawReport => exact ⟨false, Program.confined_applyReport (addressed _ rfl)⟩
  | getEngagement => exact ⟨false, Program.confined_getEngagement (addressed _ rfl)⟩
  | lookupEngagement => exact ⟨false, addressed _ rfl ▸ Program.confined_lookupEngagement⟩
  | listContent => exact ⟨false, addressed _ rfl ▸ Program.confined_listContent⟩
  | ping =>
    have hcall : (Program.call .ping).Confined view false fun _ => True :=
      Program.Confined.weaken (Program.confined_call trivial fun _ _ => rfl) fun _ _ => trivial
    exact ⟨false, hcall⟩

end HiveForum
