import HiveForum.Proofs.Engagement.Transition
import HiveForum.Proofs.Forum.Advance

/-!
# How votes, marks and reports conduct themselves

An operation that engages with an item keeps the forum sound, wherever others come in between and
whatever goes wrong, and is ready to write what it writes: the record and the change of the counts
that go with it both follow from the record that it has read.

## Main definitions

* `Forum.contract`: the contract of all operations.
* `Forum.Conducts`: a program meets the contract, and its result is as claimed.

## Main results

* `Forum.conducts_vote`, `Forum.conducts_setSaved`, `Forum.conducts_report`: votes, marks and
  reports meet the contract.
-/

namespace HiveForum

open Program

namespace Forum

/-- Others may let the forum advance, and so does every effect of an operation. -/
def contract (outlook : Outlook) : Contract Forum where
  rely forum later := forum.Sound outlook → forum.Advances outlook later
  guarantee forum later := forum.Sound outlook → forum.Advances outlook later
  failing _ _ := True
  endless := True
  rely_refl _ sound := .refl sound
  rely_trans h h' sound := (h sound).trans (h' (h sound).sound)

variable {outlook : Outlook} {conditions : Conditions} {forum : Forum}
  {α : Type}

/-- The responses after which the forum is regular. -/
abbrev regular (outlook : Outlook) (conditions : Conditions) : Responses Forum :=
  (outlook.site.responses conditions).within (Regular outlook)

/-- A program meets the contract of operations, and its value satisfies a claim from then on. -/
abbrev Conducts (outlook : Outlook) (conditions : Conditions)
    (p : Program α) (claim : α → Forum → Prop) (forum : Forum) : Prop :=
  p.Meets (regular outlook conditions) (contract outlook) none
    claim forum

section

variable (sound : forum.Sound outlook)

include sound

theorem conducts_done {value : α} {claim : α → Forum → Prop}
    (h : ∀ later, forum.Advances outlook later → claim value later) :
    Conducts outlook conditions (.done value) claim forum :=
  fun later hrely _ => h later (hrely sound)

omit sound in
theorem conducts_fail {error : OperationError} {claim : α → Forum → Prop} :
    Conducts outlook conditions (.fail error) claim forum :=
  fun _ _ => trivial

theorem conducts_perform {effect : Effect} {next : effect.Reply → Program α}
    {claim : α → Forum → Prop}
    (admits : ∀ later, forum.Advances outlook later → later.Admits outlook effect)
    (hnext : ∀ later reply after, forum.Advances outlook later →
      outlook.site.Answer conditions effect later reply after → later.Advances outlook after →
        Conducts outlook conditions (next reply) claim after) :
    Conducts outlook conditions (.perform effect next) claim forum := by
  intro later reply after hrely answer
  obtain ⟨answer, regular⟩ := answer
  have hlater := hrely sound
  have hafter := Site.Answer.advances answer hlater.sound (admits later hlater) regular
  exact ⟨fun _ => hafter, hnext later reply after hlater answer hafter⟩

theorem advances_of_moves {later : Forum} (moves : (contract outlook).Moves forum later) :
    forum.Advances outlook later := by
  induction moves with
  | refl => exact .refl sound
  | tail _ change ih => exact ih.trans (change.elim (· ih.sound) (· ih.sound))

theorem conducts_bind {β : Type} {p : Program α} {f : α → Program β} {claim : α → Forum → Prop}
    {claim' : β → Forum → Prop} (h : Conducts outlook conditions p claim forum)
    (hf : ∀ value middle, forum.Advances outlook middle →
      (∀ later, middle.Advances outlook later → claim value later) →
        Conducts outlook conditions (f value) claim' middle) :
    Conducts outlook conditions (p.bind f) claim' forum :=
  Meets.andThen h fun value middle moves hclaim =>
    hf value middle (advances_of_moves sound moves) fun later hlater =>
      hclaim later fun _ => hlater

theorem conducts_ofExcept {ε : Type} {describe : ε → OperationError} {result : Except ε α} :
    Conducts outlook conditions (ofExcept describe result)
      (fun value _ => result = .ok value) forum := by
  cases result with
  | ok value => exact conducts_done sound fun _ _ => rfl
  | error error => exact conducts_fail

theorem conducts_tryCall {request : Request}
    {claim : Except StoreError request.Answer → Forum → Prop}
    (admits : ∀ later, forum.Advances outlook later → later.Admits outlook (.store request))
    (answered : ∀ later reply after, forum.Advances outlook later →
      outlook.site.Answer conditions (.store request) later reply after →
        later.Advances outlook after → ∀ last, after.Advances outlook last → claim reply last) :
    Conducts outlook conditions (tryCall request) claim forum :=
  conducts_perform sound admits fun later reply after hlater answer hafter =>
    conducts_done hafter.sound (answered later reply after hlater answer hafter)

theorem conducts_call {request : Request} {claim : request.Answer → Forum → Prop}
    (admits : ∀ later, forum.Advances outlook later → later.Admits outlook (.store request))
    (answered : ∀ later answer after, forum.Advances outlook later →
      outlook.site.Answer conditions (.store request) later (.ok answer) after →
        later.Advances outlook after →
          ∀ last, after.Advances outlook last → claim answer last) :
    Conducts outlook conditions (call request) claim forum := by
  refine conducts_perform sound admits fun later reply after hlater answer hafter => ?_
  cases reply with
  | ok value => exact conducts_done hafter.sound (answered later value after hlater answer hafter)
  | error error => exact conducts_fail

theorem conducts_attempted {request : Request}
    (admits : ∀ later, forum.Advances outlook later → later.Admits outlook (.store request)) :
    Conducts outlook conditions (tryCall request) (fun _ _ => True) forum :=
  conducts_tryCall sound admits fun _ _ _ _ _ _ _ _ => trivial

theorem conducts_called {request : Request}
    (admits : ∀ later, forum.Advances outlook later → later.Admits outlook (.store request)) :
    Conducts outlook conditions (call request) (fun _ _ => True) forum :=
  conducts_call sound admits fun _ _ _ _ _ _ _ _ => trivial

theorem conducts_ask {effect : Effect} (admits : ∀ later : Forum, later.Admits outlook effect) :
    Conducts outlook conditions (.perform effect .done) (fun _ _ => True) forum :=
  conducts_perform sound (fun later _ => admits later) fun _ _ _ _ _ hafter =>
    conducts_done hafter.sound fun _ _ => trivial

theorem conducts_pause {delay : UInt64} :
    Conducts outlook conditions (pause delay) (fun _ _ => True) forum :=
  conducts_perform sound (fun _ _ => trivial) fun _ reply _ _ _ hafter => by
    cases reply with
    | ok _ => exact conducts_done hafter.sound fun _ _ => trivial
    | error _ => exact conducts_fail

theorem conducts_authorize {caller : Caller} {hive : ScopeId} :
    Conducts outlook conditions (authorize caller hive)
      (fun _ _ => (outlook.site.directory.hives.get? hive).isSome) forum := by
  refine conducts_perform sound (fun _ _ => trivial) fun later reply after _ answer hafter => ?_
  cases reply with
  | error error => exact conducts_fail
  | ok role =>
    exact conducts_done hafter.sound fun _ _ => answer.hive_of_role

/-! ### Engaging with items -/

theorem conducts_getContent {key : ContentKey} :
    Conducts outlook conditions (call (.getContent key))
      (fun item later => item.key = key ∧ item.asCreated ∈ later.created) forum := by
  refine conducts_call sound (fun _ _ => trivial)
    fun later item after hlater answer _ last hlast => ?_
  obtain ⟨hstored, rfl⟩ := answer.getContent
  obtain ⟨hkey, hcreated⟩ := hlater.sound.items key item hstored
  exact ⟨hkey, hlast.created hcreated⟩

theorem conducts_loadTarget {target : Target} :
    Conducts outlook conditions (loadTarget target)
      (fun item later => item.key = target.content ∧ item.asCreated ∈ later.created ∧
        item.hive = target.hive) forum := by
  rw [loadTarget]
  refine conducts_bind sound (conducts_getContent sound) fun item middle hmiddle hitem => ?_
  split
  · rename_i hhive
    exact conducts_done hmiddle.sound fun later hlater =>
      ⟨(hitem later hlater).1, (hitem later hlater).2, hhive⟩
  · exact conducts_fail

/-- A neutral record is ready, whether a record is stored or not. -/
theorem ready_neutral {user : UserId} {key : ContentKey} {hive : ScopeId} {item : ContentItem}
    (hitem : item ∈ forum.created) (hid : item.id = key.id) :
    forum.Ready outlook (.neutral user key hive) 0 0 0 := by
  refine ⟨⟨item, hitem, hid⟩, by simp [EngagementRecord.neutral],
    fun other hother hspared hotherId => ?_⟩
  cases hrecord : forum.store.record? (EngagementRecord.neutral user key hive).key with
  | none =>
    simp only [StoreState.storedVersion, StoreState.flag, hrecord, Option.any_none]
    exact ⟨Int.le_refl _, fun _ => ⟨rfl, rfl, rfl⟩⟩
  | some record =>
    have hversion := sound.version_pos hspared hrecord
    rw [StoreState.storedVersion_of_record? hrecord]
    refine ⟨Int.le_of_lt hversion, fun heq => ?_⟩
    rw [← heq] at hversion
    exact absurd hversion (by simp [EngagementRecord.neutral])

theorem ready_of_record? {key : EngagementKey} {record : EngagementRecord}
    (h : forum.store.record? key = some record) : forum.Ready outlook record 0 0 0 := by
  obtain ⟨rfl, hcreated, hvotes⟩ := sound.records key record h
  refine ⟨hcreated, hvotes, fun _ _ _ _ => ?_⟩
  rw [StoreState.storedVersion_of_record? h]
  simp [StoreState.flag, h]

theorem conducts_getEngagement {user : UserId} {content : ContentId} :
    Conducts outlook conditions (tryCall (.getEngagement user content))
      (fun reply later => ∀ record, reply = .ok record →
        record.content = content ∧ later.Ready outlook record 0 0 0) forum := by
  refine conducts_tryCall sound (fun _ _ => trivial)
    fun later reply after hlater answer _ last hlast => ?_
  rintro record rfl
  obtain ⟨hrecord, rfl⟩ := answer.getEngagement
  refine ⟨congrArg EngagementKey.content (hlater.sound.keyed _ record hrecord), ?_⟩
  exact (ready_of_record? hlater.sound hrecord).mono hlast

/-- The record that a caller works on is ready to be written, but for the change. -/
theorem conducts_currentRecord {caller : Caller} {target : Target}
    (created : ∃ item ∈ forum.created, item.id = target.content.id) :
    Conducts outlook conditions (currentRecord caller target)
      (fun record later => record.content = target.content.id ∧
        later.Ready outlook record 0 0 0) forum := by
  obtain ⟨item, hitem, hid⟩ := created
  rw [currentRecord]
  refine conducts_bind sound (conducts_getEngagement sound) fun reply middle hmiddle hreply => ?_
  cases reply with
  | ok record => exact conducts_done hmiddle.sound fun later hlater => hreply later hlater _ rfl
  | error error =>
    dsimp only
    split
    · exact conducts_done hmiddle.sound fun later hlater =>
        ⟨rfl, ready_neutral hlater.sound (hlater.created (hmiddle.created hitem)) hid⟩
    · exact conducts_fail

/-- An attempt that is made again and again. -/
theorem conducts_retryConflicts {attempt : Program (Except StoreError α)}
    (h : ∀ later, forum.Advances outlook later →
      Conducts outlook conditions attempt (fun _ _ => True) later) (retries : Nat) :
    Conducts outlook conditions (retryConflicts attempt retries) (fun _ _ => True) forum := by
  have hresult : ∀ {later : Forum}, later.Sound outlook → ∀ result : Except StoreError α,
      Conducts outlook conditions (ofExcept .ofStore result) (fun _ _ => True) later :=
    fun hlater _ => (conducts_ofExcept hlater).weaken fun _ _ _ => trivial
  induction retries generalizing forum with
  | zero =>
    exact conducts_bind sound (h forum (.refl sound))
      fun result _ hmiddle _ => hresult hmiddle.sound result
  | succ retries ih =>
    refine conducts_bind sound (h forum (.refl sound)) fun result middle hmiddle _ => ?_
    split
    · exact ih hmiddle.sound fun later hlater => h later (hmiddle.trans hlater)
    · exact hresult hmiddle.sound result

theorem conducts_changeOf {transition : Transition α} :
    Conducts outlook conditions (changeOf transition)
      (fun change _ => transition = .apply change) forum := by
  cases transition with
  | apply change => exact conducts_done sound fun _ _ => rfl
  | noOp => exact conducts_fail

variable {caller : Caller} {target : Target}
  (created : ∃ item ∈ forum.created, item.id = target.content.id)

include created

omit sound in
theorem created_mono {later : Forum} (h : forum.Advances outlook later) :
    ∃ item ∈ later.created, item.id = target.content.id := by
  obtain ⟨item, hitem, hid⟩ := created
  exact ⟨item, h.created hitem, hid⟩

theorem conducts_attemptVote {request : VoteRequest} {time : Int64} :
    Conducts outlook conditions (attemptVote caller target request time) (fun _ _ => True)
      forum := by
  rw [attemptVote]
  refine conducts_bind sound (conducts_currentRecord sound created)
    fun record middle hmiddle hrecord => ?_
  refine conducts_bind hmiddle.sound (conducts_changeOf hmiddle.sound)
    fun change last hlast hchange => ?_
  obtain ⟨changed, change⟩ := change
  refine conducts_tryCall hlast.sound (fun later hlater => ?_) fun _ _ _ _ _ _ _ _ => trivial
  obtain ⟨hcontent, ready⟩ := hrecord later (hlast.trans hlater)
  have hchanges := EngagementRecord.changes_vote ready.oneVote (hchange last (.refl hlast.sound))
  have hkey : changed.content = record.content := congrArg EngagementKey.content hchanges.key
  exact ⟨(hkey.trans hcontent).symm, rfl, ready.changed hchanges⟩

theorem conducts_attemptSave {saved : Bool} :
    Conducts outlook conditions (attemptSave caller target saved) (fun _ _ => True) forum := by
  rw [attemptSave]
  refine conducts_bind sound (conducts_currentRecord sound created)
    fun record middle hmiddle hrecord => ?_
  refine conducts_bind hmiddle.sound (conducts_changeOf hmiddle.sound)
    fun changed last hlast hchange => ?_
  refine conducts_tryCall hlast.sound (fun later hlater => ?_) fun _ _ _ _ _ _ _ _ => trivial
  obtain ⟨-, ready⟩ := hrecord later (hlast.trans hlater)
  exact ready.changed
    (EngagementRecord.changes_setSaved ready.oneVote (hchange last (.refl hlast.sound)))

omit created in
theorem conducts_attemptReport {action : ReportAction} :
    Conducts outlook conditions (attemptReport caller target action) (fun _ _ => True)
      forum := by
  rw [attemptReport]
  refine conducts_bind sound (conducts_loadTarget sound) fun item first hfirst hitem => ?_
  obtain ⟨hkey, hcreated, -⟩ := hitem first (.refl hfirst.sound)
  have hid : item.asCreated.id = target.content.id := congrArg ContentKey.id hkey
  refine conducts_bind hfirst.sound (conducts_currentRecord hfirst.sound ⟨_, hcreated, hid⟩)
    fun record middle hmiddle hrecord => ?_
  refine conducts_bind hmiddle.sound (conducts_ofExcept hmiddle.sound)
    fun transition next hnext htransition => ?_
  refine conducts_bind hnext.sound (conducts_changeOf hnext.sound)
    fun change last hlast hchange => ?_
  obtain ⟨changed, outcome⟩ := change
  refine conducts_tryCall hlast.sound (fun later hlater => ?_) fun _ _ _ _ _ _ _ _ => trivial
  obtain ⟨hcontent, ready⟩ := hrecord later ((hnext.trans hlast).trans hlater)
  have hreport := htransition last hlast
  rw [hchange last (.refl hlast.sound)] at hreport
  have hchanges := EngagementRecord.changes_report ready.oneVote hreport
  have hchangedKey : changed.content = record.content :=
    congrArg EngagementKey.content hchanges.key
  exact ⟨(hchangedKey.trans hcontent).symm, ready.changed hchanges⟩

omit created

theorem conducts_vote {settings : Settings} {request : VoteRequest} :
    Conducts outlook conditions (vote settings caller target request) (fun _ _ => True)
      forum := by
  rw [vote]
  refine conducts_bind sound (conducts_authorize sound) fun _ first hfirst _ => ?_
  refine conducts_bind hfirst.sound (conducts_loadTarget hfirst.sound)
    fun item second hsecond hitem => ?_
  refine conducts_bind hsecond.sound (conducts_ask hsecond.sound fun _ => trivial)
    fun time third hthird _ => ?_
  obtain ⟨hkey, hcreated, -⟩ := hitem third hthird
  have hid : item.asCreated.id = target.content.id := congrArg ContentKey.id hkey
  refine conducts_bind hthird.sound (conducts_retryConflicts hthird.sound (fun later hlater =>
    conducts_attemptVote hlater.sound (created_mono ⟨_, hcreated, hid⟩ hlater)) _)
    fun pair last hlast _ => ?_
  dsimp only
  split
  · exact conducts_bind hlast.sound (conducts_ask hlast.sound fun _ => trivial)
      fun _ after hafter _ => conducts_done hafter.sound fun _ _ => trivial
  · exact conducts_done hlast.sound fun _ _ => trivial

theorem conducts_setSaved {settings : Settings} {saved : Bool} :
    Conducts outlook conditions (setSaved settings caller target saved) (fun _ _ => True)
      forum := by
  rw [setSaved]
  refine conducts_bind sound (conducts_authorize sound) fun _ first hfirst _ => ?_
  refine conducts_bind hfirst.sound (conducts_loadTarget hfirst.sound)
    fun item second hsecond hitem => ?_
  obtain ⟨hkey, hcreated, -⟩ := hitem second (.refl hsecond.sound)
  have hid : item.asCreated.id = target.content.id := congrArg ContentKey.id hkey
  exact conducts_retryConflicts hsecond.sound (fun later hlater =>
    conducts_attemptSave hlater.sound (created_mono ⟨_, hcreated, hid⟩ hlater)) _

theorem conducts_applyReport {settings : Settings} {action : ReportAction} :
    Conducts outlook conditions (applyReport settings caller target action) (fun _ _ => True)
      forum := by
  rw [applyReport]
  refine conducts_bind sound (conducts_authorize sound) fun _ first hfirst _ => ?_
  refine conducts_bind hfirst.sound (conducts_retryConflicts hfirst.sound (fun later hlater =>
    conducts_attemptReport hlater.sound) _) fun pair last hlast _ => ?_
  exact conducts_done hlast.sound fun _ _ => trivial

theorem conducts_report {settings : Settings} {reason : Option String} :
    Conducts outlook conditions (report settings caller target reason) (fun _ _ => True)
      forum := by
  rw [report]
  exact conducts_bind sound (conducts_ofExcept sound)
    fun _ _ hfirst _ => conducts_applyReport hfirst.sound

end

end Forum

end HiveForum
