import HiveForum.Proofs.Engagement.Transition
import HiveForum.Proofs.Engagement.Version
import HiveForum.Proofs.Forum.Caution
import HiveForum.Proofs.Forum.Operations

/-!
# Operations that run alone

An operation that runs alone, and none of whose calls fails, does one thing: it stores a post, or a
comment that the post above it counts, or writes one record with its change of counts, or edits an
item; or it changes nothing at all, which is so whenever it fails.

## Main definitions

* `ContentItem.Moves`: the counts of an item are moved by some numbers.
* `StoreState.Flips`: the flags of a record differ from the stored ones by some numbers.
* `Forum.Becomes`: what an operation that does not delete makes of a forum.
* `Forum.alone`: the contract of an operation that runs alone.

## Main results

* `Forum.alone_vote`, `Forum.alone_setSaved`, `Forum.alone_applyReport`, `Forum.alone_createPost`,
  `Forum.alone_createComment`, `Forum.alone_markReviewed`, `Forum.alone_setPinned`: the operations
  that act.
* `Forum.becomes_of_steps`: what an operation that does not delete has made of a forum.
* `Forum.eq_of_failing_steps`: it has made nothing of it if it has failed.
-/

namespace HiveForum

open Program

/-- The item keeps its place, and its counts are moved by some numbers, as far as the range allows
and never below zero. -/
structure ContentItem.Moves (item item' : ContentItem) (up down comments reports : Int) : Prop where
  key : item'.key = item.key
  kind : item'.kind = item.kind
  upVotes : item'.upVotes.toInt = max 0 (min 9223372036854775807 (item.upVotes.toInt + up))
  downVotes : item'.downVotes.toInt = max 0 (min 9223372036854775807 (item.downVotes.toInt + down))
  comments : item'.comments.toInt = max 0 (min 9223372036854775807 (item.comments.toInt + comments))
  reports : item'.reports.toInt = max 0 (min 9223372036854775807 (item.reports.toInt + reports))

/-- The flags of a record are those of the stored record of its key, moved by some numbers. -/
structure StoreState.Flips (store : StoreState) (record : EngagementRecord)
    (up down reports : Int) : Prop where
  upVoted : record.upVoted.toInt = (store.flag record.key (·.upVoted)).toInt + up
  downVoted : record.downVoted.toInt = (store.flag record.key (·.downVoted)).toInt + down
  reported : record.reported.toInt = (store.flag record.key (·.reported)).toInt + reports

namespace Forum

/-- What an operation that does not delete makes of a forum in which it runs alone. -/
inductive Becomes (forum : Forum) : Forum → Prop where
  | same : Becomes forum forum
  | posted {post : ContentItem} (kind : post.kind = .post) (fresh : post.asCreated = post)
      (vacant : forum.store.item? post.key = none) :
      Becomes forum ⟨forum.store.putItem post.key post, forum.created ++ [post]⟩
  | commented {key : ContentKey} {post post' comment : ContentItem}
      (found : forum.store.item? key = some post) (postKind : post.kind = .post)
      (kind : comment.kind = .comment) (fresh : comment.asCreated = comment)
      (scope : comment.scope = post.id.asScope) (vacant : forum.store.item? comment.key = none)
      (moves : post.Moves post' 0 0 1 0) :
      Becomes forum ⟨(forum.store.putItem comment.key comment).putItem key post',
        forum.created ++ [comment]⟩
  | engaged {key : ContentKey} {item item' : ContentItem} {record : EngagementRecord}
      {up down reports : Int} (found : forum.store.item? key = some item)
      (content : record.content = key.id) (flips : forum.store.Flips record up down reports)
      (moves : item.Moves item' up down 0 reports) :
      Becomes forum ⟨(forum.store.withRecord record).putItem key item', forum.created⟩
  | marked {record : EngagementRecord} (flips : forum.store.Flips record 0 0 0) :
      Becomes forum ⟨forum.store.withRecord record, forum.created⟩
  | edited {key : ContentKey} {item item' : ContentItem} (found : forum.store.item? key = some item)
      (moves : item.Moves item' 0 0 0 0) :
      Becomes forum ⟨forum.store.putItem key item', forum.created⟩

/-- Nobody else changes anything, and an operation that fails has changed nothing. -/
def alone (start : Forum) : Contract Forum where
  rely forum later := later = forum
  guarantee _ _ := True
  failing _ later := later = start
  endless := True
  rely_refl _ := rfl
  rely_trans h h' := h'.trans h

end Forum

/-! ### Counts -/

section

variable {item item' : ContentItem}

theorem Int64.toInt_eq_clamp {count : Int64} (h : 0 ≤ count.toInt) :
    count.toInt = max 0 (min 9223372036854775807 (count.toInt + 0)) := by
  have hlt := count.toInt_lt
  omega

theorem ContentItem.Nonneg.moves (h : item.Nonneg) (key : item'.key = item.key)
    (kind : item'.kind = item.kind) (up : item'.upVotes = item.upVotes)
    (down : item'.downVotes = item.downVotes) (comments : item'.comments = item.comments)
    (reports : item'.reports = item.reports) : item.Moves item' 0 0 0 0 where
  key := key
  kind := kind
  upVotes := by rw [up]; exact Int64.toInt_eq_clamp h.upVotes
  downVotes := by rw [down]; exact Int64.toInt_eq_clamp h.downVotes
  comments := by rw [comments]; exact Int64.toInt_eq_clamp h.comments
  reports := by rw [reports]; exact Int64.toInt_eq_clamp h.reports

theorem CountChange.moves (change : CountChange) (item : ContentItem) :
    item.Moves (change.applyTo item) change.upVotes.toInt change.downVotes.toInt
      change.comments.toInt change.reports.toInt where
  key := rfl
  kind := rfl
  upVotes := toInt_floorAdd _ _
  downVotes := toInt_floorAdd _ _
  comments := toInt_floorAdd _ _
  reports := toInt_floorAdd _ _

theorem ReportOutcome.moves (outcome : ReportOutcome) (h : item.Nonneg) :
    item.Moves (outcome.applyTo item) 0 0 0 outcome.delta := by
  have hlow := h.reports
  have hhigh := item.reports.toInt_lt
  cases outcome with
  | added =>
    refine ⟨rfl, rfl, Int64.toInt_eq_clamp h.upVotes, Int64.toInt_eq_clamp h.downVotes,
      Int64.toInt_eq_clamp h.comments, ?_⟩
    change (Saturating.add item.reports 1).toInt = _
    rw [Saturating.toInt_add, Int64.toInt_one, Saturating.clamp, delta_added]
    omega
  | removed =>
    refine ⟨rfl, rfl, Int64.toInt_eq_clamp h.upVotes, Int64.toInt_eq_clamp h.downVotes,
      Int64.toInt_eq_clamp h.comments, ?_⟩
    change (max (Saturating.sub item.reports 1) 0).toInt = _
    rw [CountChange.toInt_max_zero, Saturating.toInt_sub, Int64.toInt_one, Saturating.clamp,
      delta_removed]
    omega

theorem ContentItem.Moves.touch {up down comments reports : Int}
    (h : item.Moves item' up down comments reports) (time : Int64) :
    item.Moves { item' with lastActivityAt := max item'.lastActivityAt time } up down comments
      reports :=
  ⟨h.key, h.kind, h.upVotes, h.downVotes, h.comments, h.reports⟩

end

theorem Effect.isQuiet_of_isSilent {effect : Effect} (h : effect.isSilent = true) :
    effect.isQuiet = true := by
  cases effect with
  | store => exact h
  | notify => cases h
  | _ => rfl

theorem StoreState.updateItem_of_item? {store : StoreState} {key : ContentKey}
    {item : ContentItem} (h : store.item? key = some item) (edit : ContentItem → ContentItem) :
    store.updateItem key edit = .ok (edit item, store.putItem key (edit item)) := by
  rw [updateItem, h]

theorem StoreState.putItem_putItem (store : StoreState) (key : ContentKey)
    (item item' : ContentItem) :
    (store.putItem key item).putItem key item' = store.putItem key item' := by
  have hinsert : ∀ {κ ν : Type} [Ord κ] [DecidableEq κ] [Std.TransOrd κ] [Std.LawfulEqOrd κ]
      (table : Table κ ν) (key : κ) (value value' : ν),
      (table.insert key value).insert key value' = table.insert key value' := by
    intro κ ν _ _ _ _ table key value value'
    refine Table.ext_get? fun other => ?_
    simp only [Table.get?_insert]
    split <;> rfl
  simp only [putItem, Table.get?_insert, if_true, Option.getD_some, hinsert]

namespace Forum

theorem flag_recordOf (forum : Forum) (user : UserId) (content : ContentKey) (hive : ScopeId)
    (flagOf : EngagementRecord → Bool)
    (neutral : flagOf (.neutral user content hive) = false) :
    flagOf (forum.recordOf user content hive) = forum.store.flag ⟨user, content.id⟩ flagOf := by
  rw [recordOf, StoreState.flag]
  cases forum.store.record? ⟨user, content.id⟩ with
  | none => exact neutral
  | some record => rfl

theorem key_recordOf {outlook : Outlook} {forum : Forum} (sound : forum.Sound outlook)
    (user : UserId) (content : ContentKey) (hive : ScopeId) :
    (forum.recordOf user content hive).key = ⟨user, content.id⟩ := by
  rw [recordOf]
  cases hrecord : forum.store.record? ⟨user, content.id⟩ with
  | none => rfl
  | some record => exact sound.keyed _ record hrecord

theorem oneVote_recordOf {outlook : Outlook} {forum : Forum} (sound : forum.Sound outlook)
    (user : UserId) (content : ContentKey) (hive : ScopeId) :
    ¬((forum.recordOf user content hive).upVoted = true ∧
      (forum.recordOf user content hive).downVoted = true) := by
  rw [recordOf]
  cases hrecord : forum.store.record? ⟨user, content.id⟩ with
  | none => simp [EngagementRecord.neutral]
  | some record => exact (sound.records _ record hrecord).2.2

theorem flips_of_changes {outlook : Outlook} {forum : Forum} (sound : forum.Sound outlook)
    {user : UserId} {content : ContentKey} {hive : ScopeId} {changed : EngagementRecord}
    {up down reports : Int}
    (h : (forum.recordOf user content hive).Changes changed up down reports) :
    changed.content = content.id ∧ forum.store.Flips changed up down reports := by
  have hkey := h.key.trans (key_recordOf sound user content hive)
  refine ⟨congrArg EngagementKey.content hkey, ?_, ?_, ?_⟩
  · rw [h.up, flag_recordOf forum user content hive (·.upVoted) rfl, hkey]
  · rw [h.down, flag_recordOf forum user content hive (·.downVoted) rfl, hkey]
  · rw [h.reports, flag_recordOf forum user content hive (·.reported) rfl, hkey]

/-! ### Rules -/

/-- A program that runs alone and meets no call that fails ends with a claim. -/
abbrev MeetsAlone (site : Site) (start : Forum) {α : Type} (p : Program α)
    (claim : α → Forum → Prop) (forum : Forum) : Prop :=
  p.Meets (site.responses .calm) start.alone none claim forum

variable {site : Site} {outlook : Outlook} {start forum : Forum} {α β : Type}
  {claim : α → Forum → Prop} {claim' : β → Forum → Prop}

theorem alone_done {value : α} (h : claim value forum) :
    MeetsAlone site start (.done value) claim forum := by
  rintro later rfl -
  exact h

theorem alone_fail {error : OperationError} :
    MeetsAlone site start (.fail error) claim start := fun _ heq => heq

theorem alone_bind {p : Program α} {f : α → Program β} (h : MeetsAlone site start p claim forum)
    (hf : ∀ value later, claim value later → MeetsAlone site start (f value) claim' later) :
    MeetsAlone site start (p.bind f) claim' forum :=
  Program.Meets.andThen h fun value later _ hclaim => hf value later (hclaim later rfl)

theorem alone_quiet {effect : Effect} {next : effect.Reply → Program α}
    (quiet : effect.isQuiet = true)
    (hnext : ∀ reply, site.Answer .calm effect forum reply forum →
      MeetsAlone site start (next reply) claim forum) :
    MeetsAlone site start (.perform effect next) claim forum := by
  rintro _ reply after rfl answer
  obtain rfl := Site.Answer.eq_of_isQuiet answer quiet
  exact ⟨trivial, hnext reply answer⟩

/-- A call is carried out, or makes no sense to the store and leaves the forum as it is. -/
theorem alone_store {request : Request} {next : Except StoreError request.Answer → Program α}
    (notBatch : ∀ keys, request ≠ .deleteEngagements keys)
    (answered : ∀ answer store, forum.store.perform site.limits request = .ok (answer, store) →
      MeetsAlone site start (next (.ok answer)) claim (forum.after store request))
    (failed : ∀ error, forum.store.perform site.limits request = .error error →
      MeetsAlone site start (next (.error error)) claim forum) :
    MeetsAlone site start (.perform (.store request) next) claim forum := by
  rintro _ reply after rfl answer
  refine ⟨trivial, ?_⟩
  cases reply with
  | ok value =>
    obtain ⟨store, hok, rfl⟩ := Site.Answer.of_ok answer notBatch
    exact answered value store hok
  | error error =>
    obtain ⟨rfl, hfailed | ⟨-, hrefused⟩⟩ :=
      Site.Answer.of_error Conditions.honest_calm answer
    · exact failed error hfailed
    · exact hrefused.elim

theorem alone_carriedOut {request : Request} {next : Except StoreError request.Answer → Program α}
    (notBatch : ∀ keys, request ≠ .deleteEngagements keys) {store : StoreState}
    (hok : ∃ answer, forum.store.perform site.limits request = .ok (answer, store))
    (hnext : ∀ answer, MeetsAlone site start (next (.ok answer)) claim
      (forum.after store request)) :
    MeetsAlone site start (.perform (.store request) next) claim forum := by
  obtain ⟨carried, hcarried⟩ := hok
  refine alone_store notBatch (fun answer other hother => ?_) fun error herror => ?_
  · obtain ⟨-, rfl⟩ := Prod.mk.inj (Except.ok.inj (hcarried.symm.trans hother))
    exact hnext answer
  · cases hcarried.symm.trans herror

theorem alone_authorize {caller : Caller} {hive : ScopeId} {f : Role → Program α}
    (hf : ∀ role, MeetsAlone site start (f role) claim start) :
    MeetsAlone site start ((authorize caller hive).bind f) claim start :=
  alone_quiet rfl fun reply _ => by
    cases reply with
    | ok role => exact hf role
    | error error => exact alone_fail

theorem alone_authorizeAs {caller : Caller} {hive : ScopeId} {required : Role}
    {f : Role → Program α} (hf : ∀ role, MeetsAlone site start (f role) claim start) :
    MeetsAlone site start ((authorizeAs caller hive required).bind f) claim start :=
  alone_quiet rfl fun reply _ => by
    dsimp only
    cases reply.bind required.require with
    | ok role => exact hf role
    | error error => exact alone_fail

theorem alone_ofExcept {ε : Type} {describe : ε → OperationError} {result : Except ε β}
    {f : β → Program α}
    (hf : ∀ value, result = .ok value → MeetsAlone site start (f value) claim start) :
    MeetsAlone site start ((ofExcept describe result).bind f) claim start := by
  cases result with
  | ok value => exact hf value rfl
  | error error => exact alone_fail

theorem alone_changeOf {transition : Transition β} {f : β → Program α}
    (hf : ∀ change, transition = .apply change → MeetsAlone site start (f change) claim start) :
    MeetsAlone site start ((changeOf transition).bind f) claim start := by
  cases transition with
  | apply change => exact hf change rfl
  | noOp => exact alone_fail

/-- The item that is loaded is the stored one. -/
theorem alone_loadTarget {target : Target} {f : ContentItem → Program α}
    (hf : ∀ item, start.store.item? target.content = some item → item.hive = target.hive →
      MeetsAlone site start (f item) claim start) :
    MeetsAlone site start ((loadTarget target).bind f) claim start := by
  refine alone_quiet rfl fun reply answer => ?_
  cases reply with
  | error error => exact alone_fail
  | ok item =>
    change MeetsAlone site start
      ((if item.hive = target.hive then .done item else .fail .notFound : Program _).bind f) _ _
    split
    · rename_i hhive
      exact hf item answer.getContent.1 hhive
    · exact alone_fail

/-- The record that is read is the one that the user has. -/
theorem alone_currentRecord {caller : Caller} {target : Target}
    {f : EngagementRecord → Program α}
    (hf : MeetsAlone site start (f (start.recordOf caller.user target.content target.hive)) claim
      start) :
    MeetsAlone site start ((currentRecord caller target).bind f) claim start := by
  refine alone_quiet rfl fun reply answer => ?_
  cases reply with
  | ok record =>
    have hrecord := answer.getEngagement.1
    rw [recordOf, hrecord] at hf
    exact hf
  | error error =>
    change MeetsAlone site start
      ((if error.isNotFound then .done _ else .fail _ : Program EngagementRecord).bind f) _ _
    split
    · obtain ⟨-, hfailed | ⟨-, hrefused⟩⟩ :=
        Site.Answer.of_error Conditions.honest_calm answer
      · cases hrecord : start.store.record? ⟨caller.user, target.content.id⟩ with
        | none =>
          rw [recordOf, hrecord] at hf
          exact hf
        | some record => simp [StoreState.perform, hrecord] at hfailed
      · exact hrefused.elim
    · exact alone_fail

/-- What an attempt leads to: it has made something of the forum, or changed nothing. -/
def Attempted (start : Forum) (result : Except StoreError α) (later : Forum) : Prop :=
  match result with
  | .ok _ => start.Becomes later
  | .error _ => later = start

/-- Attempts are made again as long as they have changed nothing. -/
theorem alone_retryConflicts {attempt : Program (Except StoreError β)}
    (h : MeetsAlone site start attempt (Attempted start) start) (retries : Nat) :
    MeetsAlone site start (retryConflicts attempt retries) (fun _ later => start.Becomes later)
      start := by
  induction retries with
  | zero =>
    refine alone_bind h fun result later hresult => ?_
    cases result with
    | ok value => exact alone_done hresult
    | error error =>
      obtain rfl : later = start := hresult
      exact alone_fail
  | succ retries ih =>
    refine alone_bind h fun result later hresult => ?_
    cases result with
    | ok value => exact alone_done hresult
    | error error =>
      obtain rfl : later = start := hresult
      cases error with
      | versionConflict => exact ih
      | _ => exact alone_fail

/-! ### The operations that act -/

section

variable (sound : start.Sound outlook) {caller : Caller} {target : Target}

include sound

theorem alone_attemptVote {request : VoteRequest} {time : Int64} :
    MeetsAlone site start (attemptVote caller target request time) (Attempted start) start := by
  refine alone_currentRecord (alone_changeOf fun change htransition => ?_)
  obtain ⟨changed, change⟩ := change
  have hchanges := EngagementRecord.changes_vote (oneVote_recordOf sound _ _ _) htransition
  obtain ⟨hcontent, hflips⟩ := flips_of_changes sound hchanges
  refine alone_store (fun _ h => by cases h) (fun answer store hok => ?_)
    fun error _ => alone_done rfl
  obtain ⟨item, hitem, -, -, rfl⟩ := StoreState.commitVote_eq_ok hok
  exact alone_done (.engaged hitem hcontent hflips (change.counts.moves item))

theorem alone_vote {settings : Settings} {request : VoteRequest} :
    MeetsAlone site start (vote settings caller target request)
      (fun _ later => start.Becomes later) start := by
  refine alone_authorize fun _ => alone_loadTarget fun item _ _ => alone_quiet rfl fun time _ => ?_
  change MeetsAlone site start ((retryConflicts (attemptVote caller target request time) _).bind _)
    _ start
  refine alone_bind (alone_retryConflicts (alone_attemptVote sound) _) fun stored later h => ?_
  dsimp only
  split
  · exact alone_quiet rfl fun _ _ => alone_done h
  · exact alone_done h

theorem alone_setSaved {settings : Settings} {saved : Bool} :
    MeetsAlone site start (setSaved settings caller target saved)
      (fun _ later => start.Becomes later) start := by
  refine alone_authorize fun _ => alone_loadTarget fun item _ _ => alone_retryConflicts ?_ _
  refine alone_currentRecord (alone_changeOf fun changed htransition => ?_)
  have hchanges := EngagementRecord.changes_setSaved (oneVote_recordOf sound _ _ _) htransition
  obtain ⟨-, hflips⟩ := flips_of_changes sound hchanges
  refine alone_store (fun _ h => by cases h) (fun answer store hok => ?_)
    fun error _ => alone_done rfl
  obtain ⟨-, -, rfl⟩ := StoreState.writeRecord_eq_ok_iff.1 hok
  exact alone_done (.marked hflips)

theorem alone_applyReport {settings : Settings} {action : ReportAction} :
    MeetsAlone site start (applyReport settings caller target action)
      (fun _ later => start.Becomes later) start := by
  refine alone_authorize fun _ => alone_bind (alone_retryConflicts ?_ _)
    fun _ _ h => alone_done h
  refine alone_loadTarget fun item _ _ => alone_currentRecord (alone_ofExcept
    fun transition hreport => alone_changeOf fun change htransition => ?_)
  obtain ⟨changed, outcome⟩ := change
  rw [htransition] at hreport
  have hchanges := EngagementRecord.changes_report (oneVote_recordOf sound _ _ _) hreport
  obtain ⟨hcontent, hflips⟩ := flips_of_changes sound hchanges
  refine alone_store (fun _ h => by cases h) (fun answer store hok => ?_)
    fun error _ => alone_done rfl
  obtain ⟨stored, hstored, -, -, -, rfl⟩ := StoreState.commitReport_eq_ok hok
  exact alone_done (.engaged hstored hcontent hflips (outcome.moves (sound.nonneg _ _ hstored)))

theorem alone_markReviewed :
    MeetsAlone site start (markReviewed caller target) (fun _ later => start.Becomes later)
      start := by
  refine alone_authorizeAs fun _ => alone_loadTarget fun item _ _ => ?_
  refine alone_store (fun _ h => by cases h) (fun answer store hok => ?_) fun error _ => alone_fail
  obtain ⟨stored, hstored, -, rfl⟩ := StoreState.updateItem_eq_ok hok
  exact alone_done (.edited hstored
    ((sound.nonneg _ _ hstored).moves rfl rfl rfl rfl rfl rfl))

theorem alone_setPinned {pinned : Bool} :
    MeetsAlone site start (setPinned caller target pinned) (fun _ later => start.Becomes later)
      start := by
  refine alone_authorizeAs fun _ => alone_loadTarget fun item _ _ => ?_
  dsimp only
  split
  · exact alone_fail
  · refine alone_store (fun _ h => by cases h) (fun answer store hok => ?_)
      fun error _ => alone_fail
    obtain ⟨stored, hstored, -, rfl⟩ := StoreState.updateItem_eq_ok hok
    exact alone_done (.edited hstored
      ((sound.nonneg _ _ hstored).moves rfl rfl rfl rfl rfl rfl))

omit sound in
theorem perform_putContent_eq_ok {limits : QueryLimits} {state later : StoreState}
    {item : ContentItem} {answer : Unit}
    (h : state.perform limits (.putContent item) = .ok (answer, later)) :
    state.item? item.key = none ∧ later = state.putItem item.key item := by
  simp only [StoreState.perform] at h
  split at h
  · cases h
  · rename_i hvacant
    cases h
    exact ⟨Option.not_isSome_iff_eq_none.1 hvacant, rfl⟩

omit sound in
theorem alone_createPost {hive : ScopeId} {body : String} {tags : List TagId} :
    MeetsAlone site start (createPost caller hive body tags)
      (fun _ later => start.Becomes later) start := by
  refine alone_authorize fun _ => alone_ofExcept fun _ _ => alone_ofExcept fun _ _ =>
    alone_quiet rfl fun time _ => alone_quiet rfl fun id _ => ?_
  refine alone_store (fun _ h => by cases h) (fun answer store hok => ?_) fun error _ => alone_fail
  obtain ⟨hvacant, rfl⟩ := perform_putContent_eq_ok hok
  exact alone_done (.posted rfl rfl hvacant)

omit sound in
/-- A comment is stored first; the post above it is there, and follows. -/
theorem alone_putComment {comment stored : ContentItem} {notification : Notification}
    (hpost : start.store.item? stored.key = some stored) (postKind : stored.kind = .post)
    (kind : comment.kind = .comment) (fresh : comment.asCreated = comment)
    (scope : comment.scope = stored.id.asScope) :
    MeetsAlone site start
      ((call (.putContent comment)).bind fun _ =>
        (tryCall (.adjustCounts stored.key (.ofComments 1))).bind fun _ =>
          (tryCall (.touchActivity stored.key comment.createdAt)).bind fun _ =>
            (notify notification).bind fun _ => .done comment)
      (fun _ later => start.Becomes later) start := by
  refine alone_store (fun _ h => by cases h) (fun answer store hok => ?_) fun error _ => alone_fail
  obtain ⟨hvacant, rfl⟩ := perform_putContent_eq_ok hok
  have hne : stored.key ≠ comment.key := by
    intro heq
    rw [← heq, hpost] at hvacant
    cases hvacant
  have hput : (start.store.putItem comment.key comment).item? stored.key = some stored := by
    rw [StoreState.item?_putItem, if_neg hne, hpost]
  have hadjust := StoreState.updateItem_of_item? hput (CountChange.ofComments 1).applyTo
  refine alone_carriedOut (fun _ h => by cases h) ⟨_, hadjust⟩ fun _ => ?_
  have hmoves := (CountChange.ofComments 1).moves stored
  generalize (CountChange.ofComments 1).applyTo stored = counted at *
  have hcounted : ((start.store.putItem comment.key comment).putItem stored.key counted).item?
      stored.key = some counted := by
    rw [StoreState.item?_putItem, if_pos rfl]
  have htouch := StoreState.updateItem_of_item? hcounted fun item =>
    { item with lastActivityAt := max item.lastActivityAt comment.createdAt }
  rw [StoreState.putItem_putItem] at htouch
  refine alone_carriedOut (fun _ h => by cases h)
    ⟨(), congrArg (Except.map fun result : ContentItem × StoreState => ((), result.2)) htouch⟩
    fun _ => ?_
  exact alone_quiet rfl fun _ _ => alone_done
    (.commented hpost postKind kind fresh scope hvacant (hmoves.touch _))

theorem alone_createComment {hive : ScopeId} {post : ContentId} {body : String} :
    MeetsAlone site start (createComment caller hive post body)
      (fun _ later => start.Becomes later) start := by
  refine alone_authorize fun _ => alone_ofExcept fun _ _ => alone_loadTarget
    fun stored hstored hhive => ?_
  dsimp only
  split
  · exact alone_fail
  rename_i hkind
  have hkey : stored.key = ⟨hive, post⟩ := (sound.items _ stored hstored).1
  have hid : stored.id = post := congrArg ContentKey.id hkey
  refine alone_quiet rfl fun time _ => alone_quiet rfl fun id _ => ?_
  exact alone_putComment (hkey.symm ▸ hstored) (of_not_not hkind) rfl rfl
    (congrArg ContentId.asScope hid.symm)

end

/-! ### Operations -/

theorem alone_of_gives {p : Program α} (h : p.Gives fun _ => False) :
    MeetsAlone site start p claim forum := by
  induction h generalizing forum with
  | done h => exact h.elim
  | perform _ ih => exact fun _ reply _ _ _ => ⟨trivial, ih reply⟩

/-- A program that does not act leaves the forum as it is. -/
theorem alone_of_reads {p : Program α} (h : p.Reads) :
    MeetsAlone site start p (fun _ later => later = start) start := by
  induction h with
  | done => exact alone_done rfl
  | fail => exact alone_fail
  | unfinished => exact trivial
  | silent hsilent _ ih =>
    exact alone_quiet (Effect.isQuiet_of_isSilent hsilent) fun reply _ => ih reply
  | call _ answered ih =>
    rintro _ reply after rfl answer
    refine ⟨trivial, ?_⟩
    cases reply with
    | ok value => exact alone_of_gives (answered value)
    | error error =>
      obtain ⟨rfl, -⟩ := Site.Answer.of_error Conditions.honest_calm answer
      exact ih error

/-- An operation that does not delete makes of the forum what operations make of it. -/
theorem alone_program (sound : start.Sound outlook) {op : Operation} (h : op.isDeletion = false)
    (settings : Settings) (horizon : Nat) :
    MeetsAlone site start (op.program settings horizon) (fun _ later => start.Becomes later)
      start := by
  cases op with
  | createPost => exact alone_createPost
  | createComment => exact alone_createComment sound
  | markReviewed => exact alone_markReviewed sound
  | setPinned => exact alone_setPinned sound
  | vote => exact alone_vote sound
  | setSaved => exact alone_setSaved sound
  | report => exact alone_ofExcept fun _ _ => alone_applyReport sound
  | withdrawReport => exact alone_applyReport sound
  | deleteContent => cases h
  | _ =>
    refine (alone_of_reads (Operation.reads rfl settings horizon)).weaken ?_
    rintro _ _ rfl
    exact .same

/-- Once an operation that does not delete has run alone and met no call that failed, it has made
one of its changes, or none. -/
theorem becomes_of_steps {invocation : Invocation} {thread : Thread invocation.operation.Result}
    {after : Forum} {result : Except OperationError invocation.operation.Result}
    (sound : start.Sound outlook) (h : invocation.operation.isDeletion = false)
    (steps : Thread.Steps (site.responses .calm) invocation.thread.2 start thread after)
    (ended : thread.result? = some result) : start.Becomes after := by
  have hends := (steps.meets
    (.running (alone_program sound h invocation.settings invocation.horizon))).1.of_result?
  cases result with
  | ok value => exact hends.1 value ended trivial
  | error error =>
    obtain rfl : after = start := hends.2 error ended
    exact .same

/-- An operation that does not delete and fails alone has changed nothing, though calls may have
failed. -/
theorem eq_of_failing_steps {conditions : Conditions} (honest : conditions.Honest)
    {invocation : Invocation} {after : Forum} {error : OperationError}
    (h : invocation.operation.isDeletion = false)
    (steps : Thread.Steps (site.responses conditions) invocation.thread.2 start
      (.running (.fail error)) after) : after = start := by
  obtain ⟨idle, acted, hcautious⟩ := invocation.operation.cautious h invocation.settings
    invocation.horizon
  have silent : ∀ {effect : Effect} {state later : Forum} {reply : effect.Reply},
      effect.isSilent = true → (site.responses conditions).Answers effect state reply later →
        id later = id state :=
    fun hsilent answer => Site.Answer.eq_of_isQuiet answer (Effect.isQuiet_of_isSilent hsilent)
  have refused : ∀ {request : Request} {state later : Forum} {error : StoreError},
      (site.responses conditions).Answers (.store request) state (.error error) later →
        id later = id state := fun answer => (Site.Answer.of_error honest answer).1
  exact hcautious.unchanged_of_steps silent refused steps

end Forum

end HiveForum
