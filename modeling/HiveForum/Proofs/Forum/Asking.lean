import HiveForum.Proofs.Forum.Caution
import HiveForum.Proofs.Forum.Run
import HiveForum.Proofs.Program.Protocol

/-!
# What operations ask of the world

An operation reads and draws as it likes. Beyond this it asks for little: a post or a comment is
stored, a record is written, an item is edited, or an item is removed with what is stored in its
scope, and the keys are those that the operation was called with. Comments do not nest, and nothing
is stored in the scope of a comment, so that a deletion reaches no further down than to the comments
of a post.

## Main definitions

* `Forum.Finds`, `Site.Tells`: what may be seen in a forum of which a claim holds.
* `Operation.Asks`: the effects that an operation may have.
* `Protocol.Permits`: whatever an operation may ask is of no account.

## Main results

* `Program.follows_vote`, `Program.follows_spawnRecords`, `Program.follows_cascade` and others: how
  the parts of operations follow a protocol for which reading and drawing is of no account.
* `Operation.follows`: an operation has no effects but those that it may have.
-/

namespace HiveForum

open Program

/-- An item is stored under a key in a forum of which a claim holds. -/
def Forum.Finds (Holds : Forum → Prop) (key : ContentKey) (item : ContentItem) : Prop :=
  ∃ forum, Holds forum ∧ forum.store.item? key = some item

/-- A reply is one that an effect may get in a forum of which a claim holds. -/
def Site.Tells (site : Site) (conditions : Conditions) (Holds : Forum → Prop) (effect : Effect)
    (reply : effect.Reply) : Prop :=
  ∃ forum after, Holds forum ∧ site.Answer conditions effect forum reply after

/-- The effects that an operation may have. The items that it works on are shown to it. -/
inductive Operation.Asks (site : Site) (Holds : Forum → Prop) : Operation → Effect → Prop where
  /-- Anything may be read or drawn. -/
  | silent {op : Operation} {effect : Effect} (h : effect.isSilent = true) :
      Asks site Holds op effect
  | post {caller : Caller} {hive : ScopeId} {body : String} {tags : List TagId} {item : ContentItem}
      (scope : item.scope = hive) (known : (site.directory.hives.get? hive).isSome) :
      Asks site Holds (.createPost caller hive body tags) (.store (.putContent item))
  | comment {caller : Caller} {hive : ScopeId} {post : ContentId} {body : String}
      {item : ContentItem} (scope : item.scope = post.asScope) :
      Asks site Holds (.createComment caller hive post body) (.store (.putContent item))
  | count {caller : Caller} {hive : ScopeId} {post : ContentId} {body : String} :
      Asks site Holds (.createComment caller hive post body)
        (.store (.adjustCounts ⟨hive, post⟩ (.ofComments 1)))
  | touch {caller : Caller} {hive : ScopeId} {post : ContentId} {body : String} {time : Int64} :
      Asks site Holds (.createComment caller hive post body)
        (.store (.touchActivity ⟨hive, post⟩ time))
  | commented {caller : Caller} {hive : ScopeId} {post comment : ContentId} {body : String}
      {author postAuthor : UserId} :
      Asks site Holds (.createComment caller hive post body)
        (.notify (.commentCreated hive post comment author postAuthor))
  | review {caller : Caller} {target : Target} :
      Asks site Holds (.markReviewed caller target) (.store (.markReviewed target.content))
  | pin {caller : Caller} {target : Target} {pinned : Bool} :
      Asks site Holds (.setPinned caller target pinned) (.store (.setPinned target.content pinned))
  | vote {caller : Caller} {target : Target} {request : VoteRequest} {record : EngagementRecord}
      {change : VoteChange} :
      Asks site Holds (.vote caller target request)
        (.store (.commitVote record target.content change.counts))
  | voted {caller : Caller} {target : Target} {request : VoteRequest} {author : UserId} :
      Asks site Holds (.vote caller target request)
        (.notify (.upVoted target.hive target.content caller.user author))
  | save {caller : Caller} {target : Target} {saved : Bool} {record : EngagementRecord} :
      Asks site Holds (.setSaved caller target saved) (.store (.putEngagement record))
  | report {caller : Caller} {target : Target} {reason : Option String} {record : EngagementRecord}
      {outcome : ReportOutcome} :
      Asks site Holds (.report caller target reason)
        (.store (.commitReport record target.content outcome))
  | withdraw {caller : Caller} {target : Target} {record : EngagementRecord}
      {outcome : ReportOutcome} :
      Asks site Holds (.withdrawReport caller target)
        (.store (.commitReport record target.content outcome))
  | erase {caller : Caller} {target : Target} {keys : List EngagementKey} :
      Asks site Holds (.deleteContent caller target) (.store (.deleteEngagements keys))
  | remove {caller : Caller} {target : Target} {root : ContentItem}
      (shown : Forum.Finds Holds target.content root) :
      Asks site Holds (.deleteContent caller target) (.store (.deleteContent target.content))
  | removeBelow {caller : Caller} {target : Target} {root : ContentItem} {key : ContentKey}
      (shown : Forum.Finds Holds target.content root)
      (below : key.scope = target.content.id.asScope) :
      Asks site Holds (.deleteContent caller target) (.store (.deleteContent key))
  | uncount {caller : Caller} {target : Target} {root : ContentItem} {key : ContentKey}
      (shown : Forum.Finds Holds target.content root)
      (above : key.id.asScope = target.content.scope) :
      Asks site Holds (.deleteContent caller target)
        (.store (.adjustCounts key (.ofComments (-1))))

/-- Whatever an operation may ask is of no account in a protocol. -/
def Protocol.Permits {δ : Type} (protocol : Protocol δ) (site : Site) (Holds : Forum → Prop)
    (op : Operation) : Prop :=
  ∀ {effect : Effect}, op.Asks site Holds effect → protocol.Apart effect

/-! ### What is told -/

namespace Site.Tells

variable {site : Site} {conditions : Conditions} {Holds : Forum → Prop}

theorem getContent {key : ContentKey} {item : ContentItem}
    (h : site.Tells conditions Holds (.store (.getContent key)) (.ok item)) :
    Forum.Finds Holds key item := by
  obtain ⟨forum, after, holds, answer⟩ := h
  exact ⟨forum, holds, answer.getContent.1⟩

theorem queryContent {query : ContentQuery} {page : ContentPage} {item : ContentItem}
    (h : site.Tells conditions Holds (.store (.queryContent query)) (.ok page))
    (mem : item ∈ page.items) : ∃ id, Forum.Finds Holds ⟨query.scope, id⟩ item := by
  obtain ⟨forum, after, holds, answer⟩ := h
  obtain ⟨id, hid⟩ := StoreState.mem_scopeItems_iff.1
    (StoreState.mem_scope_of_queryContent answer.queryContent.1 mem).1
  exact ⟨id, forum, holds, hid⟩

theorem membership {caller : Caller} {hive : ScopeId} {role : Role}
    (h : site.Tells conditions Holds (.membership caller hive) (.ok role)) :
    (site.directory.hives.get? hive).isSome := by
  obtain ⟨forum, after, -, answer⟩ := h
  exact answer.hive_of_role

end Site.Tells

namespace Forum.Finds

variable {site : Site} {Holds : Forum → Prop}
  (reachable : ∀ forum, Holds forum → forum.Reachable site)

include reachable

theorem key_eq {key : ContentKey} {item : ContentItem} (h : Forum.Finds Holds key item) :
    item.key = key := by
  obtain ⟨forum, holds, stored⟩ := h
  exact ((reachable forum holds).sound.1.items key item stored).1

/-- What is shown in the scope of a shown item is a comment. -/
theorem kind_eq {key key' : ContentKey} {root child : ContentItem}
    (hroot : Forum.Finds Holds key root) (hchild : Forum.Finds Holds key' child)
    (scope : child.scope = root.id.asScope) : child.kind = .comment := by
  obtain ⟨forum, holds, stored⟩ := hroot
  obtain ⟨forum', holds', stored'⟩ := hchild
  obtain ⟨sound, distinct⟩ := (reachable forum holds).sound
  obtain ⟨sound', -⟩ := (reachable forum' holds').sound
  have notHive := distinct.notHive root.asCreated (sound.items key root stored).2
  have place := sound'.places child.asCreated (sound'.items key' child stored').2
  cases hkind : child.kind with
  | comment => rfl
  | post =>
    rw [Forum.Places, show child.asCreated.kind = .post from hkind] at place
    obtain ⟨hscope, known⟩ := place
    rw [← hscope, show child.asCreated.scope = root.asCreated.id.asScope from scope,
      notHive] at known
    cases known

end Forum.Finds

namespace Program

/-! ### Parts of operations -/

section

variable {δ α : Type} {protocol : Protocol δ} {caller : Caller} {hive : ScopeId} {target : Target}
  {settings : Settings} (lenient : ∀ effect : Effect, effect.isSilent = true →
    protocol.Apart effect)

include lenient

theorem follows_authorize :
    (authorize caller hive).Follows protocol protocol.home fun role stage =>
      protocol.Told (.membership caller hive) (.ok role) ∧ stage = protocol.home :=
  follows_perform (lenient _ rfl) fun reply told => by
    cases reply with
    | ok role => exact ⟨told, rfl⟩
    | error error => rfl

theorem follows_authorizeAs {required : Role} :
    (authorizeAs caller hive required).Follows protocol protocol.home
      fun _ stage => stage = protocol.home :=
  follows_perform (lenient _ rfl) fun _ _ => follows_ofExcept.weaken fun _ _ => And.right

theorem follows_loadTarget :
    (loadTarget target).Follows protocol protocol.home fun item stage =>
      protocol.Told (.store (.getContent target.content)) (.ok item) ∧ item.hive = target.hive ∧
        stage = protocol.home := by
  refine (follows_call (lenient _ rfl)).bind fun item stage hitem => ?_
  obtain ⟨told, rfl⟩ := hitem
  split
  · rename_i hhive
    exact ⟨told, hhive, rfl⟩
  · exact rfl

theorem follows_currentRecord :
    (currentRecord caller target).Follows protocol protocol.home
      fun _ stage => stage = protocol.home := by
  refine (follows_tryCall (lenient _ rfl)).bind fun reply stage hreply => ?_
  obtain ⟨-, rfl⟩ := hreply
  cases reply with
  | ok record => exact rfl
  | error error =>
    change Follows protocol (if error.isNotFound then _ else _ : Program EngagementRecord) _ _
    split <;> exact rfl

omit lenient in
theorem follows_changeOf {transition : Transition α} :
    (changeOf transition).Follows protocol protocol.home fun _ stage => stage = protocol.home := by
  cases transition <;> exact rfl

omit lenient in
/-- An attempt that is made again and again. -/
theorem follows_retryConflicts {attempt : Program (Except StoreError α)}
    (h : attempt.Follows protocol protocol.home fun _ stage => stage = protocol.home)
    (retries : Nat) :
    (retryConflicts attempt retries).Follows protocol protocol.home
      fun _ stage => stage = protocol.home := by
  induction retries with
  | zero =>
    refine h.bind fun result stage hstage => ?_
    subst hstage
    exact follows_ofExcept.weaken fun _ _ => And.right
  | succ retries ih =>
    refine h.bind fun result stage hstage => ?_
    subst hstage
    split
    · exact ih
    · exact follows_ofExcept.weaken fun _ _ => And.right

/-- The items of a page have been told in queries of its scope. -/
theorem follows_collectFrom {scan : Scan} {rounds : Nat} {startAfter : Option IndexKey}
    {held : List ContentItem} {Listed : ContentItem → Prop} (holding : ∀ item ∈ held, Listed item)
    (listed : ∀ query page, query.scope = scan.scope →
      protocol.Told (.store (.queryContent query)) (.ok page) → ∀ item ∈ page.items, Listed item) :
    (collectFrom settings scan rounds startAfter held).Follows protocol protocol.home
      fun collected stage => (∀ item ∈ collected.items, Listed item) ∧
        stage = protocol.home := by
  have hpage : ∀ (exhausted : Bool) {held : List ContentItem}, (∀ item ∈ held, Listed item) →
      ∀ item ∈ (Collected.ofHeld scan exhausted held).items, Listed item :=
    fun _ _ hheld item hitem => hheld item (List.mem_of_mem_take hitem)
  induction rounds generalizing startAfter held with
  | zero => trivial
  | succ rounds ih =>
    refine (follows_call (lenient _ rfl)).bind fun page stage htold => ?_
    obtain ⟨told, rfl⟩ := htold
    have hheld : ∀ item ∈ ContentItem.sort scan.sort scan.direction (held ++ page.items),
        Listed item := by
      intro item hitem
      rw [(ContentItem.sort_perm _ _ _).mem_iff, List.mem_append] at hitem
      exact hitem.elim (holding item) (listed _ page rfl told item)
    dsimp only
    split
    · exact ⟨hpage _ hheld, rfl⟩
    · split
      · exact ih hheld
      · exact ⟨hpage _ hheld, rfl⟩

omit lenient in
/-- What a page that is not found is read as. -/
theorem follows_unlessNotFound {p : Program α} {claim : α → Prop}
    (h : p.Follows protocol protocol.home fun value stage => claim value ∧ stage = protocol.home) :
    (unlessNotFound p).Follows protocol protocol.home fun result stage =>
      (∀ value, result = some value → claim value) ∧ stage = protocol.home := by
  refine h.attempt.bind fun result stage hresult => ?_
  obtain ⟨hok, herror⟩ := hresult
  cases result with
  | ok value =>
    obtain ⟨hvalue, rfl⟩ := hok value rfl
    exact ⟨fun _ heq => Option.some.inj heq ▸ hvalue, rfl⟩
  | error error =>
    obtain rfl := herror error rfl
    cases error with
    | notFound => exact ⟨fun _ heq => (by cases heq), rfl⟩
    | _ => exact rfl

/-! ### Deletions -/

section

variable (erases : ∀ keys, protocol.Apart (.store (.deleteEngagements keys)))

include erases

theorem follows_deleteBatchFrom {backoff : BackoffSettings} {left : Nat}
    {pending : List EngagementKey} :
    (deleteBatchFrom backoff left pending).Follows protocol protocol.home
      fun _ stage => stage = protocol.home := by
  induction left generalizing pending with
  | zero =>
    rw [deleteBatchFrom]
    refine (follows_tryCall (erases _)).bind fun result stage hresult => ?_
    obtain ⟨-, rfl⟩ := hresult
    dsimp only
    split
    · exact rfl
    · refine follows_ofExcept.bind fun rest stage hrest => ?_
      exact hrest.2
  | succ left ih =>
    rw [deleteBatchFrom]
    refine (follows_tryCall (erases _)).bind fun result stage hresult => ?_
    obtain ⟨-, rfl⟩ := hresult
    dsimp only
    split
    · exact rfl
    · refine follows_ofExcept.bind fun rest stage hrest => ?_
      obtain ⟨-, rfl⟩ := hrest
      refine follows_perform (lenient _ rfl) fun word _ => ?_
      refine follows_perform (lenient _ rfl) fun reply _ => ?_
      cases reply with
      | ok value => exact ih
      | error error => exact rfl

/-- The records of an item are removed in units of their own. -/
theorem follows_spawnRecords {content : ContentId} {pages : Nat} {startAfter : Option UserId} :
    (spawnRecords settings content pages startAfter).Follows protocol protocol.home
      fun _ stage => stage = protocol.home := by
  induction pages generalizing startAfter with
  | zero => trivial
  | succ pages ih =>
    rw [spawnRecords]
    refine (follows_unlessNotFound (follows_call (lenient _ rfl))).bind fun found stage hfound => ?_
    obtain ⟨-, rfl⟩ := hfound
    cases found with
    | none => exact rfl
    | some page =>
      have hbatch : (deleteBatch settings.backoff (page.records.map (·.key))).Follows
          protocol.still () fun _ _ => True :=
        (@follows_deleteBatchFrom _ protocol.still lenient erases _ _ _).weaken fun _ _ _ => trivial
      dsimp only
      cases page.lastEvaluated with
      | none =>
        split
        · exact ⟨hbatch, rfl⟩
        · exact rfl
      | some user =>
        split
        · exact ⟨hbatch, ih⟩
        · exact ih

omit erases in
/-- A unit is spawned for every item that is listed in a scope. -/
theorem follows_spawnChildren {scope : ScopeId} {unit : ContentItem → Program Unit}
    {rounds pages : Nat} {startAfter : Option IndexKey} {Listed : ContentItem → Prop}
    (listed : ∀ query page, query.scope = scope →
      protocol.Told (.store (.queryContent query)) (.ok page) → ∀ item ∈ page.items, Listed item)
    (units : ∀ item, Listed item → (unit item).Follows protocol.still () fun _ _ => True) :
    (spawnChildren settings rounds scope unit pages startAfter).Follows protocol protocol.home
      fun _ stage => stage = protocol.home := by
  induction pages generalizing startAfter with
  | zero => trivial
  | succ pages ih =>
    rw [spawnChildren]
    have hcollect : (collect settings rounds (.children scope startAfter)).Follows protocol
        protocol.home fun collected stage => (∀ item ∈ collected.items, Listed item) ∧
          stage = protocol.home := follows_collectFrom lenient (by simp) listed
    refine (follows_unlessNotFound hcollect).bind fun found stage hfound => ?_
    obtain ⟨hlisted, rfl⟩ := hfound
    cases found with
    | none => exact rfl
    | some collected =>
      have hunits : ∀ work ∈ collected.items.map unit,
          work.Follows protocol.still () fun _ _ => True := by
        intro work hwork
        obtain ⟨item, hitem, rfl⟩ := List.mem_map.1 hwork
        exact units item (hlisted collected rfl item hitem)
      refine (follows_forkAll hunits).bind fun _ stage hstage => ?_
      subst hstage
      split
      · exact rfl
      · exact ih

omit lenient erases in
/-- Once what is below an item has gone, the item is removed, or was not there any more. -/
theorem follows_cascade {pages depth : Nat} {key : ContentKey} {kind : ContentKind}
    {post : Bool → δ → Prop} {stage : δ}
    (spawning : Follows protocol.still (do
        if kind = .post then
          spawnChildren settings pages key.id.asScope
            (fun child => do let _ ← cascade settings pages depth child.key child.kind) pages none
        spawnRecords settings key.id pages none) () fun _ _ => True)
    (removed : protocol.Passes protocol.home (.store (.deleteContent key)) (.ok ()) stage ∧
      post true stage)
    (refused : ∀ error, protocol.Passes protocol.home (.store (.deleteContent key)) (.error error)
      protocol.home)
    (gone : post false protocol.home) :
    (cascade settings pages (depth + 1) key kind).Follows protocol protocol.home post := by
  rw [cascade]
  refine ⟨spawning, fun gathered => ?_⟩
  refine follows_ofExcept.bind fun _ stage hstage => ?_
  obtain ⟨-, rfl⟩ := hstage
  refine follows_ofExcept.bind fun _ stage hstage => ?_
  obtain ⟨-, rfl⟩ := hstage
  intro reply _
  cases reply with
  | ok answer => exact ⟨_, removed.1, removed.2⟩
  | error error =>
    refine ⟨_, refused error, ?_⟩
    change Follows protocol (if error.isNotFound then _ else _ : Program Bool) _ _
    split
    · exact gone
    · exact rfl

theorem follows_cascade_comment {pages depth : Nat} {key : ContentKey} {post : Bool → δ → Prop}
    {stage : δ} (removed : protocol.Passes protocol.home (.store (.deleteContent key)) (.ok ())
      stage ∧ post true stage)
    (refused : ∀ error, protocol.Passes protocol.home (.store (.deleteContent key)) (.error error)
      protocol.home)
    (gone : post false protocol.home) :
    (cascade settings pages depth key .comment).Follows protocol protocol.home post := by
  cases depth with
  | zero => trivial
  | succ depth =>
    refine follows_cascade ?_ removed refused gone
    exact (@follows_spawnRecords _ protocol.still _ lenient erases _ _ _).weaken
      fun _ _ _ => trivial

/-- An item is removed with the comments under it, if its removal and theirs are of no account. -/
theorem follows_cascade_tree {pages depth : Nat} {key : ContentKey} {kind : ContentKind}
    (listed : ∀ query page, query.scope = key.id.asScope →
      protocol.Told (.store (.queryContent query)) (.ok page) → ∀ item ∈ page.items,
        item.kind = .comment ∧ protocol.Apart (.store (.deleteContent item.key)))
    (apart : protocol.Apart (.store (.deleteContent key))) :
    (cascade settings pages depth key kind).Follows protocol protocol.home
      fun _ stage => stage = protocol.home := by
  cases depth with
  | zero => trivial
  | succ depth =>
    have hrecords : (spawnRecords settings key.id pages none).Follows protocol.still ()
        fun _ _ => True :=
      (@follows_spawnRecords _ protocol.still _ lenient erases _ _ _).weaken fun _ _ _ => trivial
    refine follows_cascade ?_ ⟨.inl ⟨apart, rfl⟩, rfl⟩ (fun _ => .inl ⟨apart, rfl⟩) rfl
    dsimp only
    split
    · refine Follows.bind (@follows_spawnChildren _ protocol.still _ lenient _ _ _ _ _ _ listed
        fun child hchild => ?_) fun _ _ _ => hrecords
      obtain ⟨hkind, hchild⟩ := hchild
      rw [hkind]
      exact Follows.bind (@follows_cascade_comment _ protocol.still _ lenient erases _ _ _
        (fun _ _ => True) () ⟨.inl ⟨hchild, rfl⟩, trivial⟩ (fun _ => .inl ⟨hchild, rfl⟩) trivial)
        fun _ _ _ => trivial
    · exact hrecords

end

end

/-! ### Operations -/

section

variable {δ : Type} {protocol : Protocol δ} {site : Site} {conditions : Conditions}
  {Holds : Forum → Prop} {settings : Settings} {caller : Caller} {hive : ScopeId} {target : Target}

/-- The program ends where it began. -/
abbrev Returns (protocol : Protocol δ) {α : Type} (p : Program α) : Prop :=
  p.Follows protocol protocol.home fun _ stage => stage = protocol.home

theorem returns_call {request : Request} (apart : protocol.Apart (.store request)) :
    Returns protocol (call request) :=
  (follows_call apart).weaken fun _ _ => And.right

theorem follows_markReviewed (permits : protocol.Permits site Holds (.markReviewed caller target)) :
    Returns protocol (markReviewed caller target) := by
  have lenient := fun (effect : Effect) (h : effect.isSilent = true) => permits (.silent h)
  refine (follows_authorizeAs lenient).bind fun _ _ hstage => ?_
  subst hstage
  refine (follows_loadTarget lenient).bind fun _ _ hitem => ?_
  obtain ⟨-, -, rfl⟩ := hitem
  exact returns_call (permits .review)

theorem follows_setPinned {pinned : Bool}
    (permits : protocol.Permits site Holds (.setPinned caller target pinned)) :
    Returns protocol (setPinned caller target pinned) := by
  have lenient := fun (effect : Effect) (h : effect.isSilent = true) => permits (.silent h)
  refine (follows_authorizeAs lenient).bind fun _ _ hstage => ?_
  subst hstage
  refine (follows_loadTarget lenient).bind fun _ _ hitem => ?_
  obtain ⟨-, -, rfl⟩ := hitem
  dsimp only
  split
  · exact rfl
  · exact returns_call (permits .pin)

theorem follows_vote {request : VoteRequest}
    (permits : protocol.Permits site Holds (.vote caller target request)) :
    Returns protocol (vote settings caller target request) := by
  have lenient := fun (effect : Effect) (h : effect.isSilent = true) => permits (.silent h)
  have hattempt : ∀ time, Returns protocol (attemptVote caller target request time) := by
    intro time
    refine (follows_currentRecord lenient).bind fun record _ hstage => ?_
    subst hstage
    refine follows_changeOf.bind fun change _ hstage => ?_
    subst hstage
    exact (follows_tryCall (permits .vote)).weaken fun _ _ => And.right
  refine (follows_authorize lenient).bind fun _ _ hrole => ?_
  obtain ⟨-, rfl⟩ := hrole
  refine (follows_loadTarget lenient).bind fun item _ hitem => ?_
  obtain ⟨-, -, rfl⟩ := hitem
  refine follows_perform (lenient _ rfl) fun time _ => ?_
  refine (follows_retryConflicts (hattempt time) _).bind fun stored _ hstage => ?_
  subst hstage
  dsimp only
  split
  · exact follows_perform (permits .voted) fun _ _ => rfl
  · exact rfl

theorem follows_setSaved {saved : Bool}
    (permits : protocol.Permits site Holds (.setSaved caller target saved)) :
    Returns protocol (setSaved settings caller target saved) := by
  have lenient := fun (effect : Effect) (h : effect.isSilent = true) => permits (.silent h)
  have hattempt : Returns protocol (attemptSave caller target saved) := by
    refine (follows_currentRecord lenient).bind fun record _ hstage => ?_
    subst hstage
    refine follows_changeOf.bind fun change _ hstage => ?_
    subst hstage
    exact (follows_tryCall (permits .save)).weaken fun _ _ => And.right
  refine (follows_authorize lenient).bind fun _ _ hrole => ?_
  obtain ⟨-, rfl⟩ := hrole
  refine (follows_loadTarget lenient).bind fun _ _ hitem => ?_
  obtain ⟨-, -, rfl⟩ := hitem
  exact follows_retryConflicts hattempt _

theorem follows_applyReport {action : ReportAction}
    (lenient : ∀ effect : Effect, effect.isSilent = true → protocol.Apart effect)
    (writes : ∀ record outcome,
      protocol.Apart (.store (.commitReport record target.content outcome))) :
    Returns protocol (applyReport settings caller target action) := by
  have hattempt : Returns protocol (attemptReport caller target action) := by
    refine (follows_loadTarget lenient).bind fun _ _ hitem => ?_
    obtain ⟨-, -, rfl⟩ := hitem
    refine (follows_currentRecord lenient).bind fun record _ hstage => ?_
    subst hstage
    refine follows_ofExcept.bind fun transition _ htransition => ?_
    obtain ⟨-, rfl⟩ := htransition
    refine follows_changeOf.bind fun change _ hstage => ?_
    subst hstage
    exact (follows_tryCall (writes _ _)).weaken fun _ _ => And.right
  refine (follows_authorize lenient).bind fun _ _ hrole => ?_
  obtain ⟨-, rfl⟩ := hrole
  exact (follows_retryConflicts hattempt _).bind fun _ _ hstage => hstage

theorem follows_getEngagement
    (lenient : ∀ effect : Effect, effect.isSilent = true → protocol.Apart effect) :
    Returns protocol (getEngagement caller target) := by
  refine (follows_authorize lenient).bind fun _ _ hrole => ?_
  obtain ⟨-, rfl⟩ := hrole
  refine (returns_call (lenient _ rfl)).bind fun record _ hstage => ?_
  subst hstage
  split <;> exact rfl

theorem follows_lookupEngagement {contents : List ContentId}
    (lenient : ∀ effect : Effect, effect.isSilent = true → protocol.Apart effect) :
    Returns protocol (lookupEngagement caller hive contents) := by
  refine (follows_authorize lenient).bind fun _ _ hrole => ?_
  obtain ⟨-, rfl⟩ := hrole
  refine follows_ofExcept.bind fun _ _ hlimit => ?_
  obtain ⟨-, rfl⟩ := hlimit
  exact (returns_call (lenient _ rfl)).bind fun _ _ hstage => hstage

theorem follows_listContent {rounds : Nat} {request : ListRequest}
    (lenient : ∀ effect : Effect, effect.isSilent = true → protocol.Apart effect) :
    Returns protocol (listContent settings rounds caller hive request) := by
  have hlist : Returns protocol (listItems settings rounds request) := by
    refine follows_ofExcept.bind fun _ _ hlimit => ?_
    obtain ⟨-, rfl⟩ := hlimit
    refine follows_ofExcept.bind fun start _ hstart => ?_
    obtain ⟨-, rfl⟩ := hstart
    exact (@follows_collectFrom _ protocol _ lenient _ _ _ _ (fun _ => True) (by simp)
      (fun _ _ _ _ _ _ => trivial)).bind fun _ _ hstage => hstage.2
  refine (follows_authorize lenient).bind fun _ _ hrole => ?_
  obtain ⟨-, rfl⟩ := hrole
  split
  · refine (returns_call (lenient _ rfl)).bind fun post _ hstage => ?_
    subst hstage
    dsimp only
    split
    · exact rfl
    · exact hlist
  · exact hlist

variable (told : ∀ effect reply, protocol.Told effect reply →
  site.Tells conditions Holds effect reply)

include told

theorem follows_createPost {body : String} {tags : List TagId}
    (permits : protocol.Permits site Holds (.createPost caller hive body tags)) :
    Returns protocol (createPost caller hive body tags) := by
  have lenient := fun (effect : Effect) (h : effect.isSilent = true) => permits (.silent h)
  refine (follows_authorize lenient).bind fun role _ hrole => ?_
  obtain ⟨hrole, rfl⟩ := hrole
  refine follows_ofExcept.bind fun _ _ hlimit => ?_
  obtain ⟨-, rfl⟩ := hlimit
  refine follows_ofExcept.bind fun _ _ hlimit => ?_
  obtain ⟨-, rfl⟩ := hlimit
  refine follows_perform (lenient _ rfl) fun time _ => ?_
  refine follows_perform (lenient _ rfl) fun id _ => ?_
  exact (returns_call (permits (.post rfl (told _ _ hrole).membership))).bind
    fun _ _ hstage => hstage

variable (reachable : ∀ forum, Holds forum → forum.Reachable site)

include reachable

theorem follows_createComment {post : ContentId} {body : String}
    (permits : protocol.Permits site Holds (.createComment caller hive post body)) :
    Returns protocol (createComment caller hive post body) := by
  have lenient := fun (effect : Effect) (h : effect.isSilent = true) => permits (.silent h)
  refine (follows_authorize lenient).bind fun _ _ hrole => ?_
  obtain ⟨-, rfl⟩ := hrole
  refine follows_ofExcept.bind fun _ _ hlimit => ?_
  obtain ⟨-, rfl⟩ := hlimit
  refine (follows_loadTarget lenient).bind fun item _ hitem => ?_
  obtain ⟨hitem, -, rfl⟩ := hitem
  have hkey : item.key = ⟨hive, post⟩ := (told _ _ hitem).getContent.key_eq reachable
  dsimp only
  split
  · exact rfl
  · refine follows_perform (lenient _ rfl) fun time _ => ?_
    refine follows_perform (lenient _ rfl) fun id _ => ?_
    refine (returns_call (permits (.comment rfl))).bind fun _ _ hstage => ?_
    subst hstage
    rw [hkey]
    refine follows_perform (permits .count) fun _ _ => ?_
    refine follows_perform (permits .touch) fun _ _ => ?_
    exact follows_perform (permits .commented) fun _ _ => rfl

/-- A deletion that has found its item goes on with what is below it. -/
theorem follows_deleteContent {horizon : Nat}
    (permits : protocol.Permits site Holds (.deleteContent caller target)) :
    Returns protocol (deleteContent settings horizon caller target) := by
  have lenient := fun (effect : Effect) (h : effect.isSilent = true) => permits (.silent h)
  refine (follows_authorize lenient).bind fun role _ hrole => ?_
  obtain ⟨-, rfl⟩ := hrole
  have hload := (@follows_loadTarget _ protocol target lenient).weaken
    fun item stage h => (⟨⟨h.1, h.2.1⟩, h.2.2⟩ : (_ ∧ _) ∧ _)
  refine (follows_unlessNotFound hload).bind fun found _ hfound => ?_
  obtain ⟨hfound, rfl⟩ := hfound
  cases found with
  | none => exact rfl
  | some item =>
    have shown := (told _ _ (hfound item rfl).1).getContent
    have hkey : item.key = target.content := shown.key_eq reachable
    dsimp only
    split
    · exact rfl
    · rw [hkey]
      have hlisted : ∀ query page, query.scope = target.content.id.asScope →
          protocol.Told (.store (.queryContent query)) (.ok page) → ∀ child ∈ page.items,
            child.kind = .comment ∧ protocol.Apart (.store (.deleteContent child.key)) := by
        intro query page hscope hpage child hchild
        obtain ⟨id, hshown⟩ := (told _ _ hpage).queryContent hchild
        have hbelow : child.scope = target.content.id.asScope :=
          hscope ▸ congrArg ContentKey.scope (hshown.key_eq reachable)
        refine ⟨shown.kind_eq reachable hshown ?_, permits (.removeBelow shown hbelow)⟩
        rw [hbelow, ← hkey]
        rfl
      refine (follows_cascade_tree lenient (fun _ => permits .erase) hlisted
        (permits (.remove shown))).bind fun deleted _ hstage => ?_
      subst hstage
      split
      · refine follows_perform (permits (.uncount shown ?_)) fun _ _ => rfl
        exact congrArg ContentKey.scope hkey
      · exact rfl

end

end Program

open Program in
/-- An operation has no effects but those that it may have. -/
theorem Operation.follows {δ : Type} {protocol : Protocol δ} {site : Site}
    {conditions : Conditions} {Holds : Forum → Prop}
    (told : ∀ effect reply, protocol.Told effect reply → site.Tells conditions Holds effect reply)
    (reachable : ∀ forum, Holds forum → forum.Reachable site) (op : Operation)
    (permits : protocol.Permits site Holds op) (settings : Settings) (horizon : Nat) :
    Returns protocol (op.program settings horizon) := by
  have lenient := fun (effect : Effect) (h : effect.isSilent = true) => permits (.silent h)
  cases op with
  | createPost => exact follows_createPost told permits
  | createComment => exact follows_createComment told reachable permits
  | getContent =>
    refine (follows_authorize lenient).bind fun _ _ hrole => ?_
    obtain ⟨-, rfl⟩ := hrole
    exact (follows_loadTarget lenient).weaken fun _ _ hitem => hitem.2.2
  | markReviewed => exact follows_markReviewed permits
  | setPinned => exact follows_setPinned permits
  | deleteContent => exact follows_deleteContent told reachable permits
  | vote => exact follows_vote permits
  | setSaved => exact follows_setSaved permits
  | report =>
    refine follows_ofExcept.bind fun _ _ hlimit => ?_
    obtain ⟨-, rfl⟩ := hlimit
    exact follows_applyReport lenient fun _ _ => permits .report
  | withdrawReport => exact follows_applyReport lenient fun _ _ => permits .withdraw
  | getEngagement => exact follows_getEngagement lenient
  | lookupEngagement => exact follows_lookupEngagement lenient
  | listContent => exact follows_listContent lenient
  | ping => exact returns_call (lenient _ rfl)

end HiveForum
