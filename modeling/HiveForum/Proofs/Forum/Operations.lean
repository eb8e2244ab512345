import HiveForum.Proofs.Forum.Conduct
import HiveForum.Proofs.Store.Page

/-!
# Every operation conducts itself

New items are stored in their places, and a deletion removes records only on the item that it was
asked to delete and on the comments under it. Together with the conduct of votes, marks and reports
this covers every operation, so that a forum remains sound however operations run side by side.

## Main definitions

* `ContentItem.Above`: an item is stored under another one.
* `Operation.Deletes`: an operation is the deletion of an item or of one above it.

## Main results

* `Program.Meets.unlessNotFound`: what follows when something is found, or when it is not.
* `Forum.Sound.child`: what is stored under an item is a comment on it.
* `Forum.Sound.key_eq`: an item is stored under one key only.
* `Operation.complies`: every operation meets the contract.
-/

namespace HiveForum

open Program

/-- An item is above another one if it is that one, or if the other one is stored in its scope or
under an item there. -/
inductive ContentItem.Above (items : List ContentItem) : ContentItem → ContentItem → Prop where
  | self {item : ContentItem} : Above items item item
  | under {item child other : ContentItem} (stored : child ∈ items)
      (scope : child.scope = item.id.asScope) (h : Above items child other) :
      Above items item other

/-- The operation deletes an item: it is asked to delete that item or one that is above it. -/
def Operation.Deletes (items : List ContentItem) (item : ContentItem) : Operation → Prop
  | .deleteContent _ target => ∃ root ∈ items, root.key = target.content ∧ root.Above items item
  | _ => False

/-- What follows when something is found, or when there is nothing to find. -/
theorem Program.Meets.unlessNotFound {σ α β : Type} {responses : Responses σ}
    {contract : Contract σ} {pledge : Pledge σ} {p : Program α} {f : Option α → Program β}
    {failing : OperationError → σ → Prop} {claim : α → σ → Prop} {post : β → σ → Prop} {state : σ}
    (h : p.Meets responses (contract.withFailing failing) none claim state)
    (found : ∀ value middle, contract.Moves state middle →
      (∀ later, contract.rely middle later → claim value later) →
        (f (some value)).Meets responses contract pledge post middle)
    (absent : ∀ middle, contract.Moves state middle →
      (∀ later, contract.rely middle later → failing .notFound later) →
        (f none).Meets responses contract pledge post middle)
    (fails : ∀ error later, error ≠ .notFound → failing error later →
      contract.failing error later) :
    ((HiveForum.unlessNotFound p).bind f).Meets responses contract pledge post state := by
  rw [HiveForum.unlessNotFound]
  change ((p.attempt.bind _).bind f).Meets _ _ _ _ _
  rw [bind_assoc]
  refine Meets.andThen (Meets.attempt h) fun result middle moves hresult => ?_
  cases result with
  | ok value =>
    exact found value middle moves fun later hrely => (hresult later hrely).1 value rfl
  | error error =>
    have hfailing : ∀ later, contract.rely middle later → failing error later :=
      fun later hrely => (hresult later hrely).2 error rfl
    by_cases hmissing : error = .notFound
    · subst hmissing
      exact absent middle moves hfailing
    · have hfail : ((.fail error : Program (Option α)).bind f).Meets responses contract pledge post
          middle :=
        fun later hrely => fails error later hmissing (hfailing later hrely)
      cases error with
      | notFound => exact absurd rfl hmissing
      | _ => exact hfail

namespace Forum

variable {outlook : Outlook} {conditions : Conditions} {forum : Forum}
  {caller : Caller} {target : Target}

theorem Sound.isKeyed (sound : forum.Sound outlook) : forum.store.Keyed where
  items key item h := (sound.items key item h).1
  records := sound.keyed

/-- What is stored in the scope of an item is a comment, and the item is the post that it is a
comment on, unless the item was given the identifier of a hive. -/
theorem Sound.child (sound : forum.Sound outlook) {item child : ContentItem}
    (notHive : outlook.site.directory.hives.get? item.id.asScope = none)
    (hitem : item ∈ forum.created) (hchild : child ∈ forum.created)
    (hscope : child.scope = item.id.asScope) :
    child.kind = .comment ∧ item.kind = .post ∧
      item.key = ⟨child.hive, child.scope.asContent⟩ := by
  have hplace := sound.places child hchild
  rw [Places] at hplace
  cases hkind : child.kind with
  | post =>
    rw [hkind] at hplace
    obtain ⟨hhive, hknown⟩ := hplace
    rw [← hhive, hscope, notHive] at hknown
    cases hknown
  | comment =>
    rw [hkind] at hplace
    obtain ⟨post, hpost, hpostKind, hpostHive, hpostScope⟩ := hplace
    have hid : post.id = item.id := by
      have hscopes := hpostScope.trans hscope
      exact congrArg (fun scope : ScopeId => scope.asContent) hscopes
    obtain rfl := sound.eq_of_id hpost hitem hid
    have hpostPlace := sound.places post hpost
    rw [Places] at hpostPlace
    rw [hpostKind] at hpostPlace
    refine ⟨rfl, hpostKind, ?_⟩
    rw [← hpostHive, hscope, ← hpostPlace.1]
    rfl

/-- Two stored items with one identifier are stored under one key. -/
theorem Sound.key_eq (sound : forum.Sound outlook) {key key' : ContentKey}
    {item other : ContentItem} (hitem : forum.store.item? key = some item)
    (hother : forum.store.item? key' = some other) (hid : item.id = other.id) : key = key' := by
  obtain ⟨rfl, hcreated⟩ := sound.items key item hitem
  obtain ⟨rfl, hcreated'⟩ := sound.items key' other hother
  have hsame : item.asCreated = other.asCreated := sound.eq_of_id hcreated hcreated' hid
  have hkeys : item.asCreated.key = other.asCreated.key := congrArg ContentItem.key hsame
  exact hkeys

theorem Sound.post_scope_ne (sound : forum.Sound outlook)
    (distinct : forum.DistinctIds outlook.site) {post item : ContentItem}
    (hpost : post ∈ forum.created) (kind : post.kind = .post) (hitem : item ∈ forum.created) :
    item.id.asScope ≠ post.scope := by
  intro heq
  have hplace := sound.places post hpost
  rw [Places] at hplace
  rw [kind] at hplace
  rw [← hplace.1, ← heq, distinct.notHive item hitem] at hplace
  cases hplace.2

section

variable (sound : forum.Sound outlook)

include sound

/-! ### Publishing -/

theorem conducts_createPost {hive : ScopeId} {body : String} {tags : List TagId} :
    Conducts outlook conditions (createPost caller hive body tags) (fun _ _ => True) forum := by
  rw [createPost]
  refine conducts_bind sound (conducts_authorize sound) fun _ first hfirst hknown => ?_
  refine conducts_bind hfirst.sound (conducts_ofExcept hfirst.sound) fun _ second hsecond _ => ?_
  refine conducts_bind hsecond.sound (conducts_ofExcept hsecond.sound) fun _ third hthird _ => ?_
  refine conducts_bind hthird.sound (conducts_ask hthird.sound fun _ => trivial)
    fun time fourth hfourth _ => ?_
  refine conducts_bind hfourth.sound (conducts_ask hfourth.sound fun _ => trivial)
    fun id last hlast _ => ?_
  refine conducts_bind hlast.sound (conducts_called hlast.sound fun _ _ => ?_)
    fun _ after hafter _ => ?_
  · exact ⟨rfl, rfl, hknown first (.refl hfirst.sound)⟩
  · exact conducts_done hafter.sound fun _ _ => trivial

theorem conducts_createComment {hive : ScopeId} {post : ContentId} {body : String} :
    Conducts outlook conditions (createComment caller hive post body) (fun _ _ => True)
      forum := by
  rw [createComment]
  refine conducts_bind sound (conducts_authorize sound) fun _ first hfirst _ => ?_
  refine conducts_bind hfirst.sound (conducts_ofExcept hfirst.sound) fun _ second hsecond _ => ?_
  refine conducts_bind hsecond.sound (conducts_loadTarget hsecond.sound)
    fun parent third hthird hparent => ?_
  dsimp only
  split
  · exact conducts_fail
  · rename_i hkind
    refine conducts_bind hthird.sound (conducts_ask hthird.sound fun _ => trivial)
      fun time fourth hfourth _ => ?_
    refine conducts_bind hfourth.sound (conducts_ask hfourth.sound fun _ => trivial)
      fun id fifth hfifth _ => ?_
    refine conducts_bind hfifth.sound (conducts_called hfifth.sound fun later hlater => ⟨rfl, ?_⟩)
      fun _ sixth hsixth _ => ?_
    · obtain ⟨hkey, hcreated, hhive⟩ := hparent later ((hfourth.trans hfifth).trans hlater)
      refine ⟨parent.asCreated, hcreated, Decidable.not_not.1 hkind, hhive, ?_⟩
      exact congrArg (fun key : ContentKey => key.id.asScope) hkey
    refine conducts_bind hsixth.sound (conducts_attempted hsixth.sound fun _ _ => ⟨rfl, rfl, rfl⟩)
      fun _ seventh hseventh _ => ?_
    refine conducts_bind hseventh.sound (conducts_attempted hseventh.sound fun _ _ => trivial)
      fun _ eighth heighth _ => ?_
    exact conducts_bind heighth.sound (conducts_ask heighth.sound fun _ => trivial)
      fun _ last hlast _ => conducts_done hlast.sound fun _ _ => trivial

theorem conducts_authorizeAs {hive : ScopeId} {required : Role} :
    Conducts outlook conditions (authorizeAs caller hive required) (fun _ _ => True) forum :=
  conducts_perform sound (fun _ _ => trivial) fun _ _ _ _ _ hafter =>
    (conducts_ofExcept hafter.sound).weaken fun _ _ _ => trivial

theorem conducts_readItem :
    Conducts outlook conditions (getContent caller target) (fun _ _ => True) forum := by
  rw [getContent]
  refine conducts_bind sound (conducts_authorize sound) fun _ first hfirst _ => ?_
  exact (conducts_loadTarget hfirst.sound).weaken fun _ _ _ => trivial

theorem conducts_markReviewed :
    Conducts outlook conditions (markReviewed caller target) (fun _ _ => True) forum := by
  rw [markReviewed]
  refine conducts_bind sound (conducts_authorizeAs sound) fun _ first hfirst _ => ?_
  refine conducts_bind hfirst.sound (conducts_loadTarget hfirst.sound) fun _ second hsecond _ => ?_
  exact conducts_called hsecond.sound fun _ _ => trivial

theorem conducts_setPinned {pinned : Bool} :
    Conducts outlook conditions (setPinned caller target pinned) (fun _ _ => True) forum := by
  rw [setPinned]
  refine conducts_bind sound (conducts_authorizeAs sound) fun _ first hfirst _ => ?_
  refine conducts_bind hfirst.sound (conducts_loadTarget hfirst.sound)
    fun item second hsecond _ => ?_
  dsimp only
  split
  · exact conducts_fail
  · exact conducts_called hsecond.sound fun _ _ => trivial

theorem conducts_readRecord :
    Conducts outlook conditions (HiveForum.getEngagement caller target) (fun _ _ => True)
      forum := by
  rw [HiveForum.getEngagement]
  refine conducts_bind sound (conducts_authorize sound) fun _ first hfirst _ => ?_
  refine conducts_bind hfirst.sound (conducts_called hfirst.sound fun _ _ => trivial)
    fun _ last hlast _ => ?_
  split
  · exact conducts_done hlast.sound fun _ _ => trivial
  · exact conducts_fail

theorem conducts_readRecords {hive : ScopeId} {contents : List ContentId} :
    Conducts outlook conditions (HiveForum.lookupEngagement caller hive contents)
      (fun _ _ => True) forum := by
  rw [HiveForum.lookupEngagement]
  refine conducts_bind sound (conducts_authorize sound) fun _ first hfirst _ => ?_
  refine conducts_bind hfirst.sound (conducts_ofExcept hfirst.sound) fun _ second hsecond _ => ?_
  refine conducts_bind hsecond.sound (conducts_called hsecond.sound fun _ _ => trivial)
    fun _ last hlast _ => ?_
  exact conducts_done hlast.sound fun _ _ => trivial

/-! ### Browsing -/

/-- The items that a scan collects were stored in its scope. -/
theorem conducts_collectFrom {settings : Settings} {scan : Scan} (rounds : Nat)
    (startAfter : Option IndexKey) (held : List ContentItem)
    (hheld : ∀ item ∈ held, item.scope = scan.scope ∧ item.asCreated ∈ forum.created) :
    Conducts outlook conditions (collectFrom settings scan rounds startAfter held)
      (fun collected later => ∀ item ∈ collected.items,
        item.scope = scan.scope ∧ item.asCreated ∈ later.created) forum := by
  induction rounds generalizing forum startAfter held with
  | zero => exact trivial
  | succ rounds ih =>
    rw [collectFrom]
    have hpage : Conducts outlook conditions
        (call (.queryContent (scan.query settings startAfter)))
        (fun page later => ∀ item ∈ page.items,
          item.scope = scan.scope ∧ item.asCreated ∈ later.created) forum := by
      refine conducts_call sound (fun _ _ => trivial)
        fun later page after hlater answer _ last hlast item hitem => ?_
      obtain ⟨hpage, rfl⟩ := answer.queryContent
      obtain ⟨id, hstored⟩ :=
        StoreState.mem_scopeItems_iff.1 (StoreState.mem_scope_of_queryContent hpage hitem).1
      obtain ⟨hkey, hcreated⟩ := hlater.sound.items _ item hstored
      exact ⟨congrArg ContentKey.scope hkey, hlast.created hcreated⟩
    refine conducts_bind sound hpage fun page middle hmiddle hitems => ?_
    have hmerged : ∀ later, middle.Advances outlook later →
        ∀ item ∈ ContentItem.sort scan.sort scan.direction (held ++ page.items),
          item.scope = scan.scope ∧ item.asCreated ∈ later.created := by
      intro later hlater item hitem
      rw [(ContentItem.sort_perm _ _ _).mem_iff, List.mem_append] at hitem
      rcases hitem with hitem | hitem
      · obtain ⟨hscope, hcreated⟩ := hheld item hitem
        exact ⟨hscope, hlater.created (hmiddle.created hcreated)⟩
      · exact hitems later hlater item hitem
    have hdone : ∀ exhausted, Conducts outlook conditions
        (.done (Collected.ofHeld scan exhausted
          (ContentItem.sort scan.sort scan.direction (held ++ page.items))))
        (fun collected later => ∀ item ∈ collected.items,
          item.scope = scan.scope ∧ item.asCreated ∈ later.created) middle :=
      fun _ => conducts_done hmiddle.sound fun later hlater item hitem =>
        hmerged later hlater item (List.mem_of_mem_take hitem)
    dsimp only
    split
    · exact hdone true
    · split
      · exact ih hmiddle.sound _ _ (hmerged middle (.refl hmiddle.sound))
      · exact hdone false

theorem conducts_collect {settings : Settings} {scan : Scan} (rounds : Nat) :
    Conducts outlook conditions (collect settings rounds scan)
      (fun collected later => ∀ item ∈ collected.items,
        item.scope = scan.scope ∧ item.asCreated ∈ later.created) forum :=
  conducts_collectFrom sound rounds _ [] (by simp)

theorem conducts_listContent {settings : Settings} {rounds : Nat} {hive : ScopeId}
    {request : ListRequest} :
    Conducts outlook conditions (listContent settings rounds caller hive request)
      (fun _ _ => True) forum := by
  have hlist : ∀ later : Forum, later.Sound outlook → Conducts outlook conditions
      (listItems settings rounds request) (fun _ _ => True) later := by
    intro later hlater
    rw [listItems]
    refine conducts_bind hlater (conducts_ofExcept hlater) fun _ first hfirst _ => ?_
    refine conducts_bind hfirst.sound (conducts_ofExcept hfirst.sound) fun _ second hsecond _ => ?_
    refine conducts_bind hsecond.sound (conducts_collect hsecond.sound rounds)
      fun _ last hlast _ => ?_
    exact conducts_done hlast.sound fun _ _ => trivial
  rw [listContent]
  refine conducts_bind sound (conducts_authorize sound) fun _ first hfirst _ => ?_
  dsimp only
  split
  · refine conducts_bind hfirst.sound (conducts_getContent hfirst.sound) fun post last hlast _ => ?_
    split
    · exact conducts_fail
    · exact hlist last hlast.sound
  · exact hlist first hfirst.sound

/-! ### Deleting -/

/-- A program that meets the contract, whatever its value. -/
abbrev Complies (outlook : Outlook) (conditions : Conditions)
    (pledge : Pledge Forum) {α : Type} (p : Program α) (forum : Forum) : Prop :=
  p.Meets (regular outlook conditions) (contract outlook) pledge (fun _ _ => True) forum

theorem complies_bind {pledge : Pledge Forum} {α β : Type} {p : Program α} {f : α → Program β}
    {claim : α → Forum → Prop} (h : Conducts outlook conditions p claim forum)
    (hf : ∀ value middle, forum.Advances outlook middle →
      (∀ later, middle.Advances outlook later → claim value later) →
        Complies outlook conditions pledge (f value) middle) :
    Complies outlook conditions pledge (p.bind f) forum :=
  Meets.andThen h fun value middle moves hclaim =>
    hf value middle (advances_of_moves sound moves) fun later hlater =>
      hclaim later fun _ => hlater

theorem complies_unlessNotFound {pledge : Pledge Forum} {α β : Type} {p : Program α}
    {f : Option α → Program β} {claim : α → Forum → Prop}
    (h : Conducts outlook conditions p claim forum)
    (hnone : ∀ middle, forum.Advances outlook middle →
      Complies outlook conditions pledge (f none) middle)
    (hsome : ∀ value middle, forum.Advances outlook middle →
      (∀ later, middle.Advances outlook later → claim value later) →
        Complies outlook conditions pledge (f (some value)) middle) :
    Complies outlook conditions pledge ((unlessNotFound p).bind f) forum := by
  have hfailing : p.Meets (regular outlook conditions)
      ((contract outlook).withFailing fun _ _ => True) none claim forum := h
  refine Meets.unlessNotFound hfailing (fun value middle moves hclaim => ?_)
    (fun middle moves _ => hnone middle (advances_of_moves sound moves)) fun _ _ _ _ => trivial
  exact hsome value middle (advances_of_moves sound moves) fun later hlater =>
    hclaim later fun _ => hlater

/-- A batch leaves some of its own keys. -/
theorem conducts_deleteEngagements {keys : List EngagementKey}
    (others : ∀ later, forum.Advances outlook later → ∀ key ∈ keys, ∀ item ∈ later.created,
      outlook.spared item → item.id ≠ key.content) :
    Conducts outlook conditions (tryCall (.deleteEngagements keys))
      (fun reply _ => ∀ pending, remainingKeys keys reply = .ok pending → pending ⊆ keys)
      forum := by
  refine conducts_tryCall sound others fun later reply after _ answer _ last _ => ?_
  intro pending hpending
  cases answer with
  | carriedOut h =>
    simp only [StoreState.perform] at h
    split at h
    · cases h
    · cases h
      cases hpending
      exact List.drop_subset _ _
  | skipped _ _ split =>
    cases hpending
    exact fun key hkey => split.mem_iff.2 (List.mem_append_right _ hkey)
  | _ =>
    unfold remainingKeys at hpending
    dsimp only at hpending
    split at hpending
    · cases hpending
      exact List.Subset.refl _
    · cases hpending

/-- A batch is retried with its own keys only. -/
theorem complies_deleteBatchFrom {settings : BackoffSettings} (left : Nat)
    (keys : List EngagementKey)
    (others : ∀ later, forum.Advances outlook later → ∀ key ∈ keys, ∀ item ∈ later.created,
      outlook.spared item → item.id ≠ key.content) :
    Complies outlook conditions none (deleteBatchFrom settings left keys) forum := by
  induction left generalizing keys forum with
  | zero =>
    rw [deleteBatchFrom]
    refine complies_bind sound (conducts_deleteEngagements sound others)
      fun reply middle hmiddle _ => ?_
    split
    · exact fun _ _ _ => trivial
    · exact complies_bind hmiddle.sound (conducts_ofExcept hmiddle.sound) fun _ _ _ _ =>
        fun _ _ => trivial
  | succ left ih =>
    rw [deleteBatchFrom]
    refine complies_bind sound (conducts_deleteEngagements sound others)
      fun reply middle hmiddle hpart => ?_
    split
    · exact fun _ _ _ => trivial
    · refine complies_bind hmiddle.sound (conducts_ofExcept hmiddle.sound)
        fun pending next hnext hpending => ?_
      dsimp only
      have hsub := hpart next hnext pending (hpending next (.refl hnext.sound))
      refine complies_bind hnext.sound (conducts_ask hnext.sound fun _ => trivial)
        fun word third hthird _ => ?_
      refine complies_bind hthird.sound (conducts_pause hthird.sound) fun _ last hlast _ => ?_
      refine ih hlast.sound pending fun later hlater key hkey => ?_
      exact others later ((((hmiddle.trans hnext).trans hthird).trans hlast).trans hlater) key
        (hsub hkey)

/-- The units that delete the records of an item touch no others. -/
theorem complies_spawnRecords {settings : Settings} {content : ContentId}
    (others : ∀ later, forum.Advances outlook later → ∀ item ∈ later.created,
      outlook.spared item → item.id ≠ content) (pages : Nat) (startAfter : Option UserId)
    (pledged : Forum → Prop) :
    Complies outlook conditions (some pledged) (spawnRecords settings content pages startAfter)
      forum := by
  induction pages generalizing forum startAfter pledged with
  | zero => exact trivial
  | succ pages ih =>
    rw [spawnRecords]
    dsimp only
    have hpage : Conducts outlook conditions
        (call (.queryEngagement ⟨content, Limit.batchWrite, startAfter⟩))
        (fun page _ => ∀ record ∈ page.records, record.content = content) forum := by
      refine conducts_call sound (fun _ _ => trivial)
        fun later page after hlater answer _ last hlast record hrecord => ?_
      obtain ⟨hpage, rfl⟩ := answer.queryEngagement
      obtain ⟨-, hrecords, -⟩ := StoreState.queryEngagement_eq_ok hpage
      rw [hrecords] at hrecord
      exact ((StoreState.mem_recordsAfter_iff hlater.sound.isKeyed).1
        (List.mem_of_mem_take hrecord)).2.1
    refine complies_unlessNotFound sound hpage (fun _ _ => fun _ _ _ => trivial)
      fun page middle hmiddle hrecords => ?_
    have hbatch : Complies outlook conditions none
        (deleteBatch settings.backoff (page.records.map (·.key))) middle := by
      refine complies_deleteBatchFrom hmiddle.sound _ _ fun later hlater key hkey item hitem => ?_
      obtain ⟨record, hrecord, rfl⟩ := List.mem_map.1 hkey
      change outlook.spared item → item.id ≠ record.content
      rw [hrecords middle (.refl hmiddle.sound) record hrecord]
      exact others later (hmiddle.trans hlater) item hitem
    dsimp only
    cases page.lastEvaluated with
    | none =>
      split
      · exact ⟨pledged, fun _ => True, rfl, hbatch, fun _ _ _ => trivial⟩
      · exact fun _ _ _ => trivial
    | some user =>
      have hrest := fun pledged => ih hmiddle.sound
        (fun later hlater => others later (hmiddle.trans hlater)) (some user) pledged
      split
      · exact ⟨pledged, fun _ => True, rfl, hbatch, hrest _⟩
      · exact hrest pledged

/-- A unit is spawned for what is stored in a scope only. -/
theorem complies_spawnChildren {settings : Settings} {rounds : Nat} {scope : ScopeId}
    {unit : ContentItem → Program Unit}
    (hunit : ∀ later, forum.Advances outlook later → ∀ item : ContentItem,
      item.scope = scope → item.asCreated ∈ later.created →
        Complies outlook conditions none (unit item) later)
    (pages : Nat) (startAfter : Option IndexKey) (pledged : Forum → Prop) :
    Complies outlook conditions (some pledged)
      (spawnChildren settings rounds scope unit pages startAfter) forum := by
  induction pages generalizing forum startAfter pledged with
  | zero => exact trivial
  | succ pages ih =>
    rw [spawnChildren]
    refine complies_unlessNotFound sound (conducts_collect sound rounds)
      (fun _ _ => fun _ _ _ => trivial) fun collected middle hmiddle hitems => ?_
    have hunits : ∀ item ∈ collected.items,
        Complies outlook conditions none (unit item) middle := by
      intro item hitem
      obtain ⟨hscope, hcreated⟩ := hitems middle (.refl hmiddle.sound) item hitem
      exact hunit middle hmiddle item hscope hcreated
    refine Meets.forkAll hunits fun made _ => ?_
    split
    · exact fun _ _ _ => trivial
    · exact ih hmiddle.sound (fun later hlater => hunit later (hmiddle.trans hlater)) _ made

/-- The deletion of an item that is above none that is spared. -/
theorem complies_cascade {settings : Settings} {pages : Nat} (depth : Nat) {item : ContentItem}
    (hitem : item ∈ forum.created)
    (others : ∀ other, item.Above outlook.items other → ¬outlook.spared other) :
    Complies outlook conditions none (cascade settings pages depth item.key item.kind) forum := by
  induction depth generalizing forum item with
  | zero => exact trivial
  | succ depth ih =>
    have hrecords : ∀ later, forum.Advances outlook later → ∀ other ∈ later.created,
        outlook.spared other → other.id ≠ item.key.id := by
      intro later hlater other hother hspared hid
      obtain rfl := hlater.sound.eq_of_id hother (hlater.created hitem) hid
      exact others other .self hspared
    have hchild : ∀ later, forum.Advances outlook later → ∀ child : ContentItem,
        child.scope = item.key.id.asScope → child.asCreated ∈ later.created →
          Complies outlook conditions none
            (do let _ ← cascade settings pages depth child.key child.kind) later := by
      intro later hlater child hscope hchild
      have hcascade := ih hlater.sound hchild fun other hother =>
        others other (.under (hlater.sound.known hchild) hscope hother)
      exact Meets.andThen hcascade fun _ _ _ _ => fun _ _ _ => trivial
    rw [cascade]
    refine ⟨contract outlook, fun _ => True, ⟨id, id, id, id⟩, ?_,
      fun gathered later hlater _ => ?_⟩
    · dsimp only
      split
      · refine Meets.bind (complies_spawnChildren sound hchild pages none _)
          fun _ made middle moves hmade _ _ => ?_
        obtain ⟨pledged, rfl⟩ := Option.isSome_iff_exists.1 hmade
        have hmiddle := advances_of_moves sound moves
        exact complies_spawnRecords hmiddle.sound
          (fun last hlast => hrecords last (hmiddle.trans hlast)) pages none pledged
      · exact complies_spawnRecords sound hrecords pages none _
    · have hsound := (hlater sound).sound
      simp only [done_bind]
      refine complies_bind hsound (conducts_ofExcept hsound) fun _ first hfirst _ => ?_
      refine complies_bind hfirst.sound (conducts_ofExcept hfirst.sound)
        fun _ second hsecond _ => ?_
      refine complies_bind hsecond.sound (conducts_attempted hsecond.sound fun _ _ => trivial)
        fun reply last hlast _ => ?_
      split
      · exact fun _ _ _ => trivial
      · split
        · exact fun _ _ _ => trivial
        · exact fun _ _ => trivial

/-- A deletion spares what it does not delete. -/
theorem complies_deleteContent {settings : Settings} {horizon : Nat}
    (others : ∀ item, outlook.spared item →
      ¬(Operation.deleteContent caller target).Deletes outlook.items item) :
    Complies outlook conditions none (deleteContent settings horizon caller target) forum := by
  rw [deleteContent]
  refine complies_bind sound (conducts_authorize sound) fun role first hfirst _ => ?_
  refine complies_unlessNotFound hfirst.sound (conducts_loadTarget hfirst.sound)
    (fun _ _ => fun _ _ _ => trivial) fun item middle hmiddle hitem => ?_
  obtain ⟨hkey, hcreated, -⟩ := hitem middle (.refl hmiddle.sound)
  dsimp only
  split
  · exact fun _ _ => trivial
  · have hspared : ∀ other, item.asCreated.Above outlook.items other → ¬outlook.spared other :=
      fun other hother hspared =>
        others other hspared ⟨item.asCreated, hmiddle.sound.known hcreated, hkey, hother⟩
    have hcascade : Complies outlook conditions none
        (cascade settings horizon horizon item.asCreated.key item.asCreated.kind) middle :=
      complies_cascade hmiddle.sound _ hcreated hspared
    refine Meets.andThen hcascade fun deleted last moves _ => ?_
    have hlast := advances_of_moves hmiddle.sound moves
    split
    · exact complies_bind hlast.sound
        (conducts_attempted hlast.sound fun _ _ => ⟨rfl, rfl, rfl⟩) fun _ _ _ _ =>
          fun _ _ _ => trivial
    · exact fun _ _ _ => trivial

end

end Forum

/-- Every operation that deletes no item that is spared meets the contract. -/
theorem Operation.complies {outlook : Outlook} {conditions : Conditions}
    {forum : Forum} (sound : forum.Sound outlook) (op : Operation)
    (others : ∀ item, outlook.spared item → ¬op.Deletes outlook.items item) (settings : Settings)
    (horizon : Nat) :
    Forum.Complies outlook conditions none (op.program settings horizon) forum := by
  have complies : ∀ {α : Type} {p : Program α},
      Forum.Conducts outlook conditions p (fun _ _ => True) forum →
        Forum.Complies outlook conditions none p forum := id
  cases op with
  | createPost => exact complies (Forum.conducts_createPost sound)
  | createComment => exact complies (Forum.conducts_createComment sound)
  | getContent => exact complies (Forum.conducts_readItem sound)
  | markReviewed => exact complies (Forum.conducts_markReviewed sound)
  | setPinned => exact complies (Forum.conducts_setPinned sound)
  | deleteContent => exact Forum.complies_deleteContent sound others
  | vote => exact complies (Forum.conducts_vote sound)
  | setSaved => exact complies (Forum.conducts_setSaved sound)
  | report => exact complies (Forum.conducts_report sound)
  | withdrawReport => exact complies (Forum.conducts_applyReport sound)
  | getEngagement => exact complies (Forum.conducts_readRecord sound)
  | lookupEngagement => exact complies (Forum.conducts_readRecords sound)
  | listContent => exact complies (Forum.conducts_listContent sound)
  | ping => exact complies (Forum.conducts_called sound fun _ _ => trivial)

end HiveForum
