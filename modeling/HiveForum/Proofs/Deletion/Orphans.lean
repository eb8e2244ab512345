import HiveForum.Proofs.Deletion.Cascade
import HiveForum.Proofs.Deletion.Survey

/-!
# Orphans

What is left of the records on an item that has been removed, and of the comments under a post that
has been removed, was written too late: a page of the deletion had come by its place already. So
whatever was there before a deletion began to list is gone with its item, whoever else writes
meanwhile. That something may be left at all is shown by a member who saves a post while it is being
deleted.

## Main definitions

* `Operation.Attends`: an operation votes for an item or a comment on it, saves or reports it, or
  comments on the item.

## Main results

* `Forum.tracks_cascade`: only what came too late is left below an item that a cascade removes.
* `Forum.orphans_late`: the records and comments that removed items leave behind came too late.
-/

namespace HiveForum

open Program

namespace Forum

variable {site : Site} {conditions : Conditions} {state later : Forum × Journal}

theorem Cleared.congr {item root : ContentItem} (h : Cleared state item)
    (same : root.asCreated = item.asCreated) : Cleared state root := by
  have hid : root.id = item.id := ContentItem.field_eq same ContentItem.id fun _ => rfl
  have hkind : root.kind = item.kind := ContentItem.field_eq same ContentItem.kind fun _ => rfl
  refine ⟨fun key hkey => h.records key (hkey.trans hid), fun hpost => ?_⟩
  rw [hid]
  exact h.items (hkind ▸ hpost)

theorem Tracked.asCreated_eq {item other : ContentItem} (tracked : Tracked site state)
    (created : item.asCreated ∈ state.1.created)
    (stored : state.1.store.item? item.key = some other) : other.asCreated = item.asCreated := by
  obtain ⟨sound, -⟩ := tracked.reachable.sound
  obtain ⟨hkey, hcreated⟩ := sound.items _ other stored
  exact sound.eq_of_id hcreated created (congrArg ContentKey.id hkey)

section

variable (honest : conditions.Honest)

include honest

/-- Once the units of a cascade have ended, only what came too late is left below its item. -/
theorem tracks_units {settings : Settings} {pages depth : Nat} {item : ContentItem}
    (tracked : Tracked site state)
    (below : ∀ later, Tracked site later → ∀ child : ContentItem,
      child.asCreated ∈ later.1.created →
        Tracks site conditions none (cascade settings pages depth child.key child.kind)
          (fun _ last => last.1.store.item? child.key = none) later) :
    Tracks site conditions (some fun _ => True)
      (do
        if item.kind = .post then
          spawnChildren settings pages item.key.id.asScope
            (fun child => do let _ ← cascade settings pages depth child.key child.kind) pages none
        spawnRecords settings item.key.id pages none)
      (fun _ later => Cleared later item) state := by
  have hrecords : ∀ {middle : Forum × Journal} {pledged : Forum × Journal → Prop},
      Tracked site middle → (∀ later, Tracked site later → Grows middle later → pledged later →
        item.kind = .post → SettledScope later item.id.asScope) →
      Tracks site conditions (some pledged) (spawnRecords settings item.key.id pages none)
        (fun _ later => Cleared later item) middle := by
    intro middle pledged hmiddle hscope
    refine (tracks_spawnRecords honest pages hmiddle hscope fun _ _ _ _ key _ hpast => ?_).weaken
      fun _ later h => ⟨h.2, h.1⟩
    exact absurd key.user.isPast_none hpast
  dsimp only
  split
  · rename_i hkind
    have hunit : ∀ later, Tracked site later → ∀ child : ContentItem,
        child.asCreated ∈ later.1.created → Tracks site conditions none
          (do let _ ← cascade settings pages depth child.key child.kind)
          (fun _ last => last.1.store.item? child.key = none) later :=
      fun later hlater child hchild => Meets.andThen (below later hlater child hchild)
        fun _ _ _ hgone last rely _ => hgone last rely
    have hchildren : Tracks site conditions (some fun _ => True)
        (spawnChildren settings pages item.key.id.asScope
          (fun child => do let _ ← cascade settings pages depth child.key child.kind) pages none)
        (fun _ later => SettledScope later item.key.id.asScope) state :=
      tracks_spawnChildren honest hunit pages tracked (fun _ => .inl rfl)
        fun _ _ _ _ _ _ _ _ => .inl rfl
    refine Meets.bind hchildren fun _ made middle moves hmade _ hclaim => ?_
    obtain ⟨pledged, rfl⟩ := Option.isSome_iff_exists.1 hmade
    refine hrecords (tracked_of_moves moves tracked).1 fun later hlater hgrows h _ => ?_
    exact hclaim later (fun _ => ⟨hlater, hgrows⟩) h
  · rename_i hkind
    exact hrecords tracked fun _ _ _ _ hpost => absurd hpost hkind

/-- An item that was stored is gone when its cascade has ended well, and only what came too late is
left below it. -/
theorem tracks_cascade {settings : Settings} {pages depth : Nat} {item : ContentItem}
    (tracked : Tracked site state) (created : item.asCreated ∈ state.1.created) :
    Tracks site conditions none (cascade settings pages depth item.key item.kind)
      (fun _ later => later.1.store.item? item.key = none) state := by
  induction depth generalizing state item with
  | zero => exact trivial
  | succ depth ih =>
    rw [cascade]
    refine ⟨tracking site, fun later => Cleared later item, ⟨id, id, id, id⟩,
      tracks_units honest tracked fun later hlater child => ih hlater, ?_⟩
    intro gathered later rely hg
    obtain ⟨hlater, hgrows⟩ := rely tracked
    simp only [done_bind]
    cases hspawner : gathered.spawner with
    | error error => exact fun _ _ => trivial
    | ok _ =>
      cases hunits : gathered.units with
      | error error => exact fun _ _ => trivial
      | ok _ =>
        have hcleared := hg.goal hspawner hunits
        intro second reply after rely' answer
        obtain ⟨hsecond, hgrows'⟩ := rely' hlater
        have created : item.asCreated ∈ second.1.created := hgrows'.created (hgrows.created created)
        have hgrows'' := grows_of_answer honest answer
        have hafter := tracked_of_answer honest answer hsecond fun root hroot => by
          cases reply with
          | error error => cases hroot
          | ok _ =>
            exact ((hcleared.grows hgrows').grows hgrows'').congr
              (hsecond.asCreated_eq created hroot)
        refine ⟨fun _ => hafter, ?_⟩
        have hgone : after.1.store.item? item.key = none → ∀ last, (tracking site).rely after last →
            last.1.store.item? item.key = none := fun hnone last rely =>
          (rely hafter.1).2.item?_eq_none (rely hafter.1).1 (hgrows''.created created) hnone
        rcases Site.Answer.of_deleteContent honest answer.1.1 with ⟨rfl, hremoved⟩ |
          ⟨error, rfl, hsame, ⟨hmissing, hnone⟩ | ⟨hfound, -⟩⟩
        · refine fun last rely _ => hgone ?_ last rely
          rw [hremoved, StoreState.item?_removeItem, if_pos rfl]
        · simp only [done_bind, hmissing, if_true]
          refine fun last rely _ => hgone ?_ last rely
          rw [hsame, hnone]
        · simp only [done_bind, hfound, Bool.false_eq_true, if_false]
          exact fun _ _ => trivial

/-- A deletion meets the contract. -/
theorem tracks_deleteContent {settings : Settings} {horizon : Nat} {caller : Caller}
    {target : Target} (tracked : Tracked site state) :
    Tracks site conditions none (deleteContent settings horizon caller target) (fun _ _ => True)
      state := by
  rw [deleteContent]
  refine tracks_perform honest tracked (fun _ heq => by cases heq)
    fun _ reply after _ _ _ hafter _ => ?_
  cases reply with
  | error error => exact fun _ _ => trivial
  | ok role =>
    have hload : (loadTarget target).Meets (site.tracing conditions)
        ((tracking site).withFailing fun _ _ => True) none
        (fun item later => item.asCreated ∈ later.1.created) after := by
      refine tracks_perform honest hafter (fun _ heq => by cases heq)
        fun later reply last hlater _ answer hlast hgrows => ?_
      cases reply with
      | error error => exact fun _ _ => trivial
      | ok item =>
        obtain ⟨hitem, -⟩ := Site.Answer.getContent answer.1.1
        have created := hgrows.created (hlater.reachable.sound.1.items _ item hitem).2
        simp only [Program.ofExcept, done_bind]
        split
        · exact fun final rely _ => (rely hlast).2.created created
        · exact fun _ _ => trivial
    refine Meets.unlessNotFound hload (fun item middle moves hitem => ?_) ?_ fun _ _ _ _ => trivial
    · obtain ⟨hmiddle, -⟩ := tracked_of_moves moves hafter
      have created := hitem middle ((tracking site).rely_refl middle)
      dsimp only
      split
      · exact fun _ _ => trivial
      · refine Meets.andThen (tracks_cascade honest hmiddle created) fun _ last moves _ => ?_
        split
        · refine tracks_perform honest (tracked_of_moves moves hmiddle).1
            (fun _ heq => by cases heq) fun _ _ _ _ _ _ _ _ _ _ _ => trivial
        · exact fun _ _ _ => trivial
    · exact fun _ _ _ _ _ _ => trivial

theorem tracks_operation (op : Operation) (tracked : Tracked site state) (settings : Settings)
    (horizon : Nat) :
    Tracks site conditions none (op.program settings horizon) (fun _ _ => True) state := by
  cases hdeletion : op.isDeletion with
  | false => exact op.meets_tracking honest hdeletion tracked settings horizon
  | true =>
    cases op with
    | deleteContent caller target => exact tracks_deleteContent honest tracked
    | _ => cases hdeletion

end

/-- Operations run side by side, among them deletions. What is left of the records on an item that
has been removed was written after a page of records had come by its place; so was what is left of
the comments under a post that has been removed. -/
theorem orphans_late {start after : Forum} {journal : Journal} {invocations : List Invocation}
    {pool : Thread.Pool} {removal : Event Forum} {root : ContentItem} (honest : conditions.Honest)
    (reachable : start.Reachable site)
    (run : Thread.Pool.Steps ((site.responses conditions).within (DistinctIds site)).journaled
      (Invocation.pool invocations) (start, []) pool (after, journal))
    (happened : removal ∈ journal) (removed : removal.removed? = some root) :
    (∀ key record, after.store.record? key = some record → key.content = root.id →
      journal.LateRecord key record) ∧
    (root.kind = .post → ∀ key item, after.store.item? key = some item →
      key.scope = root.id.asScope → journal.LateItem key.scope item) := by
  have tracked : Tracked site (start, []) := ⟨reachable, fun _ h => by cases h⟩
  have meets : ∀ thread ∈ Invocation.pool invocations, thread.2.Meets (site.tracing conditions)
      (tracking site) none (fun _ _ => True) (start, []) := by
    intro thread hthread
    obtain ⟨invocation, -, rfl⟩ := List.mem_map.1 hthread
    exact .running (tracks_operation honest invocation.operation tracked _ _)
  have steps := reachable.steps_within (fun _ => id) run
  obtain ⟨hrely, -⟩ := steps.meets id meets
  have cleared := (hrely tracked).1.cleared removal happened root removed
  refine ⟨fun key record hrecord hkey => (cleared.records key hkey).late record hrecord,
    fun hkind key item hitem hscope => ?_⟩
  rw [hscope]
  exact (cleared.items hkind).late key item hscope hitem

end Forum

/-- Somebody other than the one who deletes an item votes for it or for a comment on it, saves or
reports one of these, or comments on the item. -/
def Operation.Attends (root : ContentItem) (deleter : Caller) : Operation → Prop
  | .vote caller target _ | .setSaved caller target _ | .report caller target _ =>
    caller.user ≠ deleter.user ∧
      (target.content = root.key ∨ target.content.scope = root.id.asScope)
  | .createComment caller hive id _ =>
    caller.user ≠ deleter.user ∧ hive = root.hive ∧ id = root.id
  | _ => False

namespace Sample

/-- Somebody else, who administers the site. -/
def administrator : Caller := ⟨⟨"administrator"⟩, true⟩

/-- The post as a target. -/
def postTarget : Target := ⟨post.hive, post.key⟩

/-- The record of the administrator, who has saved the post. -/
def marked : EngagementRecord :=
  { EngagementRecord.neutral administrator.user post.key post.hive with saved := true }

/-- The forum with the post and the mark. -/
def markedForum : Forum := ⟨forum.store.withRecord marked, [post]⟩

/-- The forum with the mark, and without the post. -/
def orphaned : Forum := ⟨markedForum.store.removeItem post.key, [post]⟩

/-- The removal of the post. -/
def removal : Event Forum := ⟨.store (.deleteContent post.key), markedForum, .ok (), orphaned⟩

/-- The administrator saves the post. -/
def marking : Invocation := ⟨{}, 0, .setSaved administrator postTarget true⟩

/-- The post has been saved. -/
def markingDone : (α : Type) × Thread α := ⟨EngagementRecord, .running (.done marked.written)⟩

theorem distinctIds_post (store : StoreState) : Forum.DistinctIds site ⟨store, [post]⟩ :=
  ⟨List.nodup_singleton _, List.forall_mem_singleton.2 rfl⟩

/-- The survey of the comments finds none, and goes on to the records. -/
theorem survey_step (unit : ContentItem → Program Unit) :
    Thread.Step ((site.responses .calm).within (Forum.DistinctIds site))
      (.running ((spawnChildren {} 2 post.id.asScope unit 2 none).bind fun _ =>
        spawnRecords {} post.id 2 none)) forum
      (.running (spawnRecords {} post.id 2 none)) forum := by
  let scan : Scan := .children post.id.asScope none
  have sorted : ContentItem.sort .created .ascending ([] ++ []) = [] :=
    List.mergeSort_of_pairwise .nil
  have index : forum.store.itemsAfter (scan.query {} none) = [] := sorted
  have listed : forum.store.queryContent site.limits (scan.query {} none) = .ok ⟨[], none⟩ := by
    rw [StoreState.queryContent, if_neg (by decide), index]
    rfl
  have performed : forum.store.perform site.limits (.queryContent (scan.query {} none)) =
      .ok (⟨[], none⟩, forum.store) := by
    simp only [StoreState.perform, listed, Except.map]
  have answer : ((site.responses .calm).within (Forum.DistinctIds site)).Answers
      (.store (.queryContent (scan.query {} none))) forum (.ok ⟨[], none⟩) forum :=
    ⟨.carriedOut performed, distinctIds_post _⟩
  obtain ⟨next, collecting, collected⟩ : ∃ next, unlessNotFound (collect {} 2 scan) =
      .perform (.store (.queryContent (scan.query {} none))) next ∧
      next (.ok ⟨[], none⟩) = .done (some (.ofHeld scan true [])) :=
    ⟨_, rfl, congrArg (fun held => Program.done (some (Collected.ofHeld scan true held))) sorted⟩
  have step (proceed : Option Collected → Program Unit) :
      Thread.Step ((site.responses .calm).within (Forum.DistinctIds site))
        (.running ((unlessNotFound (collect {} 2 scan)).bind proceed)) forum
        (.running (proceed (some (.ofHeld scan true [])))) forum := by
    have performed : Thread.Step _
        (.running ((Program.perform _ next).bind proceed)) forum
        (.running ((next (.ok ⟨[], none⟩)).bind proceed)) forum := .perform answer
    rwa [collected, ← collecting] at performed
  rw [spawnChildren]
  exact (Program.bind_assoc _ _ _).symm ▸ step _

/-- The post is saved when its deletion has listed the records on it, and before it removes the
post. -/
theorem marking_steps : ∃ journal : Journal,
    Thread.Pool.Steps ((site.responses .calm).within (Forum.DistinctIds site)).journaled
      (Invocation.pool [⟨{}, 2, .deleteContent caller postTarget⟩, marking]) (forum, [])
      [⟨Unit, .running (.done ())⟩, markingDone] (orphaned, journal ++ [removal]) := by
  let responses := (site.responses .calm).within (Forum.DistinctIds site)
  have posted := distinctIds_post
  have found : forum.store.perform site.limits (.getContent post.key) = .ok (post, forum.store) :=
    rfl
  have survey : ∃ next : Except StoreError Unit → Program Unit,
      Thread.Steps responses (.running (deleteContent {} 2 caller postTarget)) forum
        (.running (.perform (.store (.deleteContent post.key)) next)) forum ∧
      next (.ok ()) = .done () := by
    have asked : (site.responses .calm).Answers (.membership caller post.hive) forum
        (.ok .owner) forum := .role caller post.hive forum
    have children := survey_step fun child => do
      let _ ← cascade {} 2 1 child.key child.kind
    have records : forum.store.perform site.limits
        (.queryEngagement ⟨post.id, Limit.batchWrite, none⟩) = .ok (⟨[], none⟩, forum.store) := rfl
    exact ⟨_, .perform ⟨asked, posted _⟩ <| .perform ⟨.carriedOut found, posted _⟩ <|
      .head .gather <| .head (.spawner children) <|
        .head (.spawner (.perform ⟨.carriedOut records, posted _⟩)) <| .head (.join rfl) .none, rfl⟩
  have mark : Thread.Steps responses (.running (setSaved {} administrator postTarget true)) forum
      (.running (.done marked.written)) markedForum := by
    have asked : (site.responses .calm).Answers (.membership administrator post.hive) forum
        (.ok .owner) forum := .role administrator post.hive forum
    have missing : forum.store.perform site.limits (.getEngagement administrator.user post.id) =
        .error .recordNotFound := rfl
    have put : forum.store.perform site.limits (.putEngagement marked) =
        .ok (marked.written, markedForum.store) := rfl
    exact .perform ⟨asked, posted _⟩ <| .perform ⟨.carriedOut found, posted _⟩ <|
      .perform ⟨.failed missing, posted _⟩ <| .perform ⟨.carriedOut put, posted _⟩ .none
  obtain ⟨next, survey, hnext⟩ := survey
  have before := (Thread.Pool.Steps.of_thread survey [] [⟨_, _⟩]).trans
    (.of_thread mark [⟨_, _⟩] [])
  obtain ⟨journal, before⟩ := before.exists_journal []
  have gone : markedForum.store.perform site.limits (.deleteContent post.key) =
      .ok ((), orphaned.store) := rfl
  have remove : Thread.Step responses.journaled
      (.running (.perform (.store (.deleteContent post.key)) next)) (markedForum, journal)
      (.running (next (.ok ()))) (orphaned, journal ++ [removal]) :=
    .perform ⟨⟨.carriedOut gone, posted _⟩, rfl⟩
  rw [hnext] at remove
  exact ⟨journal, before.more (@Thread.Pool.Step.thread _ _ _ _ _ [] _ _ _ remove)⟩

/-- The mark that is left on the removed post was written after a page of records had come by its
place. -/
theorem marking_late : ∃ journal : Journal,
    Conditions.calm.Honest ∧ forum.Reachable site ∧
    Thread.Pool.Steps ((site.responses .calm).within (Forum.DistinctIds site)).journaled
      (Invocation.pool [⟨{}, 2, .deleteContent caller postTarget⟩, marking]) (forum, [])
      [⟨Unit, .running (.done ())⟩, markingDone] (orphaned, journal ++ [removal]) ∧
    removal ∈ journal ++ [removal] ∧ removal.removed? = some post ∧
    (∀ key record, orphaned.store.record? key = some record → key.content = post.id →
      (journal ++ [removal] : Journal).LateRecord key record) ∧
    (post.kind = .post → ∀ key item, orphaned.store.item? key = some item →
      key.scope = post.id.asScope → (journal ++ [removal] : Journal).LateItem key.scope item) := by
  obtain ⟨journal, run⟩ := marking_steps
  have happened : removal ∈ journal ++ [removal] := List.mem_append_right _ List.mem_cons_self
  exact ⟨journal, Conditions.honest_calm, forum_reachable, run, happened, rfl,
    Forum.orphans_late Conditions.honest_calm forum_reachable run happened rfl⟩

/-- Something may be left on an item that is deleted while others write: the post may be saved when
the records on it have been listed. -/
theorem deletion_leaves_orphan : ¬∀ (site : Site) (start after : Forum) (root : ContentItem)
    (deletion : Invocation) (deleter : Caller) (others : List Invocation) (pool : Thread.Pool),
    start.Reachable site → start.store.item? root.key = some root →
    deletion.operation = .deleteContent deleter ⟨root.hive, root.key⟩ →
    (∀ invocation ∈ others, invocation.operation.Attends root deleter) →
    Thread.Pool.Steps ((site.responses .calm).within (Forum.DistinctIds site))
      (Invocation.pool (deletion :: others)) start (⟨Unit, .running (.done ())⟩ :: pool) after →
    (∀ thread ∈ pool, thread.2.result?.isSome = true) →
    ∀ key item, start.store.item? key = some item → after.store.item? key = none →
      (∀ key', key'.content = item.id → after.store.record? key' = none) ∧
      (item.kind = .post → ∀ key', key'.scope = item.id.asScope →
        after.store.item? key' = none) := by
  intro h
  obtain ⟨journal, run⟩ := marking_steps
  let responses := (site.responses .calm).within (Forum.DistinctIds site)
  have shows : ∀ {effect : Effect} {state after : Forum × Journal} {reply : effect.Reply},
      responses.journaled.Answers effect state reply after →
        responses.Answers effect state.1 reply after.1 := And.left
  have attends : ∀ invocation ∈ [marking], invocation.operation.Attends post caller :=
    List.forall_mem_singleton.2 ⟨by decide, .inl rfl⟩
  have ended : ∀ thread ∈ [markingDone], thread.2.result?.isSome = true :=
    List.forall_mem_singleton.2 rfl
  have nothing := (h site forum orphaned post _ caller [marking] [markingDone] forum_reachable rfl
    rfl attends (run.map shows) ended post.key post rfl rfl).1 marked.key rfl
  cases nothing

end Sample

end HiveForum
