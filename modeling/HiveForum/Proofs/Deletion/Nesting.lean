import HiveForum.Proofs.Deletion.Enumeration
import HiveForum.Proofs.Forum.Bounds

/-!
# Posts within posts

The operations of the forum put comments under posts and nothing under comments. A store that was
filled in other ways may hold posts below posts, and a deletion goes down through all of them. It
comes to an end as long as no post lies below itself: fewer and fewer posts lie below those that it
comes to, and meanwhile the store only loses items and records.

## Main definitions

* `StoreState.Nests`: a post lies in the scope of an item.
* `StoreState.Grounded`: no post lies below itself.
* `StoreState.height`: how many posts lie below an item.
* `StoreState.PartOf`: a store has nothing that another one does not have.
* `Forum.waning`, `Forum.finishing`: the contracts of programs that always end, and that only remove
  or do whatever they like.

## Main results

* `StoreState.height_lt`: fewer posts lie below a post than below the item that it lies under.
* `StoreState.Tiered.grounded`: the items of a forum are grounded.
* `Forum.wanes_cascade`: a cascade ends.
* `Host.execute_ne_unfinished_of_grounded`: an operation on a grounded store comes to an end.
-/

namespace HiveForum

open Program Relation

namespace StoreState

/-! ### Posts below items -/

/-- A post lies in the scope of an item. -/
def Nests (store : StoreState) (inner outer : ContentId) : Prop :=
  ∃ post ∈ store.scopeItems outer.asScope, post.kind = .post ∧ post.id = inner

/-- Everything is stored under its own key, and no post lies below itself. -/
structure Grounded (store : StoreState) : Prop where
  keyed : store.Keyed
  acyclic : ∀ id, ¬TransGen store.Nests id id

variable {store later middle : StoreState}

theorem mem_items_of_mem_scopeItems {scope : ScopeId} {item : ContentItem}
    (h : item ∈ store.scopeItems scope) : item ∈ store.items := by
  rw [scopeItems] at h
  split at h
  · cases h
  · rename_i items hscope
    refine List.mem_flatMap.2 ⟨items, ?_, h⟩
    exact List.mem_map.2 ⟨_, Table.get?_eq_some_iff.1 hscope, rfl⟩

open Classical in
/-- The number of items with the identifiers of posts below an item. -/
noncomputable def height (store : StoreState) (id : ContentId) : Nat :=
  (store.items.filter fun item => TransGen store.Nests item.id id).length

theorem height_le (store : StoreState) (id : ContentId) : store.height id ≤ store.items.length :=
  List.length_filter_le _ _

/-- Fewer posts lie below a post than below the item that it lies under. -/
theorem height_lt (grounded : store.Grounded) {inner outer : ContentId}
    (h : store.Nests inner outer) : store.height inner < store.height outer := by
  classical
  let below (id : ContentId) (item : ContentItem) : Bool := decide (TransGen store.Nests item.id id)
  have hsub : store.items.filter (below inner) =
      (store.items.filter (below outer)).filter (below inner) := by
    rw [List.filter_filter]
    refine List.filter_congr fun item _ => ?_
    cases hinner : below inner item with
    | false => rfl
    | true => exact (decide_eq_true (.tail (of_decide_eq_true hinner) h)).symm
  have hlt : (store.items.filter (below inner)).length <
      (store.items.filter (below outer)).length := by
    rw [hsub, List.length_filter_lt_length_iff_exists]
    obtain ⟨post, hpost, -, rfl⟩ := id h
    refine ⟨post, List.mem_filter.2 ⟨mem_items_of_mem_scopeItems hpost, ?_⟩, ?_⟩
    · exact decide_eq_true (.single h)
    · exact fun hself => grounded.acyclic _ (of_decide_eq_true hself)
  exact hlt

/-- The items of a forum are grounded: nothing lies below what lies below a post. -/
theorem Tiered.grounded (h : store.Tiered) : store.Grounded := by
  have hflat : ∀ {inner middle outer}, store.Nests inner middle → ¬store.Nests middle outer := by
    rintro inner _ outer ⟨post, hpost, hkind, -⟩ ⟨above, habove, -, rfl⟩
    obtain ⟨habove, -⟩ := (Filed.mem_scopeItems_iff h.keyed.items).1 habove
    obtain ⟨hstored, hscope⟩ := (Filed.mem_scopeItems_iff h.keyed.items).1 hpost
    have hcomment := (h.below _ above _ post habove hstored hscope).2
    rw [hkind] at hcomment
    cases hcomment
  refine ⟨h.keyed, fun id hcycle => ?_⟩
  obtain ⟨outer, habove, hrest⟩ := TransGen.head'_iff.1 hcycle
  obtain rfl | ⟨next, hnext, -⟩ := ReflTransGen.cases_head hrest
  · exact hflat habove habove
  · exact hflat habove hnext

/-! ### Parts of a store -/

/-- The store has no item and no record that the other one does not have. -/
structure PartOf (later store : StoreState) : Prop where
  items : ∀ key item, later.item? key = some item → store.item? key = some item
  records : ∀ key record, later.record? key = some record → store.record? key = some record

namespace PartOf

theorem refl (store : StoreState) : store.PartOf store := ⟨fun _ _ => id, fun _ _ => id⟩

theorem trans (h : later.PartOf middle) (h' : middle.PartOf store) : later.PartOf store :=
  ⟨fun key item hitem => h'.items key item (h.items key item hitem),
    fun key record hrecord => h'.records key record (h.records key record hrecord)⟩

theorem keyed (h : later.PartOf store) (keyed : store.Keyed) : later.Keyed :=
  ⟨fun key item hitem => keyed.items key item (h.items key item hitem),
    fun key record hrecord => keyed.records key record (h.records key record hrecord)⟩

theorem removeItem (store : StoreState) (key : ContentKey) :
    (store.removeItem key).PartOf store := by
  refine ⟨fun key' item hitem => ?_, fun key' record hrecord => ?_⟩
  · rw [item?_removeItem] at hitem
    split at hitem
    · cases hitem
    · exact hitem
  · rwa [record?_removeItem] at hrecord

theorem removeRecords (store : StoreState) (keys : List EngagementKey) :
    (store.removeRecords keys).PartOf store := by
  refine ⟨fun _ _ => id, fun key record hrecord => ?_⟩
  rw [record?_removeRecords] at hrecord
  split at hrecord
  · cases hrecord
  · exact hrecord

theorem childrenAfter_subset (h : later.PartOf store) (scope : ScopeId)
    (startAfter : Option IndexKey) :
    later.childrenAfter scope startAfter ⊆ store.childrenAfter scope startAfter := by
  intro item hitem
  obtain ⟨hscope, hpast⟩ := List.mem_filter.1 hitem
  obtain ⟨id, hstored⟩ := mem_scopeItems_iff.1 hscope
  exact List.mem_filter.2 ⟨mem_scopeItems_iff.2 ⟨id, h.items _ item hstored⟩, hpast⟩

theorem recordsAfter_subset (h : later.PartOf store) (keyed : store.Keyed) (content : ContentId)
    (startAfter : Option UserId) :
    later.recordsAfter content startAfter ⊆ store.recordsAfter content startAfter := by
  intro record hrecord
  obtain ⟨hstored, hpast⟩ := (mem_recordsAfter_iff (h.keyed keyed)).1 hrecord
  exact (mem_recordsAfter_iff keyed).2 ⟨h.records _ record hstored, hpast⟩

end PartOf

end StoreState

theorem Collected.exists_of_next {scan : Scan} {exhausted : Bool} {held : List ContentItem}
    {position : IndexKey} (h : (ofHeld scan exhausted held).next = some position) :
    ∃ item ∈ (ofHeld scan exhausted held).items, item.indexKey scan.sort = position := by
  obtain hnone | hlast := next_eq_or scan exhausted held
  · cases hnone.symm.trans h
  · obtain ⟨item, hitem, hposition⟩ := Option.map_eq_some_iff.1 (hlast.symm.trans h)
    exact ⟨item, List.mem_of_getLast? hitem, hposition⟩

/-- An effect only reads from the store, or removes from it. -/
def Effect.isRemoval : Effect → Bool
  | .store (.deleteContent _) | .store (.deleteEngagements _) => true
  | effect => effect.isQuiet

namespace Forum

/-- A program that only removes while others only remove, and always ends. -/
def waning : Contract Forum where
  rely forum later := later.store.PartOf forum.store
  guarantee forum later := later.store.PartOf forum.store
  failing _ _ := True
  endless := False
  rely_refl forum := .refl forum.store
  rely_trans h h' := h'.trans h

theorem waning_opens : waning.Opens waning := ⟨id, id, id, id⟩

/-- A program that runs alone, does whatever it likes, and always ends. -/
def finishing : Contract Forum where
  rely forum later := later = forum
  guarantee _ _ := True
  failing _ _ := True
  endless := False
  rely_refl _ := rfl
  rely_trans h h' := h'.trans h

theorem finishing_opens : finishing.Opens waning where
  rely h := h ▸ .refl _
  fellow := id
  whole _ := trivial
  endless := id

section

variable {site : Site} {conditions : Conditions} {forum : Forum} {store : StoreState}
  {settings : Settings} {pledge : Pledge Forum} {α : Type}

/-- A program only removes, and ends. -/
abbrev Wanes (site : Site) (conditions : Conditions) (pledge : Pledge Forum) (p : Program α)
    (forum : Forum) (claim : α → Forum → Prop := fun _ _ => True) : Prop :=
  p.Meets (site.responses conditions) waning pledge claim forum

theorem partOf_of_moves {later : Forum} (moves : waning.Moves forum later) :
    later.store.PartOf forum.store := by
  induction moves with
  | refl => exact .refl _
  | tail _ change ih => exact (change.elim id id : StoreState.PartOf _ _).trans ih

theorem partOf_of_answer {effect : Effect} {reply : effect.Reply} {after : Forum}
    (removal : effect.isRemoval = true)
    (answer : (site.responses conditions).Answers effect forum reply after) :
    after.store.PartOf forum.store := by
  obtain rfl | ⟨request, later, rfl, change, rfl⟩ := Site.Answer.change answer
  · exact .refl _
  · rw [after_store]
    cases change with
    | remove => exact .removeItem _ _
    | erase => exact .removeRecords _ _
    | read => exact .refl _
    | edit edits => cases edits <;> cases removal
    | _ => cases removal

theorem wanes_perform {effect : Effect} {next : effect.Reply → Program α}
    {claim : α → Forum → Prop} (removal : effect.isRemoval = true)
    (follows : ∀ {later after : Forum} (reply : effect.Reply), later.store.PartOf forum.store →
      after.store.PartOf later.store →
      (site.responses conditions).Answers effect later reply after →
        Wanes site conditions pledge (next reply) after claim) :
    Wanes site conditions pledge (.perform effect next) forum claim := by
  intro later reply after hlater answer
  have hafter := partOf_of_answer removal answer
  exact ⟨hafter, follows reply hlater hafter answer⟩

/-! ### Batches of records -/

/-- A batch ends after a number of attempts. -/
theorem wanes_deleteBatchFrom (bounds : BackoffSettings) (left : Nat)
    (pending : List EngagementKey) :
    Wanes site conditions none (deleteBatchFrom bounds left pending) forum := by
  induction left generalizing forum pending with
  | zero =>
    rw [deleteBatchFrom]
    refine wanes_perform rfl fun reply _ _ _ => ?_
    simp only [done_bind]
    split
    · exact fun _ _ _ => trivial
    · cases remainingKeys pending reply <;> exact fun _ _ => trivial
  | succ left ih =>
    rw [deleteBatchFrom]
    refine wanes_perform rfl fun reply _ _ _ => ?_
    simp only [done_bind]
    split
    · exact fun _ _ _ => trivial
    · cases remainingKeys pending reply with
      | error error => exact fun _ _ => trivial
      | ok rest =>
        refine wanes_perform rfl fun word _ _ _ => wanes_perform rfl fun paused _ _ _ => ?_
        cases paused with
        | error error => exact fun _ _ => trivial
        | ok _ => exact ih rest

variable (keyed : store.Keyed) (part : forum.store.PartOf store)

include keyed part

/-! ### Walks -/

/-- An enumeration of records ends if there are more pages than records ahead. -/
theorem wanes_spawnRecords {content : ContentId} (pages : Nat) {startAfter : Option UserId}
    {pledged : Forum → Prop} (enough : (store.recordsAfter content startAfter).length < pages) :
    Wanes site conditions (some pledged) (spawnRecords settings content pages startAfter)
      forum := by
  induction pages generalizing forum startAfter pledged with
  | zero => exact absurd enough (Nat.not_lt_zero _)
  | succ pages ih =>
    rw [spawnRecords]
    have hpage : Wanes site conditions none
        (call (.queryEngagement ⟨content, Limit.batchWrite, startAfter⟩)) forum
        fun page _ => ∀ user, page.lastEvaluated = some user →
          ∃ record ∈ store.recordsAfter content startAfter, record.user = user := by
      refine wanes_perform rfl fun {later _} reply hlater _ answer => ?_
      cases reply with
      | error error => exact fun _ _ => trivial
      | ok page =>
        obtain ⟨hpage, -⟩ := Site.Answer.queryEngagement answer
        intro _ _ _ user huser
        obtain ⟨-, -, hlast⟩ := StoreState.queryEngagement_eq_ok hpage
        rw [hlast] at huser
        split at huser
        · cases huser
        · obtain ⟨record, hrecord, rfl⟩ := Option.map_eq_some_iff.1 huser
          have hmem := List.mem_of_mem_take (List.mem_of_getLast? hrecord)
          exact ⟨record, (hlater.trans part).recordsAfter_subset keyed _ _ hmem, rfl⟩
    refine Meets.unlessNotFound hpage (fun page middle moves hlast => ?_)
      (fun _ _ _ _ _ _ => trivial) fun _ _ _ _ => trivial
    have hmiddle := (partOf_of_moves moves).trans part
    dsimp only
    cases huser : page.lastEvaluated with
    | none =>
      split
      · exact ⟨pledged, fun _ => True, rfl, wanes_deleteBatchFrom _ _ _, fun _ _ _ => trivial⟩
      · exact fun _ _ _ => trivial
    | some user =>
      obtain ⟨record, hrecord, rfl⟩ := hlast middle (.refl _) user huser
      have hlt := StoreState.length_recordsAfter_lt keyed hrecord
      have hrest : ∀ made : Forum → Prop, Wanes site conditions (some made)
          (spawnRecords settings content pages (some record.user)) middle :=
        fun _ => ih hmiddle (by omega)
      split
      · exact ⟨pledged, fun _ => True, rfl, wanes_deleteBatchFrom _ _ _, hrest _⟩
      · exact hrest pledged

/-- A page of items is collected if there are more rounds than items ahead. What is on it lies after
its start, and so does the position from which to go on. -/
theorem wanes_collectFrom {scope : ScopeId} {startAfter reached : Option IndexKey}
    {held : List ContentItem} (rounds : Nat)
    (items : held ⊆ store.childrenAfter scope startAfter)
    (beyond : store.childrenAfter scope reached ⊆ store.childrenAfter scope startAfter)
    (enough : (store.childrenAfter scope reached).length < rounds) :
    Wanes site conditions none
      (collectFrom settings (.children scope startAfter) rounds reached held) forum
      fun collected _ => collected.items ⊆ store.childrenAfter scope startAfter ∧
        ∀ position, collected.next = some position →
          ∃ item ∈ collected.items, item.indexKey .created = position := by
  induction rounds generalizing forum reached held with
  | zero => exact absurd enough (Nat.not_lt_zero _)
  | succ rounds ih =>
    rw [collectFrom]
    refine wanes_perform rfl fun {later after} reply hlater hafter answer => ?_
    cases reply with
    | error error => exact fun _ _ => trivial
    | ok page =>
      obtain ⟨hpage, -⟩ := Site.Answer.queryContent answer
      have hwhole := hlater.trans part
      have filed := (hwhole.keyed keyed).items
      let held' := ContentItem.sort .created .ascending (held ++ page.items)
      have hheld : held' ⊆ store.childrenAfter scope startAfter := by
        refine List.Subset.trans (ContentItem.sort_perm _ _ _).subset
          (List.append_subset.2 ⟨items, fun item hitem => beyond ?_⟩)
        have hahead := StoreState.mem_scope_of_queryContent hpage hitem
        exact hwhole.childrenAfter_subset _ _
          (StoreState.mem_itemsAfter_children.1 (StoreState.mem_itemsAfter_iff.2 hahead))
      have hcut : ∀ exhausted,
          (Collected.ofHeld (.children scope startAfter) exhausted held').items ⊆
            store.childrenAfter scope startAfter :=
        fun _ item hitem => hheld (List.mem_of_mem_take hitem)
      simp only [Program.ofExcept, done_bind]
      cases hlast : page.lastEvaluated with
      | none => exact fun _ _ _ => ⟨hcut true, fun _ => Collected.exists_of_next⟩
      | some position =>
        obtain ⟨⟨last, hmem, rfl⟩, -⟩ := StoreState.lastEvaluated_of_queryContent filed hpage hlast
        have hahead := hwhole.childrenAfter_subset _ _ (StoreState.mem_itemsAfter_children.1 hmem)
        have hlt := StoreState.length_childrenAfter_lt keyed hahead
        dsimp only
        split
        · exact ih (hafter.trans hwhole) hheld
            (List.Subset.trans (StoreState.childrenAfter_subset hahead) beyond)
            (Nat.lt_of_lt_of_le hlt (Nat.le_of_lt_succ enough))
        · exact fun _ _ _ => ⟨hcut false, fun _ => Collected.exists_of_next⟩

/-- An enumeration of items ends if there are more rounds and pages than items in the scope, and if
the units that it spawns end. -/
theorem wanes_spawnChildren {rounds : Nat} {scope : ScopeId} {unit : ContentItem → Program Unit}
    (hunit : ∀ {later : Forum}, later.store.PartOf store →
      ∀ item ∈ store.scopeItems scope, Wanes site conditions none (unit item) later)
    (enough : (store.childrenAfter scope none).length < rounds) (pages : Nat)
    {startAfter : Option IndexKey} {pledged : Forum → Prop}
    (bound : (store.childrenAfter scope startAfter).length < pages) :
    Wanes site conditions (some pledged)
      (spawnChildren settings rounds scope unit pages startAfter) forum := by
  induction pages generalizing forum startAfter pledged with
  | zero => exact absurd bound (Nat.not_lt_zero _)
  | succ pages ih =>
    rw [spawnChildren]
    have hcollect := @wanes_collectFrom site conditions forum store settings keyed part scope
      startAfter startAfter [] rounds (List.nil_subset _) (List.Subset.refl _)
      (Nat.lt_of_le_of_lt (store.length_childrenAfter_le scope startAfter) enough)
    refine Meets.unlessNotFound hcollect (fun collected middle moves hcollected => ?_)
      (fun _ _ _ _ _ _ => trivial) fun _ _ _ _ => trivial
    have hmiddle := (partOf_of_moves moves).trans part
    obtain ⟨hitems, hnext⟩ := hcollected middle (.refl _)
    have hunits : ∀ item ∈ collected.items, Wanes site conditions none (unit item) middle :=
      fun item hitem => hunit hmiddle item (List.mem_filter.1 (hitems hitem)).1
    refine Meets.forkAll hunits fun made _ => ?_
    cases hposition : collected.next with
    | none => exact fun _ _ _ => trivial
    | some position =>
      obtain ⟨item, hitem, rfl⟩ := hnext position hposition
      have hlt := StoreState.length_childrenAfter_lt keyed (hitems hitem)
      exact ih hmiddle (by omega)

end

/-! ### The cascade -/

section

variable {site : Site} {conditions : Conditions} {forum : Forum} {store : StoreState}
  {settings : Settings} {pages : Nat} (grounded : store.Grounded)
  (items : store.items.length < pages) (records : store.records.length < pages)

include grounded items records

/-- A cascade ends if it may go down through more levels than posts lie below its item. -/
theorem wanes_cascade {contract : Contract Forum} (opens : contract.Opens waning)
    (fails : ∀ error later, contract.failing error later) (depth : Nat) {key : ContentKey}
    {kind : ContentKind} (part : forum.store.PartOf store) (level : 0 < depth)
    (deep : kind = .post → store.height key.id + 1 < depth) :
    (cascade settings pages depth key kind).Meets (site.responses conditions) contract none
      (fun _ _ => True) forum := by
  induction depth generalizing contract forum key kind with
  | zero => exact absurd level (Nat.lt_irrefl 0)
  | succ depth ih =>
    rw [cascade]
    refine ⟨waning, fun _ => True, opens, ?_, fun gathered later hlater _ => ?_⟩
    · have hchildren : (store.childrenAfter key.id.asScope none).length < pages :=
        Nat.lt_of_le_of_lt (store.length_childrenAfter_le_size _ _) items
      have hrecords : ∀ {middle : Forum} {pledged : Forum → Prop}, middle.store.PartOf store →
          Wanes site conditions (some pledged) (spawnRecords settings key.id pages none) middle :=
        fun hmiddle => wanes_spawnRecords grounded.keyed hmiddle pages
          (Nat.lt_of_le_of_lt (store.length_recordsAfter_le_size _ _) records)
      dsimp only
      split
      · rename_i hpost
        have hdeep := deep hpost
        refine Meets.bind (wanes_spawnChildren grounded.keyed part ?_ hchildren pages hchildren)
          fun _ made middle moves hmade _ _ => ?_
        · intro later hlater child hchild
          refine Meets.andThen (ih waning_opens (fun _ _ => trivial) hlater (by omega)
            fun hkind => ?_) fun _ _ _ _ _ _ _ => trivial
          have hlt : store.height child.key.id < store.height key.id :=
            StoreState.height_lt grounded ⟨child, hchild, hkind, rfl⟩
          omega
        · obtain ⟨pledged, rfl⟩ := Option.isSome_iff_exists.1 hmade
          exact hrecords ((partOf_of_moves moves).trans part)
      · exact hrecords part
    · simp only [done_bind]
      cases gathered.spawner with
      | error error => exact fun last _ => fails error last
      | ok _ =>
        cases gathered.units with
        | error error => exact fun last _ => fails error last
        | ok _ =>
          intro second reply after _ answer
          refine ⟨opens.guarantee (partOf_of_answer rfl answer), ?_⟩
          cases reply with
          | ok _ => exact fun _ _ _ => trivial
          | error error =>
            simp only [done_bind]
            split
            · exact fun _ _ _ => trivial
            · exact fun last _ => fails _ last

/-! ### The operation -/

omit grounded items records in
/-- The target is loaded, and nothing has changed by then. -/
theorem finishing_loadTarget (target : Target) :
    (loadTarget target).Meets (site.responses conditions) finishing none
      (fun _ later => later = forum) forum := by
  intro later reply after hlater answer
  obtain rfl : forum = later := Eq.symm hlater
  obtain rfl : forum = after := (Site.Answer.eq_of_isQuiet answer rfl).symm
  refine ⟨trivial, ?_⟩
  cases reply with
  | error error => exact fun _ _ => trivial
  | ok item =>
    simp only [Program.ofExcept, done_bind]
    split
    · exact fun _ hlast _ => hlast
    · exact fun _ _ => trivial

/-- A deletion ends. -/
theorem finishing_deleteContent (levels : store.items.length + 1 < pages)
    (same : forum.store = store) (caller : Caller) (target : Target) :
    (deleteContent settings pages caller target).Meets (site.responses conditions) finishing none
      (fun _ _ => True) forum := by
  subst same
  rw [deleteContent]
  intro later reply after hlater answer
  obtain rfl : forum = later := Eq.symm hlater
  obtain rfl : forum = after := (Site.Answer.eq_of_isQuiet answer rfl).symm
  refine ⟨trivial, ?_⟩
  cases reply with
  | error error => exact fun _ _ => trivial
  | ok role =>
    refine Meets.unlessNotFound (finishing_loadTarget target) (fun item middle _ hmiddle => ?_)
      (fun _ _ _ _ _ _ => trivial) fun _ _ _ _ => trivial
    obtain rfl := hmiddle middle rfl
    dsimp only
    split
    · exact fun _ _ => trivial
    · have hheight := middle.store.height_le item.key.id
      refine Meets.andThen (wanes_cascade grounded items records finishing_opens
        (fun _ _ => trivial) pages (.refl _) (by omega) fun _ => by omega) fun deleted _ _ _ => ?_
      split
      · exact fun _ _ _ _ _ => ⟨trivial, fun _ _ _ => trivial⟩
      · exact fun _ _ _ => trivial

end

end Forum

namespace Host

/-- An operation that a host executes comes to an end if no post in its store lies below itself. -/
theorem execute_ne_unfinished_of_grounded {host : Host} (grounded : host.store.state.Grounded)
    (session : Session) (op : Operation) : (host.execute session op).1 ≠ .error .unfinished := by
  let site : Site := ⟨host.store.limits, host.directory⟩
  let forum : Forum := ⟨host.store.state, []⟩
  have stands : Stands site host forum := ⟨rfl, rfl, rfl⟩
  cases hwalks : op.walks with
  | false => exact (Operation.plain hwalks _ _).run_ne_unfinished _ _
  | true =>
    cases op with
    | deleteContent caller target =>
      have meets : (deleteContent host.settings (host.horizon session) caller target).Meets
          (site.responses .unsteady) Forum.finishing none (fun _ _ => True) forum :=
        Forum.finishing_deleteContent grounded (by rw [horizon]; omega) (by rw [horizon]; omega)
          (by rw [horizon]; omega) rfl caller target
      exact meets.run_ne_unfinished (heeds site session) stands id
    | listContent caller hive request =>
      have filed : forum.store.Filed := grounded.keyed.items
      have enough : host.store.state.items.length < host.horizon session := by
        rw [horizon]
        omega
      have meets : (listContent host.settings (host.horizon session) caller hive request).Meets
          (site.responses .unsteady) Forum.resting none (fun _ _ => True) forum :=
        Forum.rests_listContent filed enough
      exact meets.run_ne_unfinished (heeds site session) stands id
    | _ => cases hwalks

end Host

end HiveForum
