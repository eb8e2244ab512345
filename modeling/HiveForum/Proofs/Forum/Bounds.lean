import HiveForum.Proofs.Browse.Filling
import HiveForum.Proofs.Deletion.Removal
import HiveForum.Proofs.Forum.Hosts
import HiveForum.Proofs.Forum.Plain
import HiveForum.Proofs.Program.Bound

/-!
# The bound of an operation

Listings and deletions walk over the store within a bound that the host sets. A greater bound makes
no difference to a run that comes to an end, and the bound that a host sets is always enough: it
exceeds the number of items and records, and each page of a walk takes at least one of them. So what
an operation does on a host does not depend on the bound at all.

## Main results

* `Operation.truncates`: an operation with a smaller bound is cut off in more places.
* `Host.execute_ne_unfinished`: an operation that a host executes comes to an end.
* `Host.run_eq_execute`: with any greater bound an operation does what the host executes.
-/

namespace HiveForum

open Program

/-! ### Greater bounds -/

namespace Program

variable {settings : Settings} {pages pages' : Nat}

theorem truncates_collectFrom (scan : Scan) (h : pages ≤ pages') (startAfter : Option IndexKey)
    (held : List ContentItem) : (collectFrom settings scan pages startAfter held).Truncates
      (collectFrom settings scan pages' startAfter held) := by
  induction pages generalizing pages' startAfter held with
  | zero => exact .cut _
  | succ pages ih =>
    obtain ⟨more, rfl⟩ := Nat.exists_eq_add_of_le' (Nat.le_trans (Nat.le_add_left 1 pages) h)
    rw [collectFrom, collectFrom]
    refine (Truncates.refl _).bind fun page => ?_
    dsimp only
    split
    · exact .refl _
    · split
      · exact ih (Nat.le_of_succ_le_succ h) _ _
      · exact .refl _

theorem truncates_collect (scan : Scan) (h : pages ≤ pages') :
    (collect settings pages scan).Truncates (collect settings pages' scan) :=
  truncates_collectFrom scan h _ _

theorem truncates_listContent {caller : Caller} {hive : ScopeId} {request : ListRequest}
    (h : pages ≤ pages') : (listContent settings pages caller hive request).Truncates
      (listContent settings pages' caller hive request) := by
  have hitems : (listItems settings pages request).Truncates
      (listItems settings pages' request) := by
    rw [listItems, listItems]
    refine (Truncates.refl _).bind fun _ => (Truncates.refl _).bind fun _ => ?_
    exact (truncates_collect _ h).bind fun _ => .refl _
  rw [listContent, listContent]
  refine (Truncates.refl _).bind fun _ => ?_
  dsimp only
  split
  · refine (Truncates.refl _).bind fun post => ?_
    split
    · exact .refl _
    · exact hitems
  · exact hitems

theorem Truncates.unlessNotFound {α : Type} {p q : Program α} (h : p.Truncates q) :
    (unlessNotFound p).Truncates (unlessNotFound q) :=
  h.attempt.bind fun _ => .refl _

theorem truncates_spawnRecords (content : ContentId) (h : pages ≤ pages')
    (startAfter : Option UserId) : (spawnRecords settings content pages startAfter).Truncates
      (spawnRecords settings content pages' startAfter) := by
  induction pages generalizing pages' startAfter with
  | zero => exact .cut _
  | succ pages ih =>
    obtain ⟨more, rfl⟩ := Nat.exists_eq_add_of_le' (Nat.le_trans (Nat.le_add_left 1 pages) h)
    rw [spawnRecords, spawnRecords]
    refine (Truncates.refl _).bind fun page => ?_
    cases page with
    | none => exact .refl _
    | some page =>
      dsimp only
      cases page.lastEvaluated with
      | none => exact .refl _
      | some user =>
        have hrest := ih (Nat.le_of_succ_le_succ h) (some user)
        split
        · exact .spawn (.refl _) hrest
        · exact hrest

theorem truncates_spawnChildren {rounds rounds' : Nat} (scope : ScopeId)
    {unit unit' : ContentItem → Program Unit} (hrounds : rounds ≤ rounds')
    (hunit : ∀ item, (unit item).Truncates (unit' item)) (h : pages ≤ pages')
    (startAfter : Option IndexKey) :
    (spawnChildren settings rounds scope unit pages startAfter).Truncates
      (spawnChildren settings rounds' scope unit' pages' startAfter) := by
  induction pages generalizing pages' startAfter with
  | zero => exact .cut _
  | succ pages ih =>
    obtain ⟨more, rfl⟩ := Nat.exists_eq_add_of_le' (Nat.le_trans (Nat.le_add_left 1 pages) h)
    rw [spawnChildren, spawnChildren]
    refine (truncates_collect _ hrounds).unlessNotFound.bind fun collected => ?_
    cases collected with
    | none => exact .refl _
    | some collected =>
      refine (truncates_forkAll collected.items hunit).bind fun _ => ?_
      cases collected.next with
      | none => exact .refl _
      | some position => exact ih (Nat.le_of_succ_le_succ h) _

theorem truncates_cascade {depth depth' : Nat} (h : pages ≤ pages') (hdepth : depth ≤ depth')
    (key : ContentKey) (kind : ContentKind) :
    (cascade settings pages depth key kind).Truncates
      (cascade settings pages' depth' key kind) := by
  induction depth generalizing depth' key kind with
  | zero => exact .cut _
  | succ depth ih =>
    obtain ⟨more, rfl⟩ := Nat.exists_eq_add_of_le' (Nat.le_trans (Nat.le_add_left 1 depth) hdepth)
    rw [cascade, cascade]
    refine .gather ?_ fun gathered => .refl _
    have hrecords : (spawnRecords settings key.id pages none).Truncates
        (spawnRecords settings key.id pages' none) := truncates_spawnRecords key.id h none
    dsimp only
    split
    · refine (truncates_spawnChildren _ h (fun child => ?_) h none).bind fun _ => hrecords
      exact (ih (Nat.le_of_succ_le_succ hdepth) child.key child.kind).bind fun _ => .refl _
    · exact hrecords

theorem truncates_deleteContent {caller : Caller} {target : Target} (h : pages ≤ pages') :
    (deleteContent settings pages caller target).Truncates
      (deleteContent settings pages' caller target) := by
  rw [deleteContent, deleteContent]
  refine (Truncates.refl _).bind fun role => (Truncates.refl _).bind fun item => ?_
  cases item with
  | none => exact .refl _
  | some item =>
    dsimp only
    split
    · exact .refl _
    · exact (truncates_cascade h h _ _).bind fun _ => .refl _

end Program

/-- An operation with a smaller bound is cut off in more places. -/
theorem Operation.truncates (op : Operation) (settings : Settings) {horizon horizon' : Nat}
    (h : horizon ≤ horizon') :
    (op.program settings horizon).Truncates (op.program settings horizon') := by
  cases op with
  | deleteContent caller target => exact truncates_deleteContent h
  | listContent caller hive request => exact truncates_listContent h
  | _ => exact .refl _

/-! ### The bound of a host -/

namespace Forum

variable {site : Site} {conditions : Conditions} {forum : Forum} {settings : Settings}
  {caller : Caller} {hive : ScopeId} {target : Target}

/-- A program that runs alone, changes nothing and comes to an end. -/
abbrev resting : Contract Forum := still.withFailing fun _ _ => True

theorem eq_of_moves {later : Forum} (moves : resting.Moves forum later) : later = forum := by
  induction moves with
  | refl => rfl
  | tail _ change ih => exact (change.elim id id).trans ih

theorem rests_perform {α : Type} {effect : Effect} {next : effect.Reply → Program α}
    (quiet : effect.isQuiet = true)
    (follows : ∀ reply, site.Answer conditions effect forum reply forum →
      (next reply).Meets (site.responses conditions) resting none (fun _ _ => True) forum) :
    (Program.perform effect next).Meets (site.responses conditions) resting none
      (fun _ _ => True) forum := by
  intro later reply after hlater answer
  obtain rfl : forum = later := Eq.symm hlater
  obtain rfl : forum = after := (Site.Answer.eq_of_isQuiet answer quiet).symm
  exact ⟨rfl, follows reply answer⟩

theorem rests_bind {α β : Type} {p : Program α} {f : α → Program β}
    (h : p.Meets (site.responses conditions) resting none (fun _ _ => True) forum)
    (hf : ∀ value, (f value).Meets (site.responses conditions) resting none (fun _ _ => True)
      forum) :
    (p.bind f).Meets (site.responses conditions) resting none (fun _ _ => True) forum :=
  Meets.andThen h fun value _ moves _ => eq_of_moves moves ▸ hf value

theorem rests_ofExcept {ε α : Type} {describe : ε → OperationError} {result : Except ε α} :
    (ofExcept describe result).Meets (site.responses conditions) resting none (fun _ _ => True)
      forum := by
  cases result with
  | ok value => exact fun _ _ _ => trivial
  | error error => exact fun _ _ => trivial

/-- A scan ends if there are more rounds than positions ahead. -/
theorem rests_collectFrom (filed : forum.store.Filed) {scan : Scan} (rounds : Nat)
    {reached : Option IndexKey} {held : List ContentItem} {ahead : List IndexKey}
    (hahead : scan.course.Ahead (· = forum) reached ahead) (enough : ahead.length < rounds) :
    (collectFrom settings scan rounds reached held).Meets (site.responses conditions) resting none
      (fun _ _ => True) forum := by
  induction rounds generalizing reached held ahead with
  | zero => omega
  | succ rounds ih =>
    rw [collectFrom]
    refine rests_perform rfl fun reply answer => ?_
    cases reply with
    | error error => exact fun _ _ => trivial
    | ok page =>
      simp only [Program.ofExcept, done_bind]
      cases hlast : page.lastEvaluated with
      | none => exact fun _ _ _ => trivial
      | some position =>
        obtain ⟨⟨last, hmem, hposition⟩, -⟩ :=
          StoreState.lastEvaluated_of_queryContent filed answer.queryContent.1 hlast
        obtain ⟨hscope, hpast⟩ := StoreState.mem_itemsAfter_iff.1 hmem
        subst hposition
        obtain ⟨ahead', hless, hahead'⟩ := hahead.next (hahead forum rfl last hscope hpast) hpast
        dsimp only
        split
        · exact ih hahead' (by omega)
        · exact fun _ _ _ => trivial

/-- A listing ends if there are more rounds than items. -/
theorem rests_listContent (filed : forum.store.Filed) {request : ListRequest} {rounds : Nat}
    (enough : forum.store.items.length < rounds) :
    (listContent settings rounds caller hive request).Meets (site.responses conditions) resting none
      (fun _ _ => True) forum := by
  have hcollect : ∀ scan : Scan, (collect settings rounds scan).Meets (site.responses conditions)
      resting none (fun _ _ => True) forum := by
    intro scan
    have hahead : scan.course.Ahead (· = forum) scan.startAfter
        ((forum.store.scopeItems scan.scope).map scan.course.position) := by
      rintro _ rfl item hitem -
      exact List.mem_map_of_mem hitem
    refine rests_collectFrom filed rounds hahead ?_
    rw [List.length_map]
    exact Nat.lt_of_le_of_lt (forum.store.length_scopeItems_le scan.scope) enough
  have hitems : (listItems settings rounds request).Meets (site.responses conditions) resting none
      (fun _ _ => True) forum := by
    rw [listItems]
    refine rests_bind rests_ofExcept fun _ => rests_bind rests_ofExcept fun start => ?_
    exact rests_bind (hcollect _) fun _ _ _ _ => trivial
  rw [listContent]
  refine rests_perform rfl fun role _ => ?_
  cases role with
  | error error => exact fun _ _ => trivial
  | ok role =>
    dsimp only [Program.ofExcept, done_bind]
    split
    · refine rests_perform rfl fun post _ => ?_
      cases post with
      | error error => exact fun _ _ => trivial
      | ok post =>
        dsimp only [Program.ofExcept, done_bind]
        split
        · exact fun _ _ => trivial
        · exact hitems
    · exact hitems

/-- A deletion of what is not in the hive ends. -/
theorem rests_deleteContent {horizon : Nat}
    (absent : ∀ item, forum.store.item? target.content = some item → item.hive ≠ target.hive) :
    (deleteContent settings horizon caller target).Meets (site.responses conditions) resting none
      (fun _ _ => True) forum := by
  have hload : (loadTarget target).Meets (site.responses conditions)
      (still.withFailing fun _ _ => True) none (fun _ _ => False) forum := by
    intro later reply after hlater answer
    obtain rfl : forum = later := Eq.symm hlater
    obtain rfl : forum = after := (Site.Answer.eq_of_isQuiet answer rfl).symm
    refine ⟨rfl, ?_⟩
    cases reply with
    | error error => exact fun _ _ => trivial
    | ok item =>
      have hother := absent item (Site.Answer.getContent answer).1
      simp only [Program.ofExcept, done_bind, hother, if_false]
      exact fun _ _ => trivial
  rw [deleteContent]
  refine rests_perform rfl fun role _ => ?_
  cases role with
  | error error => exact fun _ _ => trivial
  | ok role =>
    refine Meets.unlessNotFound hload (fun _ middle _ h => (h middle rfl).elim)
      (fun _ _ _ _ _ _ => trivial) fun _ _ _ _ => trivial

end Forum

namespace Host

variable {site : Site} {host : Host} {created : List ContentItem}

theorem run_listContent_ne_unfinished
    (reachable : Forum.Reachable site ⟨host.store.state, created⟩) (session : Session)
    (caller : Caller) (hive : ScopeId) (request : ListRequest) :
    ((listContent host.settings (host.horizon session) caller hive request).run (world session)
      host).1 ≠
      .error .unfinished := by
  let here : Site := ⟨host.store.limits, host.directory⟩
  have enough : host.store.state.items.length < host.horizon session := by
    rw [horizon]
    omega
  have meets : (listContent host.settings (host.horizon session) caller hive request).Meets
      (here.responses .unsteady) Forum.resting none _ ⟨host.store.state, created⟩ :=
    Forum.rests_listContent reachable.sound.1.isKeyed.items enough
  exact meets.run_ne_unfinished (heeds here session) ⟨rfl, rfl, rfl⟩ id

/-- The bound of a host is enough for a deletion. -/
theorem run_deleteContent_ne_unfinished
    (reachable : Forum.Reachable site ⟨host.store.state, created⟩) (session : Session)
    (caller : Caller) (target : Target) :
    ((deleteContent host.settings (host.horizon session) caller target).run (world session)
      host).1 ≠ .error .unfinished := by
  let here : Site := ⟨host.store.limits, host.directory⟩
  have stands : Stands here host ⟨host.store.state, created⟩ := ⟨rfl, rfl, rfl⟩
  by_cases found : ∃ root, host.store.state.item? target.content = some root ∧
    root.hive = target.hive
  · obtain ⟨root, stored, owned⟩ := found
    obtain ⟨sound, distinct⟩ := reachable.sound
    have located : target.content = root.key := (sound.items _ root stored).1.symm
    have heeds : (world session).Heeds (here.serving .unsteady False) (Stands here) := by
      refine ⟨fun effect host forum stands => ?_, (heeds here session).setTime⟩
      obtain ⟨after, answer, hafter⟩ := (heeds here session).perform effect stands
      exact ⟨after, ⟨answer, False.elim⟩, hafter⟩
    have meets := @Forum.meets_deleteContent here .unsteady False False
      ⟨host.store.state, created⟩ root Conditions.honest_unsteady (sound.tiered distinct)
      (located ▸ stored) host.settings (host.horizon session) caller target located owned
      (.inr (Nat.le_add_right _ _))
    exact meets.run_ne_unfinished heeds stands id
  · have meets : (deleteContent host.settings (host.horizon session) caller target).Meets
        (here.responses .unsteady) Forum.resting none _ ⟨host.store.state, created⟩ :=
      Forum.rests_deleteContent fun item hitem hhive => found ⟨item, hitem, hhive⟩
    exact meets.run_ne_unfinished (heeds here session) stands id

/-- An operation that a host executes comes to an end. -/
theorem execute_ne_unfinished (reachable : Forum.Reachable site ⟨host.store.state, created⟩)
    (session : Session) (op : Operation) :
    (host.execute session op).1 ≠ .error .unfinished := by
  cases hwalks : op.walks with
  | false => exact (Operation.plain hwalks _ _).run_ne_unfinished _ _
  | true =>
    cases op with
    | deleteContent caller target =>
      exact run_deleteContent_ne_unfinished reachable session caller target
    | listContent caller hive request =>
      exact run_listContent_ne_unfinished reachable session caller hive request
    | _ => cases hwalks

/-- With any greater bound an operation does what its host executes. -/
theorem run_eq_execute (reachable : Forum.Reachable site ⟨host.store.state, created⟩)
    (session : Session) (op : Operation) {horizon : Nat} (enough : host.horizon session ≤ horizon) :
    (op.program host.settings horizon).run (world session) host = host.execute session op :=
  ((op.truncates host.settings enough).run_eq (execute_ne_unfinished reachable session op)).symm

end Host

end HiveForum
