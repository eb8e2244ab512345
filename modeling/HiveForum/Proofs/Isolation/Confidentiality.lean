import HiveForum.Proofs.Forum.Bounds
import HiveForum.Proofs.Isolation.Alignment
import HiveForum.Proofs.Isolation.Integrity
import HiveForum.Proofs.Isolation.Likeness

/-!
# Operations show nothing of other hives

Two hosts that differ in other hives only cannot be told apart by an operation: whether a target, a
post, a scope or an identifier of a batch names something of another hive or nothing at all, the
operation takes the same course, and leaves the hosts the same but for other hives.

In the view that both hosts have in common an identifier belongs to the hive unless one of them has
given it out for another hive.

## Main definitions

* `Host.SameIn`: two hosts that differ in other hives only.
* `Host.Alike`: two hosts that look the same in the view of a hive.
* `Forum.commonView`: the view of a hive that two forums have in common.

## Main results

* `Host.aligned`: hosts that look the same go on looking the same.
* `Host.conceals_other_hives`: an operation has the same outcome on hosts that differ in other hives
  only, and sends the same notifications.
-/

namespace HiveForum

namespace Host

/-! ### Hosts that look the same -/

/-- The identifier that is drawn next. -/
def nextId (host : Host) : ContentId := ⟨host.ids.draw.1⟩

/-- The view tells of whatever the host stores whether it is of the hive. -/
structure Overseen (view : View) (host : Host) : Prop where
  contents : view.Oversees host.store.state
  known : (host.directory.hives.get? view.hive).isSome → view.owns view.hive.asContent

/-- What a host replies is in accordance with the view, which goes on telling of whatever the host
stores. -/
theorem Overseen.perform {view : View} {host : Host} (overseen : host.Overseen view)
    (drawn : ∀ id, view.draws id → view.owns id) (session : Session) {effect : Effect}
    (admitted : view.Admits effect) :
    view.Vouches effect (host.perform session effect).1 ∧
      (host.perform session effect).2.Overseen view := by
  obtain ⟨created, answer⟩ := @perform_answers ⟨host.store.limits, host.directory⟩ session effect
    host _ _ [] rfl rfl rfl
  have hcontents : view.Oversees (host.perform session effect).2.store.state := by
    refine overseen.contents.maintained answer (fun item heffect _ => ?_)
      fun request record heffect h => ?_
    · subst heffect
      obtain ⟨hhive, hscope, hid⟩ := admitted
      exact ⟨iff_of_true (drawn _ hid) hhive, iff_of_true hscope hhive⟩
    · subst heffect
      have owned := admitted.ownsRecord h
      exact iff_of_true owned.content owned.hive
  obtain ⟨hdirectory, -, -⟩ := perform_keeps session host effect
  exact ⟨overseen.contents.vouches overseen.known answer admitted, hcontents,
    hdirectory ▸ overseen.known⟩

/-- The hosts look the same in the view of a hive: they are the same but for what they store, and of
the hive they store the same. If `draws` is set, the identifier that is drawn next belongs to no
other hive. -/
structure Alike (view : View) (draws : Bool) (first second : Host) : Prop where
  rest : second = first.withContents second.store.state
  same : first.store.state.SameFor view second.store.state
  left : first.Overseen view
  right : second.Overseen view
  fresh : draws = true → view.draws first.nextId

namespace Alike

variable {view : View} {draws : Bool} {first second : Host} {session : Session}

/-- Hosts that look the same reply in the same way to an effect that concerns the hive only, but for
what belongs to other hives, and look the same afterwards. -/
theorem perform (alike : first.Alike view draws second)
    (drawn : ∀ id, view.draws id → view.owns id) {effect : Effect}
    (admitted : view.Admits effect) :
    effect.veil view.hive (first.perform session effect).1 =
        effect.veil view.hive (second.perform session effect).1 ∧
      (first.perform session effect).2.Alike view draws (second.perform session effect).2 := by
  have hleft := (alike.left.perform drawn session admitted).2
  have hright := (alike.right.perform drawn session admitted).2
  have hids : (first.perform session effect).2.nextId = first.nextId := by
    obtain ⟨-, -, hids⟩ := perform_keeps session first effect
    rw [nextId, hids fun heq => by subst heq; exact admitted, nextId]
  have hfresh : draws = true → view.draws (first.perform session effect).2.nextId :=
    hids ▸ alike.fresh
  obtain ⟨contents, rfl⟩ : ∃ contents, second = first.withContents contents := ⟨_, alike.rest⟩
  have hsame : first.store.state.SameFor view contents := alike.same
  by_cases hcall : ∃ request, effect = .store request
  · obtain ⟨request, rfl⟩ := hcall
    obtain ⟨time, ⟨error, h⟩ | h⟩ := callStore_withContents session first request
    all_goals
      have hfirst : first.perform session (.store request) = _ := h first.store.state
      have hsecond : (first.withContents contents).perform session (.store request) = _ :=
        h contents
      rw [hfirst] at hleft hfresh ⊢
      rw [hsecond] at hright ⊢
    · exact ⟨rfl, rfl, hsame, hleft, hright, hfresh⟩
    · exact And.imp_right (fun hafter => ⟨rfl, hafter, hleft, hright, hfresh⟩)
        (hsame.reply alike.left.contents alike.right.contents drawn admitted)
  · have hsecond := perform_withContents session first contents effect
      fun request heq => hcall ⟨request, heq⟩
    have hstore : (first.perform session effect).2.store.state = first.store.state :=
      congrArg (·.2.store.state) (perform_withContents session first first.store.state effect
        fun request heq => hcall ⟨request, heq⟩)
    rw [hsecond] at hright ⊢
    exact ⟨rfl, rfl, hstore ▸ hsame, hleft, hright, hfresh⟩

end Alike

/-- Hosts that look the same go on looking the same as long as effects concern the hive only. -/
theorem aligned {view : View} (drawn : ∀ id, view.draws id → view.owns id) (session : Session) :
    (world session).Aligned view (Alike view) where
  reply alike admitted := (alike.perform drawn admitted).1
  vouches alike admitted := ⟨(alike.left.perform drawn session admitted).1,
    (alike.right.perform drawn session admitted).1⟩
  after alike admitted := (alike.perform drawn admitted).2
  draw {first second} alike := by
    obtain ⟨contents, rfl⟩ : ∃ contents, second = first.withContents contents := ⟨_, alike.rest⟩
    exact ⟨rfl, alike.fresh rfl, rfl, alike.same, ⟨alike.left.contents, alike.left.known⟩,
      ⟨alike.right.contents, alike.right.known⟩, fun h => by cases h⟩
  drawn alike := ⟨alike.rest, alike.same, alike.left, alike.right, fun h => by cases h⟩
  time alike := (congrArg Host.time alike.rest).symm
  setTime {_ first second} time alike := by
    obtain ⟨contents, rfl⟩ : ∃ contents, second = first.withContents contents := ⟨_, alike.rest⟩
    exact ⟨rfl, alike.same, ⟨alike.left.contents, alike.left.known⟩,
      ⟨alike.right.contents, alike.right.known⟩, alike.fresh⟩

end Host

/-! ### What two forums have in common -/

namespace Forum

/-- The identifier has not been given out, and is not that of a hive. -/
structure Fresh (site : Site) (forum : Forum) (id : ContentId) : Prop where
  unused : ∀ item ∈ forum.created, item.id ≠ id
  notHive : site.directory.hives.get? id.asScope = none

variable {site : Site} {first second forum : Forum} {hive : ScopeId}

theorem home?_of_fresh {id : ContentId} (fresh : forum.Fresh site id) :
    forum.home? site id = none := by
  have hfind : forum.created.find? (·.id = id) = none :=
    List.find?_eq_none.2 fun item hitem => by simpa using fresh.unused item hitem
  rw [home?, hfind, fresh.notHive]
  rfl

/-- The view of a hive that two forums have in common: an identifier belongs to the hive unless it
belongs to another one in either forum. -/
def commonView (first second : Forum) (site : Site) (hive : ScopeId) : View where
  hive := hive
  owns id := ∀ other,
    first.home? site id = some other ∨ second.home? site id = some other → other = hive
  draws id := first.home? site id = none ∧ second.home? site id = none

theorem owns_of_draws_commonView {id : ContentId}
    (h : (first.commonView second site hive).draws id) :
    (first.commonView second site hive).owns id := by
  rintro other (hfirst | hsecond)
  · cases h.1.symm.trans hfirst
  · cases h.2.symm.trans hsecond

theorem commonView_comm :
    first.commonView second site hive = second.commonView first site hive := by
  simp only [commonView, or_comm, and_comm]

/-- The common view tells of whatever is stored in a forum whether it is of the hive. -/
theorem Reachable.oversees_commonView (reachable : first.Reachable site)
    (reachable' : second.Reachable site)
    (agrees : first.store.AgreesWhere (· = hive) second.store) :
    (first.commonView second site hive).Oversees first.store := by
  have overseen := reachable.overseen reachable.sound.2 (List.Subset.refl _)
  have overseen' := reachable'.overseen reachable'.sound.2 (List.Subset.refl _)
  -- what belongs to one hive only in the one forum, and to it as well in the other one
  have owns_iff : ∀ {id : ContentId} {home : ScopeId}, first.home? site id = some home →
      (home = hive → second.home? site id = some home) →
        ((first.commonView second site hive).owns id ↔ home = hive) := by
    intro id home hfirst hsecond
    refine ⟨fun owned => owned home (.inl hfirst), ?_⟩
    rintro rfl other (h | h)
    · exact Option.some.inj (h.symm.trans hfirst)
    · exact Option.some.inj (h.symm.trans (hsecond rfl))
  refine ⟨fun key item hitem => ?_, fun key record hrecord => ?_⟩
  · obtain ⟨hkey, tells⟩ := (overseen item.hive).items key item hitem
    have htells : item.hive = hive → (second.view site item.hive).TellsItem item := fun hhive =>
      ((overseen' item.hive).items key item ((agrees.items key item hhive).1 hitem)).2
    exact ⟨hkey, owns_iff (tells.id.2 rfl) fun hhive => (htells hhive).id.2 rfl,
      owns_iff (tells.scope.2 rfl) fun hhive => (htells hhive).scope.2 rfl⟩
  · obtain ⟨hkey, tells⟩ := (overseen record.hive).records key record hrecord
    exact ⟨hkey, owns_iff (tells.2 rfl) fun hhive =>
      ((overseen' record.hive).records key record ((agrees.records key record hhive).1 hrecord)).2.2
        rfl⟩

theorem commonView_owns_hive (distinct : first.DistinctIds site)
    (distinct' : second.DistinctIds site) (known : (site.directory.hives.get? hive).isSome) :
    (first.commonView second site hive).owns hive.asContent := by
  rintro other (h | h)
  · exact Option.some.inj (h.symm.trans (home?_hive distinct known))
  · exact Option.some.inj (h.symm.trans (home?_hive distinct' known))

end Forum

namespace Host

/-- The hosts have the same items and records of the hive, and are the same but for what they
store. -/
structure SameIn (hive : ScopeId) (first second : Host) : Prop where
  rest : second = first.withContents second.store.state
  contents : first.store.state.AgreesWhere (· = hive) second.store.state

theorem SameIn.sent_eq {hive : ScopeId} {first second : Host} (same : first.SameIn hive second) :
    first.sent = second.sent := by
  rw [same.rest]
  rfl

theorem Alike.sameIn {view : View} {draws : Bool} {first second : Host}
    (alike : first.Alike view draws second) : first.SameIn view.hive second :=
  ⟨alike.rest,
    (StoreState.sameFor_iff alike.left.contents alike.right.contents).1 alike.same⟩

theorem Alike.run {view : View} {first second : Host} (alike : first.Alike view true second)
    (drawn : ∀ id, view.draws id → view.owns id) {α : Type} {program : Program α}
    (confined : ∃ draws, program.Confined view draws fun _ => True) (session : Session) :
    (program.run (world session) first).1 = (program.run (world session) second).1 ∧
      (program.run (world session) first).2.SameIn view.hive
        (program.run (world session) second).2 := by
  obtain ⟨draws, confined⟩ := confined
  obtain ⟨houtcome, hafter⟩ := confined.run_alike (aligned drawn session) alike
  exact ⟨houtcome, hafter.sameIn⟩

theorem SameIn.alike {site : Site} {first second : Host} {created created' : List ContentItem}
    {hive : ScopeId} (same : first.SameIn hive second)
    (directory : site.directory = first.directory)
    (reachable : Forum.Reachable site ⟨first.store.state, created⟩)
    (reachable' : Forum.Reachable site ⟨second.store.state, created'⟩)
    (fresh : Forum.Fresh site ⟨first.store.state, created⟩ first.nextId)
    (fresh' : Forum.Fresh site ⟨second.store.state, created'⟩ first.nextId) :
    first.Alike (Forum.commonView ⟨first.store.state, created⟩ ⟨second.store.state, created'⟩ site
      hive) true second := by
  have known := @Forum.commonView_owns_hive site _ _ hive reachable.sound.2 reachable'.sound.2
  have left := reachable.oversees_commonView reachable' same.contents
  have right := reachable'.oversees_commonView reachable same.contents.symm
  rw [Forum.commonView_comm] at right
  have directory' : site.directory = second.directory := by rw [same.rest]; exact directory
  exact ⟨same.rest, (StoreState.sameFor_iff left right).2 same.contents,
    ⟨left, directory ▸ known⟩, ⟨right, directory' ▸ known⟩,
    fun _ => ⟨Forum.home?_of_fresh fresh, Forum.home?_of_fresh fresh'⟩⟩

/-- An operation that is addressed to a hive comes to an end on two hosts that differ in other hives
only, has the same outcome, sends the same notifications, and leaves the hosts the same but for
other hives; even if it is given what belongs to another hive on the one host and to nothing on the
other. -/
theorem conceals_other_hives {site : Site} {first second : Host}
    {created created' : List ContentItem} {hive : ScopeId} {op : Operation}
    (same : first.SameIn hive second) (directory : site.directory = first.directory)
    (reachable : Forum.Reachable site ⟨first.store.state, created⟩)
    (reachable' : Forum.Reachable site ⟨second.store.state, created'⟩)
    (fresh : Forum.Fresh site ⟨first.store.state, created⟩ first.nextId)
    (fresh' : Forum.Fresh site ⟨second.store.state, created'⟩ first.nextId)
    (addressed : ∀ other, op.hive? = some other → other = hive) (session : Session) :
    (first.execute session op).1 ≠ .error .unfinished ∧
      (first.execute session op).1 = (second.execute session op).1 ∧
        (first.execute session op).2.sent = (second.execute session op).2.sent ∧
          (first.execute session op).2.SameIn hive (second.execute session op).2 := by
  let view : View :=
    Forum.commonView ⟨first.store.state, created⟩ ⟨second.store.state, created'⟩ site hive
  let horizon := max (first.horizon session) (second.horizon session)
  -- the bounds of the hosts may differ, but a greater one makes no difference
  have hfirst : (op.program first.settings horizon).run (world session) first =
      first.execute session op :=
    run_eq_execute reachable session op (Nat.le_max_left _ _)
  have hsecond : (op.program first.settings horizon).run (world session) second =
      second.execute session op := by
    have settings : first.settings = second.settings := by rw [same.rest]; rfl
    rw [settings]
    exact run_eq_execute reachable' session op (Nat.le_max_right _ _)
  have alike : first.Alike view true second :=
    same.alike directory reachable reachable' fresh fresh'
  obtain ⟨houtcome, hafter⟩ := alike.run (fun _ => Forum.owns_of_draws_commonView)
    (@Operation.confined view op addressed first.settings horizon) session
  rw [hfirst, hsecond] at houtcome hafter
  exact ⟨execute_ne_unfinished reachable session op, houtcome, hafter.sent_eq, hafter⟩

end Host

namespace Sample

/-- A host of the two hives. -/
def twinHost (contents : StoreState) : Host where
  store := { state := contents }
  directory := twinSite.directory
  stamps := ⟨0, 0⟩

/-- The hosts with and without the post of the other hive differ in that hive only. -/
theorem twinHost_sameIn : (twinHost twinForum.store).SameIn post.hive (twinHost forum.store) where
  rest := rfl
  contents := by
    refine ⟨fun key item hhive => ?_, fun _ _ _ => Iff.rfl⟩
    change (forum.store.putItem otherPost.key otherPost).item? key = some item ↔ _
    rw [StoreState.item?_putItem]
    split
    · rename_i hkey
      subst hkey
      have hnone : forum.store.item? otherPost.key = none := by decide
      refine iff_of_false (fun h => ?_) fun h => by cases hnone.symm.trans h
      have hother : otherPost.hive = post.hive := Option.some.inj h ▸ hhive
      exact absurd hother (by decide)
    · rfl

/-- A member of the first hive who asks there for the post of the other hive learns that there is no
such post, whether there is one or not. -/
theorem otherPost_concealed :
    let op := Operation.getContent caller ⟨post.hive, otherPost.key⟩
    ((twinHost twinForum.store).execute {} op).1 = .error (.failed .notFound) ∧
      ((twinHost twinForum.store).execute {} op).1 ≠ .error .unfinished ∧
        ((twinHost twinForum.store).execute {} op).1 = ((twinHost forum.store).execute {} op).1 ∧
          ((twinHost twinForum.store).execute {} op).2.sent =
              ((twinHost forum.store).execute {} op).2.sent ∧
            ((twinHost twinForum.store).execute {} op).2.SameIn post.hive
              ((twinHost forum.store).execute {} op).2 := by
  have fresh : Forum.Fresh twinSite twinForum (twinHost twinForum.store).nextId :=
    ⟨by decide, by decide⟩
  have fresh' : Forum.Fresh twinSite forum (twinHost twinForum.store).nextId :=
    ⟨by decide, by decide⟩
  have addressed : ∀ other,
      (Operation.getContent caller ⟨post.hive, otherPost.key⟩).hive? = some other →
        other = post.hive := fun _ h => (Option.some.inj h).symm
  exact ⟨rfl, Host.conceals_other_hives twinHost_sameIn rfl twinForum_reachable
    forum_reachable_twinSite fresh fresh' addressed {}⟩

end Sample

end HiveForum
