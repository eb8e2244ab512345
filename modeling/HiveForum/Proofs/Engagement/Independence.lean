import HiveForum.Proofs.Engagement.Tallying
import HiveForum.Proofs.Forum.Failure

/-!
# Users do not get in each other's way

What an operation on an item gives depends on the record of the user and on whether the item has
been reviewed, and nobody writes the record of somebody else. So every user goes through the same as
if the others were not there. The counts of the item are those of the records, and so they do not
depend on the order among the users either.

## Main definitions

* `StoreState.AlikeFor`, `Host.AlikeFor`: two stores, or two hosts, are alike for a user who acts on
  an item.
* `Visit.SameOrders`: two schedules keep the order of each user.

## Main results

* `Host.AlikeFor.attend`: a user goes through the same as alone.
* `Host.order_among_users`: the order among the users does not matter.
-/

namespace HiveForum

open EngagementRecord

/-! ### What a user sees -/

/-- A user who acts on an item cannot tell two stores apart but by the time of the latest vote. -/
structure StoreState.AlikeFor (user : UserId) (target : Target) (store other : StoreState) :
    Prop where
  keyed : store.Keyed
  keyedOther : other.Keyed
  record : (store.record? ⟨user, target.content.id⟩).map unstamped =
    (other.record? ⟨user, target.content.id⟩).map unstamped
  item : (store.item? target.content).map (fun item => (item.asCreated, item.reviewed)) =
    (other.item? target.content).map fun item => (item.asCreated, item.reviewed)

namespace StoreState.AlikeFor

variable {user : UserId} {target : Target} {store other : StoreState}
  (alike : AlikeFor user target store other)

include alike

theorem recordFor :
    (store.recordFor user target).unstamped = (other.recordFor user target).unstamped := by
  have hrecord := alike.record
  have hgetD : ∀ record? : Option EngagementRecord,
      (record?.getD (.neutral user target.content target.hive)).unstamped =
        (record?.map unstamped).getD (.neutral user target.content target.hive) := by
    intro record?
    cases record? <;> rfl
  rw [StoreState.recordFor, StoreState.recordFor, hgetD, hgetD, hrecord]

/-- The item is found in both stores or in neither. -/
theorem locate :
    (∃ error, store.locate target = .error error ∧ other.locate target = .error error) ∨
      ∃ item item', store.locate target = .ok item ∧ other.locate target = .ok item' ∧
        item.asCreated = item'.asCreated ∧ item.reviewed = item'.reviewed := by
  have hitem := alike.item
  rw [StoreState.locate, StoreState.locate]
  cases hfirst : store.item? target.content <;> cases hsecond : other.item? target.content <;>
    rw [hfirst, hsecond] at hitem
  · exact .inl ⟨_, rfl, rfl⟩
  · cases hitem
  · cases hitem
  · rename_i item item'
    obtain ⟨hcreated, hreviewed⟩ := Prod.mk.inj (Option.some.inj hitem)
    have hhive := (ContentItem.eq_of_asCreated hcreated).2
    dsimp only
    by_cases htarget : item.hive = target.hive
    · rw [if_pos htarget, if_pos (hhive ▸ htarget)]
      exact .inr ⟨item, item', rfl, rfl, hcreated, hreviewed⟩
    · rw [if_neg htarget, if_neg (hhive ▸ htarget)]
      exact .inl ⟨_, rfl, rfl⟩

theorem permit (handling : Handling) (directory : Directory) (caller : Caller) :
    (∃ error, handling.permit directory store caller target = .error error ∧
        handling.permit directory other caller target = .error error) ∨
      ∃ item item', handling.permit directory store caller target = .ok item ∧
        handling.permit directory other caller target = .ok item' ∧
          item.asCreated = item'.asCreated ∧ item.reviewed = item'.reviewed := by
  rw [Handling.permit, Handling.permit]
  cases handling.check with
  | error error => exact .inl ⟨error, rfl, rfl⟩
  | ok _ =>
    cases ((directory.checkMember caller target.hive).bind handling.require).mapError
        OperationError.ofAccess with
    | error error => exact .inl ⟨error, rfl, rfl⟩
    | ok role => exact alike.locate

omit alike in
theorem edited {item : ContentItem} {edit : ContentItem → ContentItem}
    (found : store.locate target = .ok item)
    (rest : (edit item).asCreated = item.asCreated ∧ (edit item).reviewed = item.reviewed)
    (changed : EngagementRecord) :
    (((store.withRecord changed).putItem target.content (edit item)).item? target.content).map
        (fun item => (item.asCreated, item.reviewed)) =
      (store.item? target.content).map fun item => (item.asCreated, item.reviewed) := by
  rw [item?_putItem, if_pos rfl, (locate_eq_ok_iff.1 found).1]
  exact congrArg some (Prod.ext rest.1 rest.2)

/-- Somebody else does something with the item. -/
theorem others (action : EngagementAction) (directory : Directory) (time : Int64)
    {caller : Caller} (hne : caller.user ≠ user) :
    AlikeFor user target
      ((Handling.engage action).settle directory store time caller target).contents other := by
  have keyed := alike.keyed.settle (.engage action) directory time caller target
  obtain ⟨error, stamped, hsettle⟩ | ⟨item, changed, edit, hitem, hchange, hsettle⟩ :=
    Handling.settle_cases action directory store time caller target
  · rw [hsettle]
    exact alike
  · rw [hsettle] at keyed ⊢
    have hkey := (EngagementAction.change_eq_ok hchange).1.trans alike.keyed.key_recordFor
    have hother : (⟨user, target.content.id⟩ : EngagementKey) ≠ changed.key :=
      fun heq => hne (congrArg EngagementKey.user (heq.trans hkey)).symm
    refine ⟨keyed, alike.keyedOther, ?_, ?_⟩
    · rw [record?_putItem, record?_withRecord, if_neg hother]
      exact alike.record
    · rw [edited hitem (EngagementAction.edit_rest hchange item)]
      exact alike.item

/-- The record of the user is written in both stores, and the item is edited. -/
theorem written {changed changed' : EngagementRecord} {item item' : ContentItem}
    {edit : ContentItem → ContentItem} (key : changed.key = ⟨user, target.content.id⟩)
    (same : changed.unstamped = changed'.unstamped) (found : store.locate target = .ok item)
    (found' : other.locate target = .ok item')
    (rest : ∀ item, (edit item).asCreated = item.asCreated ∧
      (edit item).reviewed = item.reviewed) :
    AlikeFor user target ((store.withRecord changed).putItem target.content (edit item))
      ((other.withRecord changed').putItem target.content (edit item')) := by
  have key' := (key_eq_of_plain (unstamped_eq_iff.1 same).1).symm.trans key
  have hkey := (ContentItem.eq_of_asCreated (rest item).1).1.trans (alike.keyed.key_of_locate found)
  have hkey' := (ContentItem.eq_of_asCreated (rest item').1).1.trans
    (alike.keyedOther.key_of_locate found')
  refine ⟨(alike.keyed.withRecord changed).putItem hkey,
    (alike.keyedOther.withRecord changed').putItem hkey', ?_, ?_⟩
  · rw [record?_putItem, record?_putItem, record?_withRecord, record?_withRecord, if_pos key.symm,
      if_pos key'.symm]
    exact congrArg some (unstamped_written same)
  · rw [edited found (rest item), edited found' (rest item')]
    exact alike.item

end StoreState.AlikeFor

/-- The user does the same with the item in both stores. -/
theorem StoreState.AlikeFor.own {caller : Caller} {target : Target} {store other : StoreState}
    (alike : AlikeFor caller.user target store other) (action : EngagementAction)
    (directory : Directory) (time time' : Int64) :
    ((Handling.engage action).settle directory store time caller target).result.map
          (Handled.map unstamped) =
        ((Handling.engage action).settle directory other time' caller target).result.map
          (Handled.map unstamped) ∧
      AlikeFor caller.user target
        ((Handling.engage action).settle directory store time caller target).contents
        ((Handling.engage action).settle directory other time' caller target).contents := by
  obtain ⟨error, hfirst, hsecond⟩ | ⟨item, item', hfirst, hsecond, hcreated, hreviewed⟩ :=
    alike.permit (.engage action) directory caller
  · rw [Handling.settle_of_error hfirst, Handling.settle_of_error hsecond]
    exact ⟨rfl, alike⟩
  obtain ⟨hplain, hversion⟩ := unstamped_eq_iff.1 alike.recordFor
  obtain ⟨error, hchange, hchange'⟩ | ⟨changed, changed', edit, hchange, hchange', hchanged⟩ :=
    action.change_alike hplain item.reviewed time time'
  · rw [hreviewed] at hchange'
    rw [Handling.settle_of_change_error hfirst hchange,
      Handling.settle_of_change_error hsecond hchange']
    exact ⟨rfl, alike⟩
  · obtain ⟨hkey, hversion₁⟩ := EngagementAction.change_eq_ok hchange
    obtain ⟨-, hversion₂⟩ := EngagementAction.change_eq_ok hchange'
    have hsame : changed.unstamped = changed'.unstamped :=
      unstamped_eq_iff.2 ⟨hchanged, by rw [hversion₁, hversion₂, hversion]⟩
    rw [hreviewed] at hchange'
    rw [Handling.settle_of_change_ok hfirst hchange,
      Handling.settle_of_change_ok hsecond hchange']
    refine ⟨congrArg (fun record => Except.ok (Handled.record record)) (unstamped_written hsame),
      alike.written (hkey.trans alike.keyed.key_recordFor) hsame
        (Handling.locate_of_permit hfirst) (Handling.locate_of_permit hsecond)
        (EngagementAction.edit_rest hchange)⟩

/-! ### Alone and among others -/

namespace Visit

/-- It is the user who comes. -/
def isOf (user : UserId) (visit : Visit) : Bool := decide (visit.caller.user = user)

/-- Two schedules have the same operations of each user in the same order. -/
def SameOrders (first second : List Visit) : Prop :=
  ∀ user, (first.filter (·.isOf user)).map deed = (second.filter (·.isOf user)).map deed

/-- What the operations of a user have given, but for the times of votes. -/
def outcomesOf (user : UserId) (log : List (Visit × Outcome Handled)) : List (Outcome Handled) :=
  (log.filter (·.1.isOf user)).map fun entry => entry.2.map (Handled.map unstamped)

variable {visit : Visit} {log : List (Visit × Outcome Handled)} {user : UserId}
  {outcome : Outcome Handled}

theorem outcomesOf_cons_of_isOf (h : visit.isOf user = true) :
    outcomesOf user ((visit, outcome) :: log) =
      outcome.map (Handled.map unstamped) :: outcomesOf user log := by
  simp [outcomesOf, h]

theorem outcomesOf_cons_of_not_isOf (h : visit.isOf user = false) :
    outcomesOf user ((visit, outcome) :: log) = outcomesOf user log := by
  simp [outcomesOf, h]

end Visit

namespace Host

/-- A user who acts on an item cannot tell two hosts apart but by the time of the latest vote. -/
structure AlikeFor (user : UserId) (target : Target) (host other : Host) : Prop where
  serving : host.Serving
  servingOther : other.Serving
  directory : host.directory = other.directory
  contents : StoreState.AlikeFor user target host.store.state other.store.state

variable {host other : Host} {user : UserId} {target : Target}

/-- Somebody else comes. -/
theorem AlikeFor.others (alike : AlikeFor user target host other) {visit : Visit}
    (engages : visit.Engages target) (notOwn : visit.isOf user = false) :
    AlikeFor user target (host.visit visit).2 other := by
  obtain ⟨htarget, action, haction⟩ := engages
  have leaves := (alike.serving.visit alike.contents.keyed visit).leaves
  refine ⟨leaves.serving, alike.servingOther, leaves.directory.trans alike.directory, ?_⟩
  rw [leaves.contents, Host.settle, htarget, haction]
  exact alike.contents.others action host.directory _ (of_decide_eq_false notOwn)

/-- The user comes to both hosts and does the same there. -/
theorem AlikeFor.own (alike : AlikeFor user target host other) {visit visit' : Visit}
    (engages : visit.Engages target) (own : visit.isOf user = true)
    (deed : visit.deed = visit'.deed) :
    (host.visit visit).1.map (Handled.map unstamped) =
        (other.visit visit').1.map (Handled.map unstamped) ∧
      AlikeFor user target (host.visit visit).2 (other.visit visit').2 := by
  obtain ⟨htarget, action, haction⟩ := engages
  obtain ⟨hcaller, hsame⟩ := Prod.mk.inj deed
  obtain ⟨htarget', haction'⟩ := Prod.mk.inj hsame
  obtain rfl : visit.caller.user = user := of_decide_eq_true own
  have settles := alike.serving.visit alike.contents.keyed visit
  have settles' := alike.servingOther.visit alike.contents.keyedOther visit'
  have hown := alike.contents.own action host.directory (host.atWall visit.wall).stamps.tick.1
    (other.atWall visit'.wall).stamps.tick.1
  have hsettle : other.settle visit' = (Handling.engage action).settle host.directory
      other.store.state (other.atWall visit'.wall).stamps.tick.1 visit.caller target := by
    rw [Host.settle, ← htarget', htarget, ← haction', haction, ← hcaller, ← alike.directory]
  rw [settles.outcome_map, settles'.outcome_map, hsettle, Host.settle, htarget, haction, hown.1]
  refine ⟨rfl, settles.leaves.serving, settles'.leaves.serving,
    settles.leaves.directory.trans (alike.directory.trans settles'.leaves.directory.symm), ?_⟩
  rw [settles.leaves.contents, settles'.leaves.contents, hsettle, Host.settle, htarget, haction]
  exact hown.2

/-- A user goes through the same as if the others were not there. -/
theorem AlikeFor.attend {visits alone : List Visit} (alike : AlikeFor user target host other)
    (engaged : ∀ visit ∈ visits, visit.Engages target)
    (deeds : (visits.filter (·.isOf user)).map Visit.deed = alone.map Visit.deed) :
    Visit.outcomesOf user (host.attend visits).1 =
        (other.attend alone).1.map (fun entry => entry.2.map (Handled.map unstamped)) ∧
      AlikeFor user target (host.attend visits).2 (other.attend alone).2 := by
  -- along the visits; one of somebody else makes no difference to the user
  induction visits generalizing host other alone with
  | nil =>
    obtain rfl : alone = [] := List.map_eq_nil_iff.1 deeds.symm
    exact ⟨rfl, alike⟩
  | cons visit visits ih =>
    obtain ⟨engages, engaged⟩ := List.forall_mem_cons.1 engaged
    rw [attend_cons]
    cases howner : visit.isOf user with
    | false =>
      rw [List.filter_cons_of_neg (ne_true_of_eq_false howner)] at deeds
      rw [Visit.outcomesOf_cons_of_not_isOf howner]
      exact ih (alike.others engages howner) engaged deeds
    | true =>
      rw [List.filter_cons_of_pos howner] at deeds
      cases alone with
      | nil => cases deeds
      | cons visit' alone =>
        obtain ⟨hdeed, deeds⟩ := List.cons.inj deeds
        obtain ⟨houtcome, hlater⟩ := alike.own engages howner hdeed
        obtain ⟨houtcomes, hlast⟩ := ih hlater engaged deeds
        rw [attend_cons, Visit.outcomesOf_cons_of_isOf howner, List.map_cons, houtcome,
          houtcomes]
        exact ⟨rfl, hlast⟩

end Host

/-! ### Schedules -/

namespace Visit

/-- Two schedules that keep the order of each user consist of the same operations. -/
theorem SameOrders.perm {first second : List Visit} (h : SameOrders first second) :
    (first.map deed).Perm (second.map deed) := by
  classical
  -- an operation is one of the user who carries it out
  have hcount : ∀ (visits : List Visit) (deed' : Caller × Target × Handling),
      (visits.map deed).count deed' =
        ((visits.filter (·.isOf deed'.1.user)).map deed).count deed' := by
    intro visits deed'
    rw [List.count_eq_countP, List.count_eq_countP, List.countP_map, List.countP_map,
      List.countP_filter]
    refine List.countP_congr fun visit _ => ?_
    simp only [Function.comp_apply, beq_iff_eq, Bool.and_eq_true]
    refine ⟨fun heq => ⟨heq, ?_⟩, And.left⟩
    rw [← heq]
    exact decide_eq_true rfl
  refine List.perm_iff_count.2 fun deed' => ?_
  rw [hcount, hcount second, h]

theorem SameOrders.engaged {first second : List Visit} (h : SameOrders first second)
    {target : Target} (engaged : ∀ visit ∈ first, visit.Engages target) :
    ∀ visit ∈ second, visit.Engages target := by
  intro visit hvisit
  have hmem : visit.deed ∈ first.map deed := h.perm.mem_iff.2 (List.mem_map_of_mem hvisit)
  obtain ⟨visit', hvisit', hdeed⟩ := List.mem_map.1 hmem
  obtain ⟨htarget, action, haction⟩ := engaged visit' hvisit'
  obtain ⟨-, hsame⟩ := Prod.mk.inj hdeed
  obtain ⟨htarget', haction'⟩ := Prod.mk.inj hsame
  exact ⟨htarget'.symm.trans htarget, action, haction'.symm.trans haction⟩

end Visit

/-- Users vote for one item, save it and report it, and take this back, on two hosts with the same
contents and at whatever times. The item was made in a run in which it was not deleted, and there
are fewer records than can be counted. If the schedules keep the order of each user, every operation
gives the same in both but for the time of the vote, and it gives the record or there was nothing to
do unless the caller was turned away. In the end every record is the same but for that time, and so
is the item. -/
theorem Host.order_among_users {site : Site} {invocations : List Invocation}
    {pool : Thread.Pool} {forum : Forum} {target : Target} {item : ContentItem}
    {first second : Host} {schedule other : List Visit}
    (run : Thread.Pool.Steps ((site.responses .wild).within Forum.Orderly)
      (Invocation.pool invocations) .blank pool forum)
    (stored : forum.store.item? target.content = some item)
    (undeleted : ∀ invocation ∈ invocations,
      ¬invocation.operation.Deletes forum.created item.asCreated)
    (firstServing : first.Serving) (secondServing : second.Serving)
    (directory : first.directory = second.directory)
    (firstContents : first.store.state = forum.store)
    (secondContents : second.store.state = forum.store)
    (engaged : ∀ visit ∈ schedule, visit.Engages target)
    (orders : Visit.SameOrders schedule other)
    (range : forum.store.records.length + schedule.length < 9223372036854775807) :
    (∀ user, Visit.outcomesOf user (first.attend schedule).1 =
        Visit.outcomesOf user (second.attend other).1) ∧
      (item.reviewed = false → item.hive = target.hive → ∀ entry ∈ (first.attend schedule).1,
        entry.1.Allowed first.directory → Visit.Settled entry.2) ∧
      (∀ user, ((first.attend schedule).2.store.state.record? ⟨user, target.content.id⟩).map
          unstamped =
        ((second.attend other).2.store.state.record? ⟨user, target.content.id⟩).map unstamped) ∧
      (first.attend schedule).2.store.state.item? target.content =
        (second.attend other).2.store.state.item? target.content := by
  obtain ⟨tallied, nonneg⟩ := StoreState.tallied_of_run run stored undeleted range
  have keyed := tallied.keyed
  have hlength : schedule.length = other.length := by
    simpa using orders.perm.length_eq
  have engaged' := orders.engaged engaged
  -- both schedules are compared with what the user does alone on the second host
  have alone : ∀ (user : UserId) {host : Host}, host.Serving →
      host.directory = second.directory → host.store.state = forum.store →
        AlikeFor user target host second := by
    intro user host serving hdirectory hcontents
    refine ⟨serving, secondServing, hdirectory, ?_⟩
    rw [hcontents, secondContents]
    exact ⟨keyed, keyed, rfl, rfl⟩
  have hfirst := fun user =>
    (alone user firstServing directory firstContents).attend engaged (orders user)
  have hsecond := fun user =>
    (alone user secondServing rfl secondContents).attend engaged'
      (rfl : (other.filter (·.isOf user)).map Visit.deed = _)
  have firstTallied := firstServing.attend_tallied nonneg (firstContents ▸ tallied) engaged
  have secondTallied := secondServing.attend_tallied nonneg
    (secondContents ▸ hlength ▸ tallied) engaged'
  have records := fun user =>
    (hfirst user).2.contents.record.trans (hsecond user).2.contents.record.symm
  exact ⟨fun user => (hfirst user).1.trans (hsecond user).1.symm, firstTallied.2, records,
    firstTallied.1.item?_eq secondTallied.1 records⟩

namespace Sample

/-- The member writes the post. -/
def writing : List Invocation := [⟨{}, 0, .createPost caller post.hive "body" []⟩]

/-- Somebody acts on the post while the wall clock shows some time. -/
def visitOf (wall : Int) (caller : Caller) (action : EngagementAction) : Visit :=
  ⟨wall, caller, ⟨post.hive, post.key⟩, .engage action⟩

/-- Somebody who administers the site. -/
def visitor : Caller := ⟨⟨"visitor"⟩, true⟩

/-- The member votes for the post and takes the vote back; in between, the visitor reports it. -/
def schedule : List Visit :=
  [visitOf 1 caller (.vote .addUp), visitOf 2 visitor (.report none),
    visitOf 3 caller (.vote ⟨.up, false⟩)]

/-- The visitor comes first. -/
def rescheduled : List Visit :=
  [visitOf 1 visitor (.report none), visitOf 2 caller (.vote .addUp),
    visitOf 3 caller (.vote ⟨.up, false⟩)]

theorem sameOrders : Visit.SameOrders schedule rescheduled := by
  intro user
  by_cases hcaller : caller.user = user
  · have hvisitor : visitor.user ≠ user := fun h => absurd (hcaller.trans h.symm) (by decide)
    simp [schedule, rescheduled, visitOf, Visit.isOf, Visit.deed, hcaller, hvisitor]
  · simp only [schedule, rescheduled, visitOf, Visit.isOf, hcaller, List.filter_cons]
    cases decide (visitor.user = user) <;> rfl

/-- The schedules come to the same. -/
theorem rescheduled_same :
    forum.store.item? post.key = some post ∧ post.reviewed = false ∧
      (host ⟨0, 0⟩ true 0).Serving ∧ Visit.SameOrders schedule rescheduled ∧
        (∀ user, Visit.outcomesOf user ((host ⟨0, 0⟩ true 0).attend schedule).1 =
          Visit.outcomesOf user ((host ⟨0, 0⟩ true 0).attend rescheduled).1) ∧
        (∀ user, (((host ⟨0, 0⟩ true 0).attend schedule).2.store.state.record?
            ⟨user, post.id⟩).map EngagementRecord.unstamped =
          (((host ⟨0, 0⟩ true 0).attend rescheduled).2.store.state.record?
            ⟨user, post.id⟩).map EngagementRecord.unstamped) ∧
        ((host ⟨0, 0⟩ true 0).attend schedule).2.store.state.item? post.key =
          ((host ⟨0, 0⟩ true 0).attend rescheduled).2.store.state.item? post.key := by
  have blank : Forum.blank.Orderly := ⟨.nil, by decide, by decide⟩
  have posted : forum.Orderly := ⟨by decide, by decide, by decide⟩
  have undeleted : ∀ invocation ∈ writing,
      ¬invocation.operation.Deletes forum.created post.asCreated := by
    simp [writing, Operation.Deletes]
  have member : site.directory.checkMember caller post.hive = .ok .owner := rfl
  have write : Thread.Steps ((site.responses .wild).within Forum.Orderly)
      (.running (createPost caller post.hive "body" [])) .blank (.running (.done post)) forum :=
    createPost_steps 0 member rfl rfl rfl blank posted
  have run : Thread.Pool.Steps ((site.responses .wild).within Forum.Orderly)
      (Invocation.pool writing) .blank [⟨_, .running (.done post)⟩] forum :=
    Thread.Pool.Steps.of_thread write [] []
  have stored : forum.store.item? post.key = some post := rfl
  have serving : (host ⟨0, 0⟩ true 0).Serving := ⟨rfl, by decide, Nat.zero_le _⟩
  have engaged : ∀ visit ∈ schedule, visit.Engages ⟨post.hive, post.key⟩ := by
    simp [schedule, visitOf, Visit.Engages]
  obtain ⟨houtcomes, -, hrecords, hitem⟩ := @Host.order_among_users site writing _ forum
    ⟨post.hive, post.key⟩ post _ _ schedule rescheduled run stored undeleted serving serving rfl rfl
    rfl engaged sameOrders (by decide)
  exact ⟨stored, rfl, serving, sameOrders, houtcomes, hrecords, hitem⟩

end Sample

end HiveForum
