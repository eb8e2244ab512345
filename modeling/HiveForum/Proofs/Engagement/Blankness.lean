import HiveForum.Proofs.Engagement.Visits
import HiveForum.Proofs.Forum.Failure

/-!
# A blank record is no record

A user who has taken everything back leaves a record without flags behind. It says no more than no
record at all: nobody can tell one from the other by what operations give, by the notifications that
are sent, or by what becomes of the items.

## Main definitions

* `StoreState.EqualBut`: two stores are the same but for the record at one key.
* `StoreState.Carries`: a record carries the scope and the hive of its item.
* `StoreState.Twin`: one store has a blank record where the other has none, or both have records
  that are the same but for version and time.

## Main results

* `StoreState.Twin.settle`: what an operation makes of two such stores.
* `Host.blank_record_is_none`: whatever is done one after another, the two stores remain so.
-/

namespace HiveForum

open EngagementRecord

/-- A record without flags and reason is the neutral one of its user and item, but for version and
time. -/
theorem EngagementRecord.plain_of_isBlank {blank : EngagementRecord} (h : blank.isBlank = true)
    (noReason : blank.reason = none) :
    blank.plain = (neutral blank.user ⟨blank.scope, blank.content⟩ blank.hive).plain := by
  obtain ⟨user, content, scope, hive, up, down, saved, reported, votedAt, reason, version⟩ := blank
  cases up <;> cases down <;> cases saved <;> cases reported <;> cases h
  cases noReason
  rfl

namespace StoreState

/-- Two stores have the same items, and the same records but for one key. -/
structure EqualBut (key : EngagementKey) (store other : StoreState) : Prop where
  content : store.content = other.content
  records : ∀ key', key' ≠ key → store.record? key' = other.record? key'

/-- The record carries the scope and the hive of its item. -/
def Carries (store : StoreState) (record : EngagementRecord) : Prop :=
  ∀ key item, store.item? key = some item → key.id = record.content →
    record.scope = key.scope ∧ record.hive = item.hive

/-- One store has no record where the other has a blank one, or both have records there that are the
same but for their versions and the times of their votes. -/
def Pairs (blank : EngagementRecord) (store other : StoreState) : Prop :=
  (store.record? blank.key = none ∧ other.record? blank.key = some blank) ∨
    ∃ record record', store.record? blank.key = some record ∧
      other.record? blank.key = some record' ∧ record.plain = record'.plain

/-- Two stores are the same but for one record, which is blank in one of them and missing in the
other, or the same but for version and time. -/
structure Twin (blank : EngagementRecord) (store other : StoreState) : Prop where
  keyed : store.Keyed
  keyedOther : other.Keyed
  equalBut : store.EqualBut blank.key other
  carries : store.Carries blank
  record : Pairs blank store other

variable {key : EngagementKey} {blank : EngagementRecord} {store other : StoreState}

theorem EqualBut.item? (h : store.EqualBut key other) (key' : ContentKey) :
    store.item? key' = other.item? key' := by
  rw [StoreState.item?, StoreState.item?, h.content]

theorem EqualBut.locate (h : store.EqualBut key other) (target : Target) :
    store.locate target = other.locate target := by
  rw [StoreState.locate, StoreState.locate, h.item?]

theorem EqualBut.permit (h : store.EqualBut key other) (handling : Handling)
    (directory : Directory) (caller : Caller) (target : Target) :
    handling.permit directory store caller target =
      handling.permit directory other caller target := by
  rw [Handling.permit, Handling.permit, h.locate]

namespace Twin

variable (twin : Twin blank store other)

include twin

/-- The record that is read on an item is the same but for version and time, and the very same
elsewhere. -/
theorem recordFor (isBlank : blank.isBlank = true) (noReason : blank.reason = none)
    {target : Target} {item : ContentItem} (found : store.locate target = .ok item)
    (user : UserId) :
    (store.recordFor user target).plain = (other.recordFor user target).plain ∧
      (⟨user, target.content.id⟩ ≠ blank.key →
        store.recordFor user target = other.recordFor user target) := by
  have elsewhere : (⟨user, target.content.id⟩ : EngagementKey) ≠ blank.key →
      store.recordFor user target = other.recordFor user target := by
    intro hne
    rw [StoreState.recordFor, StoreState.recordFor, twin.equalBut.records _ hne]
  refine ⟨?_, elsewhere⟩
  by_cases hkey : (⟨user, target.content.id⟩ : EngagementKey) = blank.key
  · rw [StoreState.recordFor, StoreState.recordFor, hkey]
    obtain ⟨hnone, hblank⟩ | ⟨record, record', hrecord, hrecord', hplain⟩ := twin.record
    · obtain ⟨hitem, hhive⟩ := locate_eq_ok_iff.1 found
      have huser : user = blank.user := congrArg EngagementKey.user hkey
      have hcontent : target.content.id = blank.content := congrArg EngagementKey.content hkey
      obtain ⟨hscope, hhive'⟩ := twin.carries _ item hitem hcontent
      have hplace : target.content = ⟨blank.scope, blank.content⟩ := by
        rw [hscope, ← hcontent]
      rw [hnone, hblank, Option.getD_none, Option.getD_some, plain_of_isBlank isBlank noReason,
        huser, hplace, hhive', hhive]
    · rw [hrecord, hrecord']
      exact hplain
  · rw [elsewhere hkey]

/-- Records are written that are the same but for version and time, and the very same elsewhere. -/
theorem withRecord {changed changed' : EngagementRecord}
    (plain : changed.plain = changed'.plain)
    (same : changed.key ≠ blank.key → changed = changed') :
    Twin blank (store.withRecord changed) (other.withRecord changed') := by
  have hkey := key_eq_of_plain plain
  refine ⟨twin.keyed.withRecord changed, twin.keyedOther.withRecord changed',
    ⟨twin.equalBut.content, fun key' hne => ?_⟩, twin.carries, ?_⟩
  · rw [record?_withRecord, record?_withRecord, ← hkey, twin.equalBut.records key' hne]
    split
    · rename_i heq
      rw [same (heq ▸ hne)]
    · rfl
  · rw [Pairs, record?_withRecord, record?_withRecord, ← hkey]
    split
    · exact .inr ⟨_, _, rfl, rfl, plain⟩
    · exact twin.record

/-- An item is edited in both stores. -/
theorem putItem {key : ContentKey} {item item' : ContentItem} (found : store.item? key = some item)
    (same : item'.asCreated = item.asCreated) :
    Twin blank (store.putItem key item') (other.putItem key item') := by
  obtain ⟨hkey, hhive⟩ := ContentItem.eq_of_asCreated same
  have hkey := hkey.trans (twin.keyed.items key item found)
  refine ⟨twin.keyed.putItem hkey, twin.keyedOther.putItem hkey, ⟨?_, twin.equalBut.records⟩,
    fun key' other' hother hcontent => ?_, twin.record⟩
  · rw [StoreState.putItem, StoreState.putItem, twin.equalBut.content]
  · rw [item?_putItem] at hother
    split at hother
    · rename_i heq
      obtain rfl := Option.some.inj hother
      rw [hhive, heq]
      exact twin.carries key item found (heq ▸ hcontent)
    · exact twin.carries key' other' hother hcontent

end Twin

end StoreState

/-- An operation gives the same in both stores but for version and time, it tells the same people,
and it leaves two stores that are the same but for the record. -/
structure Settlement.Twin (blank : EngagementRecord) (settlement other : Settlement) : Prop where
  result : settlement.result.map (Handled.map plain) = other.result.map (Handled.map plain)
  sent : settlement.sent = other.sent
  stamped : settlement.stamped = other.stamped
  contents : StoreState.Twin blank settlement.contents other.contents

/-- The same comes of an operation in both stores. -/
theorem StoreState.Twin.settle {blank : EngagementRecord} {store other : StoreState}
    (twin : Twin blank store other) (isBlank : blank.isBlank = true)
    (noReason : blank.reason = none) (handling : Handling) (directory : Directory) (time : Int64)
    (caller : Caller) (target : Target) :
    (handling.settle directory store time caller target).Twin blank
      (handling.settle directory other time caller target) := by
  have hpermit := twin.equalBut.permit handling directory caller target
  cases hitem : handling.permit directory store caller target with
  | error error =>
    rw [Handling.settle_of_error hitem, Handling.settle_of_error (hpermit.symm.trans hitem)]
    exact ⟨rfl, rfl, rfl, twin⟩
  | ok item =>
    have found := Handling.locate_of_permit hitem
    have hstored := (locate_eq_ok_iff.1 found).1
    have hitem' := hpermit.symm.trans hitem
    cases handling with
    | engage action =>
      obtain ⟨hplain, elsewhere⟩ := twin.recordFor isBlank noReason found caller.user
      obtain ⟨error, hchange, hchange'⟩ | ⟨changed, changed', edit, hchange, hchange', hchanged⟩ :=
        action.change_alike hplain item.reviewed time time
      · rw [Handling.settle_of_change_error hitem hchange,
          Handling.settle_of_change_error hitem' hchange']
        exact ⟨rfl, rfl, rfl, twin⟩
      · rw [Handling.settle_of_change_ok hitem hchange,
          Handling.settle_of_change_ok hitem' hchange']
        have same : changed.key ≠ blank.key → changed = changed' := by
          intro hne
          rw [(EngagementAction.change_eq_ok hchange).1, twin.keyed.key_recordFor] at hne
          rw [elsewhere hne, hchange'] at hchange
          exact (Prod.mk.inj (Except.ok.inj hchange)).1.symm
        have edited := (EngagementAction.edit_rest hchange item).1
        refine ⟨?_, rfl, rfl, (twin.withRecord hchanged same).putItem hstored edited⟩
        exact congrArg (fun record => Except.ok (Handled.record record)) hchanged
    | review =>
      rw [Handling.settle, Handling.settle, hitem, hitem']
      exact ⟨rfl, rfl, rfl, twin.putItem hstored rfl⟩
    | pin pinned =>
      rw [Handling.settle, Handling.settle, hitem, hitem']
      dsimp only [Handling.act]
      by_cases hsame : item.pinned = pinned
      · simp only [if_pos hsame]
        exact ⟨rfl, rfl, rfl, twin⟩
      · simp only [if_neg hsame]
        exact ⟨rfl, rfl, rfl, twin.putItem hstored rfl⟩

namespace Host

variable {blank : EngagementRecord} {host other : Host}

/-- Two hosts are the same but for the record in their stores, and nothing has been told by one that
the other has not told. -/
structure Twin (blank : EngagementRecord) (host other : Host) : Prop where
  serving : host.Serving
  servingOther : other.Serving
  directory : host.directory = other.directory
  sent : host.sent = other.sent
  stamps : host.stamps = other.stamps
  contents : StoreState.Twin blank host.store.state other.store.state

/-- One operation gives the same on both hosts, and they remain the same but for the record. -/
theorem Twin.visit (twin : Twin blank host other) (isBlank : blank.isBlank = true)
    (noReason : blank.reason = none) (visit : Visit) :
    (host.visit visit).1.map (Handled.map plain) = (other.visit visit).1.map (Handled.map plain) ∧
      Twin blank (host.visit visit).2 (other.visit visit).2 := by
  have settles := twin.serving.visit twin.contents.keyed visit
  have settles' := twin.servingOther.visit twin.contents.keyedOther visit
  have stamps : (host.atWall visit.wall).stamps = (other.atWall visit.wall).stamps := by
    rw [atWall, atWall, twin.stamps]
  have hsettlement : (host.settle visit).Twin blank (other.settle visit) := by
    rw [Host.settle, Host.settle, ← twin.directory, ← stamps]
    exact twin.contents.settle isBlank noReason visit.handling host.directory _ visit.caller
      visit.target
  obtain ⟨result, sent, stamped, contents⟩ := hsettlement
  refine ⟨?_, settles.leaves.serving, settles'.leaves.serving, ?_, ?_, ?_, ?_⟩
  · rw [settles.outcome_map, settles'.outcome_map, result]
  · rw [settles.leaves.directory, settles'.leaves.directory]
    exact twin.directory
  · rw [settles.leaves.sent, settles'.leaves.sent, sent]
    exact congrArg (· ++ _) twin.sent
  · rw [settles.leaves.stamps, settles'.leaves.stamps, stamped, stamps]
  · rw [settles.leaves.contents, settles'.leaves.contents]
    exact contents

theorem Twin.attend (isBlank : blank.isBlank = true) (noReason : blank.reason = none)
    {visits : List Visit} (twin : Twin blank host other) :
    (host.attend visits).1.map (Visit.entry plain) =
        (other.attend visits).1.map (Visit.entry plain) ∧
      Twin blank (host.attend visits).2 (other.attend visits).2 := by
  induction visits generalizing host other with
  | nil => exact ⟨rfl, twin⟩
  | cons visit visits ih =>
    obtain ⟨houtcome, hlater⟩ := twin.visit isBlank noReason visit
    obtain ⟨hlog, hlast⟩ := ih hlater
    rw [attend_cons, attend_cons]
    refine ⟨?_, hlast⟩
    rw [List.map_cons, List.map_cons, hlog, Visit.entry, Visit.entry, houtcome]

/-- Two runs have given the same but for the versions of records and the times of votes, have sent
the same notifications, and have left the same items and the same records, but for one that is blank
and missing, or the same but for version and time. -/
structure Indistinguishable (blank : EngagementRecord)
    (first second : List (Visit × Outcome Handled) × Host) : Prop where
  outcomes : first.1.map (Visit.entry plain) = second.1.map (Visit.entry plain)
  sent : first.2.sent = second.2.sent
  equalBut : first.2.store.state.EqualBut blank.key second.2.store.state
  record : StoreState.Pairs blank first.2.store.state second.2.store.state

/-- A host that has a blank record where another one has none goes through the same as the other
one, whatever users and moderators do with items one after another. -/
theorem blank_record_is_none {contents other : StoreState} (serving : host.Serving)
    (keyed : contents.Keyed) (equalBut : contents.EqualBut blank.key other)
    (missing : contents.record? blank.key = none)
    (present : other.record? blank.key = some blank) (isBlank : blank.isBlank = true)
    (noReason : blank.reason = none) (carries : contents.Carries blank) (visits : List Visit) :
    Indistinguishable blank ((host.withContents contents).attend visits)
      ((host.withContents other).attend visits) := by
  have keyedOther : other.Keyed := by
    refine ⟨fun key item hitem => ?_, fun key record hrecord => ?_⟩
    · rw [← equalBut.item?] at hitem
      exact keyed.items key item hitem
    · by_cases hkey : key = blank.key
      · rw [hkey, present] at hrecord
        rw [← Option.some.inj hrecord, hkey]
      · rw [← equalBut.records key hkey] at hrecord
        exact keyed.records key record hrecord
  have start : Twin blank (host.withContents contents) (host.withContents other) :=
    ⟨⟨serving.available, serving.waits, serving.timely⟩,
      ⟨serving.available, serving.waits, serving.timely⟩, rfl, rfl, rfl,
      ⟨keyed, keyedOther, equalBut, carries, .inl ⟨missing, present⟩⟩⟩
  obtain ⟨hlog, hlast⟩ := @Twin.attend _ _ _ isBlank noReason visits start
  exact ⟨hlog, hlast.sent, hlast.contents.equalBut, hlast.contents.record⟩

end Host

namespace Sample

/-- The record of the member on the post before anything was done. -/
def untouched : EngagementRecord := .neutral caller.user post.key post.hive

/-- The member votes for the post, takes the vote back and reports the post, and as the owner of the
hive reviews and pins it. -/
def visits : List Visit :=
  [.engage (.vote .addUp), .engage (.vote ⟨.up, false⟩), .engage (.report none), .review,
    .pin true].map fun handling => ⟨0, caller, ⟨post.hive, post.key⟩, handling⟩

/-- A host on which the record of the member has been written without a flag goes through the same
as one without the record. -/
theorem blank_record_visited :
    (host ⟨0, 0⟩ true 0).Serving ∧ forum.store.record? untouched.key = none ∧
      untouched.written.isBlank = true ∧ untouched.written.reason = none ∧
        Host.Indistinguishable untouched.written
          (((host ⟨0, 0⟩ true 0).withContents forum.store).attend visits)
          (((host ⟨0, 0⟩ true 0).withContents (forum.store.withRecord untouched)).attend
            visits) := by
  have serving : (host ⟨0, 0⟩ true 0).Serving := ⟨rfl, by decide, Nat.zero_le _⟩
  have keyed : forum.store.Keyed :=
    StoreState.keyed_empty.putItem rfl
  have equalBut : forum.store.EqualBut untouched.written.key (forum.store.withRecord untouched) :=
    ⟨rfl, fun key hne => by
      rw [StoreState.record?_withRecord]
      exact (if_neg hne).symm⟩
  have present : (forum.store.withRecord untouched).record? untouched.written.key =
      some untouched.written := by
    rw [StoreState.record?_withRecord]
    exact if_pos rfl
  have carries : forum.store.Carries untouched.written := by
    intro key item hitem hcontent
    rw [forum, StoreState.item?_putItem] at hitem
    split at hitem
    · rename_i hkey
      obtain rfl := Option.some.inj hitem
      exact ⟨congrArg ContentKey.scope hkey.symm, rfl⟩
    · cases hitem
  exact ⟨serving, rfl, rfl, rfl, Host.blank_record_is_none serving keyed equalBut rfl present rfl
    rfl carries visits⟩

end Sample

end HiveForum
