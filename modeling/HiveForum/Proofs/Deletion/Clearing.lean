import HiveForum.Proofs.Deletion.Removal
import HiveForum.Proofs.Forum.Asking
import HiveForum.Proofs.Forum.Issuing
import HiveForum.Proofs.Forum.Turns

/-!
# What a deletion clears away

A deletion that finds its item, and whose caller may delete it, does three things to the store: it
removes records, it removes an item of the tree below which nothing is left, and it takes one
comment off the count of the post above. Where the caller may not delete the item, or there is none
in the hive, it does nothing at all.

## Main definitions

* `Forum.Clears`: what one effect of a deletion does to the forum.
* `Operation.Amends`: one change that an operation makes which runs alone.

## Main results

* `Forum.Trims.gone`: an item that goes is one of the tree, and nothing is left below it.
* `Forum.clears_of_steps`: a deletion of an item that the caller may delete clears and nothing else.
* `Forum.eq_of_denied_steps`: any other deletion leaves the forum as it is.
* `Turn.Runs.amends`: all that a turn does to the forum are such changes.
-/

namespace HiveForum

open Program Relation

namespace Forum

variable {site surroundings : Site} {conditions : Conditions} {start forum later : Forum}
  {root : ContentItem} {caller : Caller} {target : Target}

/-- What one effect of the deletion of an item does to the forum. -/
inductive Clears (root : ContentItem) (forum : Forum) : Forum → Prop where
  | erases (keys : List EngagementKey) :
      Clears root forum ⟨forum.store.removeRecords keys, forum.created⟩
  | removes {key : ContentKey} (gone : ∀ item, forum.store.item? key = some item →
        (key = root.key ∨ root.Covers key) ∧ (forum.store.removeItem key).Bare key.id) :
      Clears root forum ⟨forum.store.removeItem key, forum.created⟩
  | uncounts {key : ContentKey} {item : ContentItem} (found : forum.store.item? key = some item) :
      Clears root forum
        ⟨forum.store.putItem key ((CountChange.ofComments (-1)).applyTo item), forum.created⟩

/-- An item that goes in a step of a deletion is one of the tree, and nothing is left below it. -/
theorem Trims.gone (trims : start.Trims root forum later) {key : ContentKey} {item : ContentItem}
    (found : forum.store.item? key = some item) (gone : later.store.item? key = none) :
    (key = root.key ∨ root.Covers key) ∧ later.store.Bare key.id := by
  cases trims with
  | prunes prunes =>
    obtain hsame | ⟨covers, -, bare⟩ := prunes.items key
    · rw [hsame, found] at gone
      cases gone
    · exact ⟨.inr covers, bare⟩
  | removes bare =>
    rw [StoreState.item?_removeItem] at gone
    split at gone
    · rename_i hkey
      subst hkey
      exact ⟨.inl rfl, bare.removeItem root.key⟩
    · rw [found] at gone
      cases gone
  | edits =>
    rw [StoreState.item?_putItem] at gone
    split at gone
    · cases gone
    · rw [found] at gone
      cases gone

/-- Of what a deletion may ask, a step that trims the tree is one that clears, or changes
nothing. -/
theorem clears_of_asks {Holds : Forum → Prop} {effect : Effect} {reply : effect.Reply}
    (asks : (Operation.deleteContent caller target).Asks site Holds effect)
    (answer : surroundings.Answer conditions effect forum reply later)
    (trims : later = forum ∨ start.Trims root forum later) :
    later = forum ∨ Clears root forum later := by
  have removal : ∀ {key : ContentKey} {reply : Except StoreError Unit},
      surroundings.Answer conditions (.store (.deleteContent key)) forum reply later →
        later = forum ∨ Clears root forum later := by
    intro key reply answer
    obtain heq | ⟨request, store, heq, change, rfl⟩ := answer.change
    · exact .inl heq
    · cases heq
      cases change with
      | read h => cases h
      | edit edits => cases edits
      | remove =>
        refine trims.imp id fun trims => .removes fun item found => ?_
        refine trims.gone found ?_
        rw [after_store, StoreState.item?_removeItem, if_pos rfl]
  cases asks with
  | silent h => exact .inl (answer.eq_of_isQuiet (Effect.isQuiet_of_isSilent h))
  | remove => exact removal answer
  | removeBelow => exact removal answer
  | erase =>
    obtain heq | ⟨request, store, heq, change, rfl⟩ := answer.change
    · exact .inl heq
    · cases heq
      cases change with
      | read h => cases h
      | edit edits => cases edits
      | erase => exact .inr (.erases _)
  | uncount =>
    obtain heq | ⟨request, store, heq, change, rfl⟩ := answer.change
    · exact .inl heq
    · cases heq
      cases change with
      | read h => cases h
      | edit edits found =>
        cases edits
        exact .inr (.uncounts found)

section

variable {turn : Turn} (fits : turn.Fits site)
  {settings : Settings} {horizon : Nat} {thread : Thread Unit}

include fits

/-- Where the caller may delete the item, its deletion clears and does nothing else. -/
theorem clears_of_steps (reachable : start.Reachable site)
    (stored : start.store.item? target.content = some root)
    (owned : root.hive = target.hive)
    (steps : Thread.Steps ((turn.responses site).within (Reachable site))
      (.running (deleteContent settings horizon caller target)) start thread later) :
    ReflTransGen (Clears root) start later := by
  obtain ⟨sound, distinct⟩ := reachable.sound
  have located : target.content = root.key := (sound.items _ root stored).1.symm
  let protocol : Protocol Unit := {
    Told := site.Tells .wild (Reachable site)
    Apart := (Operation.deleteContent caller target).Asks site (Reachable site)
    Moves := fun _ _ _ _ => False
    home := () }
  have follows : Returns protocol (deleteContent settings horizon caller target) :=
    Operation.follows (fun _ _ => id) (fun _ => id) (.deleteContent caller target) id settings
      horizon
  have meets := @meets_deleteContent (turn.place site) turn.conditions False True start root
    fits.honest (sound.tiered distinct) (located ▸ stored) settings horizon caller target located
    owned (.inl trivial)
  have wide : ∀ {effect : Effect} {state after : Forum} {reply : effect.Reply},
      ((turn.responses site).within (Reachable site)).Answers effect state reply after →
        ((turn.place site).serving turn.conditions False).Answers effect state reply after :=
    fun answer => ⟨answer.1.1, False.elim⟩
  have told : ∀ {effect : Effect} {state after : Forum} {reply : effect.Reply},
      state.Reachable site ∧ ReflTransGen (Clears root) start state →
        ((turn.responses site).within (Reachable site)).Answers effect state reply after →
          protocol.Told effect reply :=
    fun holds answer => ⟨_, _, holds.1, (turn.answer_wild fits answer.1).1⟩
  refine (steps.keeps wide (.running meets) (.running follows) told ?_ ⟨reachable, .refl⟩).2
  rintro effect forum after reply _ _ ⟨-, clears⟩ answer (⟨asks, -⟩ | moves) trims
  · refine ⟨answer.2, ?_⟩
    obtain rfl | step := clears_of_asks asks answer.1.1 trims
    · exact clears
    · exact clears.tail step
  · exact moves.elim

/-- Where the caller may not delete it, or there is nothing in the hive to delete, a deletion leaves
the forum as it is. -/
theorem eq_of_denied_steps
    (denied : ∀ root, start.store.item? target.content = some root → root.hive = target.hive →
      (turn.place site).mayDelete caller root ≠ .ok ())
    (steps : Thread.Steps ((turn.place site).responses turn.conditions)
      (.running (deleteContent settings horizon caller target)) start thread later) :
    later = start := by
  have load : (loadTarget target).Meets ((turn.place site).responses turn.conditions)
      ((issuing (turn.place site) (.deleteContent caller target)).withFailing fun _ _ => True) none
      (fun root later => later = start ∧ start.store.item? target.content = some root ∧
        root.hive = target.hive) start := by
    rw [← bind_done (loadTarget target)]
    exact issuing_loadTarget fun root found owned => issuing_done ⟨rfl, found, owned⟩
  have meets : MeetsIssuing (turn.place site) turn.conditions (.deleteContent caller target)
      (deleteContent settings horizon caller target) (fun _ _ => True) start := by
    rw [deleteContent]
    refine issuing_quiet rfl fun reply answer => ?_
    obtain ⟨rfl, -⟩ := answer.of_membership fits.honest
    cases hrole : (turn.place site).directory.checkMember caller target.hive with
    | error error => exact issuing_fail
    | ok role =>
      refine Meets.unlessNotFound load (fun root middle _ loaded => ?_)
        (fun _ _ _ _ _ _ => trivial) fun _ _ _ _ => trivial
      obtain ⟨-, found, owned⟩ := loaded middle rfl
      have hdenied := denied root found owned
      rw [Site.mayDelete, owned, hrole] at hdenied
      dsimp only
      split
      · exact issuing_fail
      · rename_i hallowed
        exact absurd (if_neg hallowed) hdenied
  have keeps := (steps.meets (.running meets)).2 (· = start) fun guarantee hbefore => ?_
  · exact keeps rfl
  · obtain rfl | ⟨request, store, issues, -⟩ := guarantee
    · exact hbefore
    · cases issues

end

end Forum

/-- One change that an operation makes which runs alone from a forum on. -/
inductive Operation.Amends (site : Site) (start : Forum) : Operation → Forum → Forum → Prop where
  | issues {op : Operation} {forum : Forum} {request : Request} {store : StoreState}
      (issues : op.Issues site forum request) (change : forum.store.Change request store) :
      Amends site start op forum (forum.after store request)
  | clears {caller : Caller} {target : Target} {root : ContentItem} {forum later : Forum}
      (stored : start.store.item? target.content = some root) (owned : root.hive = target.hive)
      (may : site.mayDelete caller root = .ok ()) (clears : Forum.Clears root forum later) :
      Amends site start (.deleteContent caller target) forum later

/-- However far the operation of a turn gets, all that it does to the forum are such changes. -/
theorem Turn.Runs.amends {site : Site} {turn : Turn} {state after : Forum × Journal}
    {thread : Thread turn.invocation.operation.Result} (run : turn.Runs site state thread after)
    (fits : turn.Fits site) (reachable : state.1.Reachable site) :
    ReflTransGen (turn.invocation.operation.Amends (turn.place site) state.1) state.1 after.1 := by
  have within := run.within_reachable fits reachable
  have wide : ∀ {effect : Effect} {forum later : Forum} {reply : effect.Reply},
      ((turn.responses site).within (Forum.Reachable site)).Answers effect forum reply later →
        ((turn.place site).responses turn.conditions).Answers effect forum reply later :=
    fun answer => answer.1.1
  have steps := within.imp wide
  cases hdeletion : turn.invocation.operation.isDeletion with
  | false =>
    exact Operation.keeps_of_steps fits.honest reachable.sound.1.isKeyed hdeletion steps
      (ReflTransGen _ state.1) (fun hbefore issues change => hbefore.tail (.issues issues change))
      .refl
  | true =>
    obtain ⟨directory, conditions, settings, horizon, op⟩ := turn
    cases op with
    | deleteContent caller target =>
      by_cases may : ∃ root, state.1.store.item? target.content = some root ∧
        root.hive = target.hive ∧ (site.withDirectory directory).mayDelete caller root = .ok ()
      · obtain ⟨root, stored, owned, may⟩ := may
        exact ReflTransGen.mono (fun _ _ step => Operation.Amends.clears stored owned may step) _ _
          (Forum.clears_of_steps fits reachable stored owned within)
      · rw [Forum.eq_of_denied_steps fits (fun root stored owned hmay =>
          may ⟨root, stored, owned, hmay⟩) steps]
    | _ => cases hdeletion

end HiveForum
