import HiveForum.Proofs.Program.Contract
import HiveForum.Proofs.Schedule.Moves

/-!
# Contracts of executed programs

A world runs a program alone, and the units of a group one after another, each at its own time. What
a contract says of a program that runs beside others holds of such a run as well, if the world
carries out effects in one of the ways that the responses of the contract allow.

## Main definitions

* `World.Heeds`: a world carries out effects as some responses allow.
* `Outcome.Meets`: what a contract says of the outcome of a run.
* `WorkUnit.Honours`, `TaskGroup.Honours`: units, and groups, that keep to a contract.

## Main results

* `TaskGroup.exists_honours_run`: a group of units that keep to a contract does so.
* `Program.Meets.exists_run`: a program that meets a contract is executed as it says.
* `Program.Meets.run_ne_unfinished`: it comes to an end if the contract requires it.
-/

namespace HiveForum

open Relation

variable {σ τ : Type}

/-- The world carries out effects as the responses allow, from states that stand for others. -/
structure World.Heeds (world : World τ) (responses : Responses σ) (Stands : τ → σ → Prop) :
    Prop where
  perform : ∀ (effect : Effect) {host : τ} {state : σ}, Stands host state → ∃ after,
    responses.Answers effect state (world.perform effect host).1 after ∧
      Stands (world.perform effect host).2 after
  setTime : ∀ (time : Nat) {host : τ} {state : σ}, Stands host state →
    Stands (world.setTime host time) state

/-- What may become of the state when a program runs alone. -/
abbrev Contract.Makes (contract : Contract σ) : σ → σ → Prop := ReflTransGen contract.guarantee

/-- What a contract says of the outcome of a run. -/
def Outcome.Meets {α : Type} (contract : Contract σ) (post : α → σ → Prop) (state : σ) :
    Outcome α → Prop
  | .ok value => ∀ later, contract.rely state later → post value later
  | .error (.failed error) => ∀ later, contract.rely state later → contract.failing error later
  | .error .unfinished => contract.endless

theorem Outcome.Meets.later {α : Type} {contract : Contract σ} {post : α → σ → Prop}
    {state later : σ} {outcome : Outcome α} (h : outcome.Meets contract post state)
    (rely : contract.rely state later) : outcome.Meets contract post later := by
  cases outcome with
  | ok value => exact fun last hlast => h last (contract.rely_trans rely hlast)
  | error stop =>
    cases stop with
    | failed error => exact fun last hlast => h last (contract.rely_trans rely hlast)
    | unfinished => exact h

theorem Outcome.Meets.imp {α : Type} {contract : Contract σ} {claim post : α → σ → Prop}
    {state : σ} {outcome : Outcome α} (h : outcome.Meets contract claim state)
    (imp : ∀ value later, claim value later → post value later) :
    outcome.Meets contract post state := by
  cases outcome with
  | ok value => exact fun later hlater => imp value later (h later hlater)
  | error stop => cases stop <;> exact h

theorem Contract.rely_of_makes {contract : Contract σ} {state after : σ}
    (fellow : ∀ {state after}, contract.guarantee state after → contract.rely state after)
    (makes : contract.Makes state after) : contract.rely state after := by
  induction makes with
  | refl => exact contract.rely_refl _
  | tail _ change ih => exact contract.rely_trans ih (fellow change)

/-! ### Groups -/

variable {Stands : τ → σ → Prop} {contract : Contract σ}

/-- Whenever the unit is started, it makes only what the contract allows and ends as the contract
and its own claim say. -/
def WorkUnit.Honours (unit : Spawned τ) (Stands : τ → σ → Prop) (contract : Contract σ)
    (claim : σ → Prop) (state : σ) : Prop :=
  ∀ (start : Nat) {host : τ} {later : σ}, contract.rely state later → Stands host later →
    ∃ after, Stands (unit.work start host).2.2 after ∧ contract.Makes later after ∧
      Outcome.Meets contract (fun _ => claim) after (unit.work start host).1

theorem WorkUnit.Honours.later {unit : Spawned τ} {claim : σ → Prop} {state later : σ}
    (h : unit.Honours Stands contract claim state) (rely : contract.rely state later) :
    unit.Honours Stands contract claim later :=
  fun start _ _ hlast => h start (contract.rely_trans rely hlast)

namespace TaskGroup

/-- The units so far end as the contract says, and unless one of them fails none is skipped and
their claims hold. -/
structure Honours (group : TaskGroup τ Stop Unit) (Stands : τ → σ → Prop) (contract : Contract σ)
    (claims : List (σ → Prop)) (state : σ) : Prop where
  stands : Stands group.state state
  failed : ∀ stop ∈ group.failures,
    Outcome.Meets contract (fun (_ : Unit) _ => True) state (.error stop)
  intact : group.failures = [] → group.failed = false ∧
    ∀ claim ∈ claims, ∀ later, contract.rely state later → claim later

theorem Honours.ahead {group later : TaskGroup τ Stop Unit} {claims : List (σ → Prop)}
    {state : σ} (h : group.Honours Stands contract claims state) (ahead : group.Ahead later) :
    later.Honours Stands contract claims state where
  stands := ahead.state ▸ h.stands
  failed stop hstop := h.failed stop (ahead.failures.mem_iff.1 hstop)
  intact hnone := by
    have hsound : group.failures = [] := (hnone ▸ ahead.failures).nil_eq.symm
    obtain ⟨hfailed, hclaims⟩ := h.intact hsound
    refine ⟨Bool.eq_false_iff.2 fun hlater => ?_, hclaims⟩
    obtain hflag | hsome := ahead.failed hlater
    · rw [hfailed] at hflag
      cases hflag
    · exact hsome hsound

/-- A group that is given one more unit. -/
theorem exists_honours_add {group : TaskGroup τ Stop Unit} {claims : List (σ → Prop)}
    {state : σ} {unit : Spawned τ} {claim : σ → Prop}
    (fellow : ∀ {state after}, contract.guarantee state after → contract.rely state after)
    (h : group.Honours Stands contract claims state)
    (hunit : unit.Honours Stands contract claim state) :
    ∃ after, contract.Makes state after ∧
      (group.add unit).Honours Stands contract (claims ++ [claim]) after := by
  have hsound : group.failures = [] → ¬(group.failed = true ∨ group.failures ≠ []) := by
    rintro hnone (hfailed | hsome)
    · rw [(h.intact hnone).1] at hfailed
      cases hfailed
    · exact hsome hnone
  have hflag : group.failures = [] → (group.add unit).failed = false := fun hnone =>
    Bool.eq_false_iff.2 fun hfailed => hsound hnone (failed_add hfailed)
  obtain ⟨run, hturns, ⟨hfailed, rfl, hstate⟩ | ⟨result, finish, hwork, rfl⟩⟩ :=
    group.add_course unit
  · -- a unit is skipped only after a failure
    have hfailures : (group.add unit).failures.Perm group.failures := hturns.filterMap _
    refine ⟨state, .refl, hstate ▸ h.stands,
      fun stop hstop => h.failed stop (hfailures.mem_iff.1 hstop), fun hnone => ?_⟩
    exact absurd (failed_await hfailed) (hsound (hnone ▸ hfailures).nil_eq.symm)
  · obtain ⟨after, hstands, hmakes, houtcome⟩ :=
      hunit (group.await unit).clock (contract.rely_refl state) h.stands
    have hrely := Contract.rely_of_makes fellow hmakes
    have hbefore : ∀ stop ∈ group.failures,
        Outcome.Meets contract (fun (_ : Unit) _ => True) after (.error stop) :=
      fun stop hstop => (h.failed stop hstop).later hrely
    rw [hwork] at hstands houtcome
    cases result with
    | ok output =>
      have hfailures : (group.add unit).failures.Perm group.failures := hturns.filterMap _
      refine ⟨after, hmakes, hstands, fun stop hstop => hbefore stop (hfailures.mem_iff.1 hstop),
        fun hnone => ?_⟩
      have hnone : group.failures = [] := (hnone ▸ hfailures).nil_eq.symm
      refine ⟨hflag hnone, fun other hother later hlater => ?_⟩
      obtain hother | hother := List.mem_append.1 hother
      · exact (h.intact hnone).2 other hother later (contract.rely_trans hrely hlater)
      · obtain rfl := List.mem_singleton.1 hother
        exact houtcome later hlater
    | error stop =>
      have hfailures : (group.add unit).failures.Perm (stop :: group.failures) :=
        hturns.filterMap _
      refine ⟨after, hmakes, hstands, fun other hother => ?_, fun hnone => ?_⟩
      · obtain rfl | hother := List.mem_cons.1 (hfailures.mem_iff.1 hother)
        · cases other <;> exact houtcome
        · exact hbefore other hother
      · rw [hnone] at hfailures
        exact absurd hfailures.nil_eq (List.cons_ne_nil _ _).symm

/-- A group of units that keep to the contract, each with its claim. -/
theorem exists_honours_run {claims : List (Spawned τ × (σ → Prop))} {host : τ} {state : σ}
    (fellow : ∀ {state after}, contract.guarantee state after → contract.rely state after)
    (limit : Nat) (stands : Stands host state)
    (hunits : ∀ claim ∈ claims, claim.1.Honours Stands contract claim.2 state) :
    ∃ after, contract.Makes state after ∧
      (run limit (claims.map Prod.fst) host).Honours Stands contract (claims.map Prod.snd)
        after := by
  have hfold : ∀ {group : TaskGroup τ Stop Unit} {before : List (σ → Prop)} {state : σ},
      group.Honours Stands contract before state →
      (∀ claim ∈ claims, claim.1.Honours Stands contract claim.2 state) →
        ∃ after, contract.Makes state after ∧
          ((claims.map Prod.fst).foldl add group).Honours Stands contract
            (before ++ claims.map Prod.snd) after := by
    clear hunits
    induction claims with
    | nil => exact fun {_ before state} h _ => ⟨state, .refl, by simpa using h⟩
    | cons claim claims ih =>
      intro group before state h hunits
      obtain ⟨hunit, hunits⟩ := List.forall_mem_cons.1 hunits
      obtain ⟨middle, hmakes, hmiddle⟩ := exists_honours_add fellow h hunit
      have hrely := Contract.rely_of_makes fellow hmakes
      obtain ⟨after, hmakes', hafter⟩ :=
        ih hmiddle fun other hother => (hunits other hother).later hrely
      exact ⟨after, hmakes.trans hmakes', by simpa using hafter⟩
  have hnew : (new limit host : TaskGroup τ Stop Unit).Honours Stands contract [] state :=
    ⟨stands, fun _ h => (by cases h), fun _ => ⟨rfl, fun _ h => by cases h⟩⟩
  obtain ⟨after, hmakes, hall⟩ := hfold hnew hunits
  exact ⟨after, hmakes, hall.ahead (ahead_settle _ _)⟩

end TaskGroup

/-- The results of a group whose members keep to a contract. -/
theorem gathered?_meets {group : TaskGroup τ Stop Unit} {claims : List (σ → Prop)} {state : σ}
    {goal : σ → Prop} {spawner : Outcome Unit} (h : group.Honours Stands contract claims state)
    (isOver : group.Over) (spawning : spawner.Meets contract
      (fun _ later => (∀ claim ∈ claims, claim later) → goal later) state) :
    (gathered? spawner group = none → contract.endless) ∧
      ∀ gathered, gathered? spawner group = some gathered →
        gathered.Meets contract goal state := by
  by_cases hendless : .unfinished ∈ group.failures
  · have hnone : gathered? spawner group = none :=
      if_pos (List.any_eq_true.2 ⟨_, hendless, decide_eq_true rfl⟩)
    rw [hnone]
    exact ⟨fun _ => h.failed _ hendless, fun _ heq => by cases heq⟩
  have hgathered : gathered? spawner group = (do
      let spawner ← spawner.result?
      let units ← Outcome.result? (group.joined.map fun _ => ())
      some ⟨spawner, units⟩) := by
    refine if_neg fun hany => hendless ?_
    obtain ⟨stop, hmem, hstop⟩ := List.any_eq_true.1 hany
    exact of_decide_eq_true hstop ▸ hmem
  -- the units end well and their claims hold, or one of them fails
  have hunits : ∃ units, Outcome.result? (group.joined.map fun _ => ()) = some units ∧
      (∀ error, units = .error error → contract.failing error state) ∧
        (units = .ok () → ∀ claim ∈ claims, claim state) := by
    obtain ⟨hnone, hjoined⟩ | ⟨stop, rest, hfailures, hjoined⟩ := isOver.joined_cases
    · rw [hjoined]
      exact ⟨.ok (), rfl, fun _ heq => (by cases heq), fun _ claim hclaim =>
        (h.intact hnone).2 claim hclaim state (contract.rely_refl state)⟩
    · have hmem : stop ∈ group.failures := hfailures ▸ List.mem_cons_self
      rw [hjoined]
      cases stop with
      | unfinished => exact absurd hmem hendless
      | failed error =>
        have hfailed := h.failed _ hmem state (contract.rely_refl state)
        exact ⟨.error error, rfl, fun other heq => Except.error.inj heq ▸ hfailed,
          fun heq => by cases heq⟩
  obtain ⟨units, hresult, hfailing, hclaims⟩ := hunits
  rw [hgathered, hresult]
  cases spawner with
  | ok value =>
    refine ⟨fun heq => (by cases heq), fun gathered heq => ?_⟩
    cases heq
    exact ⟨fun _ heq => (by cases heq), hfailing,
      fun _ hok => spawning state (contract.rely_refl state) (hclaims hok)⟩
  | error stop =>
    cases stop with
    | failed error =>
      refine ⟨fun heq => (by cases heq), fun gathered heq => ?_⟩
      cases heq
      exact ⟨fun other heq => Except.error.inj heq ▸ spawning state (contract.rely_refl state),
        hfailing, fun heq => by cases heq⟩
    | unfinished => exact ⟨fun _ => spawning, fun _ heq => by cases heq⟩

/-! ### Programs -/

/-- The units that were spawned so far, each with its claim, back the pledge: they keep to the
contract, and what was pledged holds once their claims do. -/
structure Pledge.Backed (pledge : Pledge σ) (Stands : τ → σ → Prop) (contract : Contract σ)
    (claims : List (Spawned τ × (σ → Prop))) (state : σ) : Prop where
  alone : pledge = none → claims = []
  fellow : pledge ≠ none → ∀ {state after}, contract.guarantee state after →
    contract.rely state after
  units : ∀ claim ∈ claims, claim.1.Honours Stands contract claim.2 state
  redeemed : ∀ later, contract.rely state later → (∀ claim ∈ claims, claim.2 later) →
    pledge.Redeemed later

theorem Pledge.Backed.empty {state : σ} : Pledge.Backed none Stands contract [] state :=
  ⟨fun _ => rfl, fun h => absurd rfl h, fun _ h => (by cases h), fun _ _ _ => trivial⟩

/-- A pledge remains backed. -/
theorem Pledge.Backed.after {pledge : Pledge σ} {claims : List (Spawned τ × (σ → Prop))}
    {state after : σ} (h : pledge.Backed Stands contract claims state)
    (change : contract.guarantee state after) : pledge.Backed Stands contract claims after := by
  cases pledge with
  | none =>
    obtain rfl := h.alone rfl
    exact .empty
  | some pledged =>
    have hrely := h.fellow (by simp) change
    exact ⟨h.alone, h.fellow, fun claim hclaim => (h.units claim hclaim).later hrely,
      fun later hlater => h.redeemed later (contract.rely_trans hrely hlater)⟩

namespace Program

variable {world : World τ} {responses : Responses σ} {α : Type} {pledge : Pledge σ}
  {post : α → σ → Prop}

/-- The run of a program goes as a contract says: it makes only what the contract allows, and the
units that have been spawned by its end keep to the contract. Once their claims hold, its own claim
holds. -/
def Executes (Stands : τ → σ → Prop) (contract : Contract σ) (pledge : Pledge σ)
    (post : α → σ → Prop) (state : σ) (run : Outcome α × τ × List (Spawned τ)) : Prop :=
  ∃ (after : σ) (claims : List (Spawned τ × (σ → Prop))), run.2.2 = claims.map Prod.fst ∧
    (pledge = none → claims = []) ∧
    (∀ claim ∈ claims, claim.1.Honours Stands contract claim.2 after) ∧
    Stands run.2.1 after ∧ contract.Makes state after ∧
    run.1.Meets contract
      (fun value later => (∀ claim ∈ claims, claim.2 later) → post value later) after

/-- A program that meets a contract is executed as the contract says. -/
theorem Meets.executes (heeds : world.Heeds responses Stands) {p : Program α} {host : τ} {state : σ}
    {claims : List (Spawned τ × (σ → Prop))} (h : p.Meets responses contract pledge post state)
    (stands : Stands host state) (backed : pledge.Backed Stands contract claims state) :
    Executes Stands contract pledge post state
      (p.runWith world host (claims.map Prod.fst)) := by
  induction p generalizing contract pledge host state claims with
  | done value =>
    exact ⟨state, claims, rfl, backed.alone, backed.units, stands, .refl,
      fun later hlater hclaims => h later hlater (backed.redeemed later hlater hclaims)⟩
  | fail error => exact ⟨state, claims, rfl, backed.alone, backed.units, stands, .refl, h⟩
  | unfinished => exact ⟨state, claims, rfl, backed.alone, backed.units, stands, .refl, h⟩
  | perform effect next ih =>
    obtain ⟨middle, answer, hstands⟩ := heeds.perform effect stands
    obtain ⟨hchange, hnext⟩ := h state _ middle (contract.rely_refl state) answer
    obtain ⟨after, claims', hspawned, halone, hunits, hafter, hmakes, houtcome⟩ :=
      ih _ hnext hstands (backed.after hchange)
    exact ⟨after, claims', hspawned, halone, hunits, hafter, .head hchange hmakes, houtcome⟩
  | spawn unit next ihunit ih =>
    obtain ⟨pledged, claim, rfl, hunit, hnext⟩ := h
    let spawned : Spawned τ :=
      { arrival := world.time host
        work := fun start host =>
          let ended := unit.runWith world (world.setTime host start) []
          (ended.1, world.time ended.2.1, ended.2.1) }
    have hrun : (Program.spawn unit next).runWith world host (claims.map Prod.fst) =
        next.runWith world host (claims.map Prod.fst ++ [spawned]) := rfl
    have hspawned : spawned.Honours Stands contract claim state := by
      intro start host later hlater hstands
      obtain ⟨after, claims', -, halone, -, hafter, hmakes, houtcome⟩ :=
        ihunit (hunit.later hlater) (heeds.setTime start hstands) .empty
      exact ⟨after, hafter, hmakes, houtcome.imp fun _ _ hclaim => hclaim (by simp [halone])⟩
    have hbacked : Pledge.Backed (some fun later => pledged later ∧ claim later) Stands contract
        (claims ++ [(spawned, claim)]) state := by
      refine ⟨fun heq => (by cases heq), fun _ => backed.fellow (by simp),
        List.forall_mem_append.2 ⟨backed.units, List.forall_mem_singleton.2 hspawned⟩,
        fun later hlater hclaims => ?_⟩
      obtain ⟨hclaims, hclaim⟩ := List.forall_mem_append.1 hclaims
      exact ⟨backed.redeemed later hlater hclaims, hclaim _ (List.mem_singleton_self _)⟩
    have hmap : claims.map Prod.fst ++ [spawned] = (claims ++ [(spawned, claim)]).map Prod.fst := by
      simp
    obtain ⟨after, claims', hall, -, hunits, hafter, hmakes, houtcome⟩ := ih hnext stands hbacked
    rw [hrun, hmap]
    exact ⟨after, claims', hall, fun heq => (by cases heq), hunits, hafter, hmakes, houtcome⟩
  | gather limit spawner next ihspawner ih =>
    obtain ⟨inner, goal, opens, hspawner, hnext⟩ := h
    have fellow : ∀ {state after}, inner.guarantee state after → inner.rely state after :=
      opens.fellow
    have hempty : Pledge.Backed (some fun _ => True) Stands inner [] state :=
      ⟨fun _ => rfl, fun _ => fellow, fun _ h => (by cases h), fun _ _ _ => trivial⟩
    obtain ⟨middle, units, hunits, -, honours, hmiddle, hmakes, houtcome⟩ :=
      ihspawner hspawner stands hempty
    rcases hrun : spawner.runWith world host [] with ⟨outcome, host', spawned⟩
    rw [List.map_nil, hrun] at hunits hmiddle houtcome
    obtain rfl : spawned = units.map Prod.fst := hunits
    obtain ⟨after, hmakes', hgroup⟩ :=
      TaskGroup.exists_honours_run fellow limit hmiddle honours
    have hrely := Contract.rely_of_makes fellow hmakes
    have hrely' := Contract.rely_of_makes fellow hmakes'
    have hjoin := inner.rely_trans hrely hrely'
    have hchange : contract.guarantee state after := opens.whole hjoin
    have hspawning : outcome.Meets inner
        (fun _ later => (∀ claim ∈ units.map Prod.snd, claim later) → goal later) after :=
      (houtcome.later hrely').imp fun _ later hgoal hclaims =>
        hgoal fun unit hunit => hclaims _ (List.mem_map_of_mem hunit)
    obtain ⟨hnone, hsome⟩ := gathered?_meets hgroup (TaskGroup.over_run ..) hspawning
    have hjoined := heeds.setTime
      ((TaskGroup.run limit (units.map Prod.fst) host').finishedAt (world.time host')) hgroup.stands
    simp only [Program.runWith, hrun]
    cases hgathered : gathered? outcome (TaskGroup.run limit (units.map Prod.fst) host') with
    | none =>
      exact ⟨after, claims, rfl, backed.alone, (backed.after hchange).units, hjoined,
        .single hchange, opens.endless (hnone hgathered)⟩
    | some gathered =>
      obtain ⟨last, claims', hspawned, halone, hunits, hlast, hmakes, houtcome⟩ :=
        ih gathered (hnext gathered after hjoin (hsome gathered hgathered)) hjoined
          (backed.after hchange)
      exact ⟨last, claims', hspawned, halone, hunits, hlast, .head hchange hmakes, houtcome⟩

/-- A program that meets a contract outside of a group makes only what the contract allows, and its
outcome is as the contract says. -/
theorem Meets.exists_run (heeds : world.Heeds responses Stands) {p : Program α} {host : τ}
    {state : σ} (h : p.Meets responses contract none post state) (stands : Stands host state) :
    ∃ after, Stands (p.run world host).2 after ∧ contract.Makes state after ∧
      (p.run world host).1.Meets contract post after := by
  obtain ⟨after, claims, -, halone, -, hafter, hmakes, houtcome⟩ :=
    h.executes heeds stands .empty
  exact ⟨after, hafter, hmakes, houtcome.imp fun _ _ hclaim => hclaim (by simp [halone])⟩

/-- A program that meets a contract comes to an end if the contract requires it. -/
theorem Meets.run_ne_unfinished (heeds : world.Heeds responses Stands) {p : Program α} {host : τ}
    {state : σ} (h : p.Meets responses contract none post state) (stands : Stands host state)
    (bounded : ¬contract.endless) : (p.run world host).1 ≠ .error .unfinished := by
  intro hstop
  obtain ⟨after, -, -, houtcome⟩ := h.exists_run heeds stands
  rw [hstop] at houtcome
  exact bounded houtcome

end Program

end HiveForum
