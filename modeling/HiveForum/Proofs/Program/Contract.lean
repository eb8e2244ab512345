import HiveForum.Program.Interleaving
import Mathlib.Logic.Relation

/-!
# Contracts of programs that run beside others

Between two effects of a program the state may be changed by others. A contract says which changes
the program relies on others to make at most, and which changes its own effects are guaranteed to
make at most. A program meets a contract if this holds however the others interleave, whatever the
responses to its effects are, and if a claim holds where it ends.

A unit that is spawned into a group is an asset: once all units of the group have ended well, what
each of them establishes holds. The claim of a spawning program may therefore rest on a *pledge*,
the conjunction of what the units spawned so far establish.

## Main definitions

* `Contract`: what a program relies on and guarantees, and what holds when it fails.
* `Program.Meets`: a program meets a contract from a state on.
* `Thread.Meets`: a program under way meets a contract.

## Main results

* `Program.Meets.bind`, `Program.Meets.attempt`, `Program.Meets.forkAll`: composing programs that
  meet a contract.
* `Thread.Step.meets`, `Thread.Steps.meets`, `Thread.Pool.Steps.meets`: steps keep the contract and
  make no other change than guaranteed.
* `Thread.Pool.Steps.meets_head`: so do those of a thread among others of which nothing is known.
* `Thread.Meets.of_result?`: what holds where a program ends.
-/

namespace HiveForum

universe u v

variable {σ : Type}

/-- The terms on which a program runs beside others. -/
structure Contract (σ : Type) where
  /-- The changes that others may make between two effects of the program. -/
  rely : σ → σ → Prop
  /-- The changes that one effect of the program may make. -/
  guarantee : σ → σ → Prop
  /-- What holds from a failure of the program on. -/
  failing : OperationError → σ → Prop
  /-- Whether the program may go beyond the bound that it was built with. -/
  endless : Prop
  /-- Others may leave the state as it is. -/
  rely_refl : ∀ state, rely state state
  /-- Others may make one change after another. -/
  rely_trans : ∀ {state middle after}, rely state middle → rely middle after → rely state after

namespace Contract

/-- What may become of the state while a program runs: others change it, and so does the program. -/
def Moves (contract : Contract σ) : σ → σ → Prop :=
  Relation.ReflTransGen fun state after =>
    contract.rely state after ∨ contract.guarantee state after

/-- A contract for the members of a group that a program opens: each member relies on the changes
of those outside and of its fellows, and all of them together make none that the program may not
make. -/
structure Opens (outer inner : Contract σ) : Prop where
  rely : ∀ {state after}, outer.rely state after → inner.rely state after
  fellow : ∀ {state after}, inner.guarantee state after → inner.rely state after
  whole : ∀ {state after}, inner.rely state after → outer.guarantee state after
  endless : inner.endless → outer.endless

theorem Opens.guarantee {outer inner : Contract σ} (h : outer.Opens inner) {state after : σ}
    (change : inner.guarantee state after) : outer.guarantee state after :=
  h.whole (h.fellow change)

theorem Opens.rely_of_change {outer inner : Contract σ} (h : outer.Opens inner) {state after : σ}
    (change : after = state ∨ inner.guarantee state after) : inner.rely state after := by
  obtain rfl | change := change
  · exact inner.rely_refl _
  · exact h.fellow change

/-- The contract with another claim about failures. -/
def withFailing (contract : Contract σ) (failing : OperationError → σ → Prop) : Contract σ :=
  { contract with failing := failing }

end Contract

/-- What the units that were spawned so far establish once they have all ended well; none outside
of a group. -/
abbrev Pledge (σ : Type) : Type := Option (σ → Prop)

/-- The pledge is redeemed: there is none, or what was pledged holds. -/
def Pledge.Redeemed : Pledge σ → σ → Prop
  | none, _ => True
  | some pledge, state => pledge state

/-- What follows for a group from the contracts of its members. -/
structure Gathered.Meets (contract : Contract σ) (goal : σ → Prop) (gathered : Gathered)
    (state : σ) : Prop where
  spawner : ∀ error, gathered.spawner = .error error → contract.failing error state
  units : ∀ error, gathered.units = .error error → contract.failing error state
  goal : gathered.spawner = .ok () → gathered.units = .ok () → goal state

namespace Program

/-- The program meets a contract from a state on, and ends with a value for which the claim `post`
holds as long as the pledge is redeemed. -/
def Meets (responses : Responses σ) : {α : Type} → Program α → Contract σ → Pledge σ →
    (α → σ → Prop) → σ → Prop
  | _, .done value, contract, pledge, post, state =>
    ∀ later, contract.rely state later → pledge.Redeemed later → post value later
  | _, .fail error, contract, _, _, state =>
    ∀ later, contract.rely state later → contract.failing error later
  | _, .unfinished, contract, _, _, _ => contract.endless
  | _, .perform effect next, contract, pledge, post, state =>
    ∀ later reply after, contract.rely state later → responses.Answers effect later reply after →
      contract.guarantee later after ∧ (next reply).Meets responses contract pledge post after
  | _, .spawn unit next, contract, pledge, post, state =>
    ∃ pledged claim, pledge = some pledged ∧
      unit.Meets responses contract none (fun _ => claim) state ∧
      next.Meets responses contract (some fun later => pledged later ∧ claim later) post state
  | _, .gather _ spawner next, contract, pledge, post, state =>
    ∃ inner goal, contract.Opens inner ∧
      spawner.Meets responses inner (some fun _ => True) (fun _ => goal) state ∧
      ∀ gathered later, inner.rely state later → gathered.Meets inner goal later →
        (next gathered).Meets responses contract pledge post later

variable {responses : Responses σ} {contract : Contract σ} {pledge : Pledge σ} {α β : Type}

/-- What others do between two effects does not matter. -/
theorem Meets.later {p : Program α} {post : α → σ → Prop} {state later : σ}
    (h : p.Meets responses contract pledge post state) (rely : contract.rely state later) :
    p.Meets responses contract pledge post later := by
  induction p generalizing contract pledge state with
  | done value => exact fun after hrely => h after (contract.rely_trans rely hrely)
  | fail error => exact fun after hrely => h after (contract.rely_trans rely hrely)
  | unfinished => exact h
  | perform effect next =>
    exact fun after reply final hrely => h after reply final (contract.rely_trans rely hrely)
  | spawn unit next ihunit ihnext =>
    obtain ⟨pledged, claim, hpledge, hunit, hnext⟩ := h
    exact ⟨pledged, claim, hpledge, ihunit hunit rely, ihnext hnext rely⟩
  | gather limit spawner next ihspawner =>
    obtain ⟨inner, goal, hopens, hspawner, hnext⟩ := h
    refine ⟨inner, goal, hopens, ihspawner hspawner (hopens.rely rely), ?_⟩
    exact fun gathered after hrely => hnext gathered after
      (inner.rely_trans (hopens.rely rely) hrely)

/-- One program after another: the second one starts from where the claim of the first one holds as
long as the pledge that has been made by then is redeemed. -/
theorem Meets.bind {p : Program α} {f : α → Program β} {claim : α → σ → Prop}
    {post : β → σ → Prop} {state : σ} (h : p.Meets responses contract pledge claim state)
    (hf : ∀ value (made : Pledge σ) middle, contract.Moves state middle →
      made.isSome = pledge.isSome → (∀ later, made.Redeemed later → pledge.Redeemed later) →
      (∀ later, contract.rely middle later → made.Redeemed later → claim value later) →
      (f value).Meets responses contract made post middle) :
    (p.bind f).Meets responses contract pledge post state := by
  induction p generalizing pledge state with
  | done value => exact hf value pledge state .refl rfl (fun _ => id) h
  | fail error => exact h
  | unfinished => exact h
  | perform effect next ih =>
    intro later reply after hrely answer
    obtain ⟨hguarantee, hnext⟩ := h later reply after hrely answer
    refine ⟨hguarantee, ih reply hnext fun value made middle hmoves => ?_⟩
    exact hf value made middle (.head (.inl hrely) (.head (.inr hguarantee) hmoves))
  | spawn unit next _ ih =>
    obtain ⟨pledged, part, rfl, hunit, hnext⟩ := h
    refine ⟨pledged, part, rfl, hunit, ih hnext ?_⟩
    intro value made middle hmoves hsome himp hclaim
    exact hf value made middle hmoves hsome (fun later hmade => (himp later hmade).1) hclaim
  | gather limit spawner next _ ih =>
    obtain ⟨inner, goal, hopens, hspawner, hnext⟩ := h
    refine ⟨inner, goal, hopens, hspawner, fun gathered later hrely hg => ?_⟩
    refine ih gathered (hnext gathered later hrely hg) fun value made middle hmoves => ?_
    exact hf value made middle (.head (.inr (hopens.whole hrely)) hmoves)

/-- One program after another, if the first one spawns nothing. Its claim holds from where it ends
on, whatever others do. -/
theorem Meets.andThen {p : Program α} {f : α → Program β} {claim : α → σ → Prop}
    {post : β → σ → Prop} {state : σ} (h : p.Meets responses contract none claim state)
    (hf : ∀ value middle, contract.Moves state middle →
      (∀ later, contract.rely middle later → claim value later) →
      (f value).Meets responses contract pledge post middle) :
    (p.bind f).Meets responses contract pledge post state := by
  induction p generalizing state with
  | done value => exact hf value state .refl fun later hrely => h later hrely trivial
  | fail error => exact h
  | unfinished => exact h
  | perform effect next ih =>
    intro later reply after hrely answer
    obtain ⟨hguarantee, hnext⟩ := h later reply after hrely answer
    refine ⟨hguarantee, ih reply hnext fun value middle hmoves => ?_⟩
    exact hf value middle (.head (.inl hrely) (.head (.inr hguarantee) hmoves))
  | spawn unit next =>
    obtain ⟨pledged, part, hpledge, -⟩ := h
    cases hpledge
  | gather limit spawner next _ ih =>
    obtain ⟨inner, goal, hopens, hspawner, hnext⟩ := h
    refine ⟨inner, goal, hopens, hspawner, fun gathered later hrely hg => ?_⟩
    refine ih gathered (hnext gathered later hrely hg) fun value middle hmoves => ?_
    exact hf value middle (.head (.inr (hopens.whole hrely)) hmoves)

theorem Meets.weaken {p : Program α} {claim post : α → σ → Prop} {state : σ}
    (h : p.Meets responses contract pledge claim state)
    (imp : ∀ value later, claim value later → post value later) :
    p.Meets responses contract pledge post state := by
  rw [← bind_done p]
  exact h.bind fun value made middle _ _ _ hclaim later hrely hredeemed =>
    imp value later (hclaim later hrely hredeemed)

/-- An attempt ends with the value of the program, or with its failure as a value. -/
theorem Meets.attempt {p : Program α} {failing : OperationError → σ → Prop}
    {claim : α → σ → Prop} {state : σ}
    (h : p.Meets responses (contract.withFailing failing) none claim state) :
    p.attempt.Meets responses contract none
      (fun result later =>
        (∀ value, result = .ok value → claim value later) ∧
          ∀ error, result = .error error → failing error later) state := by
  induction p generalizing state with
  | done value =>
    intro later hrely _
    refine ⟨fun other heq => ?_, fun error heq => by cases heq⟩
    cases heq
    exact h later hrely trivial
  | fail error =>
    intro later hrely _
    refine ⟨fun value heq => (by cases heq), fun other heq => ?_⟩
    cases heq
    exact h later hrely
  | unfinished => exact h
  | perform effect next ih =>
    intro later reply after hrely answer
    obtain ⟨hguarantee, hnext⟩ := h later reply after hrely answer
    exact ⟨hguarantee, ih reply hnext⟩
  | spawn unit next =>
    obtain ⟨pledged, part, hpledge, -⟩ := h
    cases hpledge
  | gather limit spawner next _ ih =>
    obtain ⟨inner, goal, hopens, hspawner, hnext⟩ := h
    refine ⟨inner, goal, ⟨hopens.rely, hopens.fellow, hopens.whole, hopens.endless⟩,
      hspawner, ?_⟩
    exact fun gathered later hrely hg => ih gathered (hnext gathered later hrely hg)

/-- Several units of one group: what follows may rest on what each of them establishes. -/
theorem Meets.forkAll {ι : Type} {items : List ι} {unit : ι → Program Unit} {rest : Program α}
    {claim : ι → σ → Prop} {post : α → σ → Prop} {state : σ} {pledged : σ → Prop}
    (hunits : ∀ item ∈ items,
      (unit item).Meets responses contract none (fun _ => claim item) state)
    (hrest : ∀ made : σ → Prop,
      (∀ later, made later → pledged later ∧ ∀ item ∈ items, claim item later) →
        rest.Meets responses contract (some made) post state) :
    ((Program.forkAll (items.map unit)).bind fun _ => rest).Meets responses contract (some pledged)
      post state := by
  induction items generalizing pledged with
  | nil => exact hrest pledged fun later h => ⟨h, fun _ hmem => by cases hmem⟩
  | cons first items ih =>
    refine ⟨pledged, claim first, rfl, hunits first List.mem_cons_self, ?_⟩
    refine ih (fun item hitem => hunits item (List.mem_cons_of_mem _ hitem)) fun made hmade => ?_
    refine hrest made fun later h => ?_
    obtain ⟨⟨hpledged, hfirst⟩, hitems⟩ := hmade later h
    exact ⟨hpledged, List.forall_mem_cons.2 ⟨hfirst, hitems⟩⟩

end Program

namespace Thread

/-- A program under way meets a contract. In an open group the claims of the units that wait and of
those that run make up what is still missing of the pledge, unless a unit has failed. -/
inductive Meets (responses : Responses σ) : {α : Type} → Thread α → Contract σ → Pledge σ →
    (α → σ → Prop) → σ → Prop where
  | running {α : Type} {program : Program α} {contract : Contract σ} {pledge : Pledge σ}
      {post : α → σ → Prop} {state : σ}
      (h : program.Meets responses contract pledge post state) :
      Meets responses (.running program) contract pledge post state
  | gathering {α : Type} {limit : Nat} {spawner : Thread Unit} {waiting : List (Program Unit)}
      {units : List (Thread Unit)} {failure : Option OperationError}
      {next : Gathered → Program α} {contract : Contract σ} {pledge : Pledge σ}
      {post : α → σ → Prop} {state : σ} {inner : Contract σ} {goal pledged : σ → Prop}
      (waitingClaims : List (Program Unit × (σ → Prop)))
      (unitClaims : List (Thread Unit × (σ → Prop))) (opens : contract.Opens inner)
      (hwaiting : waitingClaims.map Prod.fst = waiting) (hunits : unitClaims.map Prod.fst = units)
      (spawning : Meets responses spawner inner (some pledged) (fun _ => goal) state)
      (waits : ∀ unit ∈ waitingClaims,
        unit.1.Meets responses inner none (fun _ => unit.2) state)
      (runs : ∀ unit ∈ unitClaims, Meets responses unit.1 inner none (fun _ => unit.2) state)
      (missing : failure = none → ∀ later, inner.rely state later →
        (∀ unit ∈ waitingClaims, unit.2 later) → (∀ unit ∈ unitClaims, unit.2 later) →
        pledged later)
      (failed : ∀ error, failure = some error → ∀ later, inner.rely state later →
        inner.failing error later)
      (follows : ∀ gathered later, inner.rely state later → gathered.Meets inner goal later →
        (next gathered).Meets responses contract pledge post later) :
      Meets responses (.gathering limit spawner waiting units failure next) contract pledge post
        state

variable {responses : Responses σ} {α : Type} {contract : Contract σ} {pledge : Pledge σ}
  {post : α → σ → Prop}

theorem Meets.later {thread : Thread α} {state later : σ}
    (h : thread.Meets responses contract pledge post state) (rely : contract.rely state later) :
    thread.Meets responses contract pledge post later := by
  induction h with
  | running h => exact .running (h.later rely)
  | gathering _ _ opens hwaiting hunits _ waits _ missing failed follows ihspawner ihunits =>
    have hrely := opens.rely rely
    refine .gathering _ _ opens hwaiting hunits (ihspawner hrely)
      (fun unit hu => (waits unit hu).later hrely) (fun unit hu => ihunits unit hu hrely) ?_ ?_ ?_
    · exact fun hnone after h => missing hnone after (Contract.rely_trans _ hrely h)
    · exact fun error hsome after h => failed error hsome after (Contract.rely_trans _ hrely h)
    · exact fun gathered after h => follows gathered after (Contract.rely_trans _ hrely h)

/-- Where a program that meets its contract ends, its claim holds. -/
theorem Meets.of_result? {thread : Thread α} {state : σ}
    (h : thread.Meets responses contract pledge post state) :
    (∀ value, thread.result? = some (.ok value) → pledge.Redeemed state → post value state) ∧
      ∀ error, thread.result? = some (.error error) → contract.failing error state := by
  cases h with
  | gathering => exact ⟨fun _ hresult => (by cases hresult), fun _ hresult => (by cases hresult)⟩
  | running h =>
    rename_i program
    cases program with
    | done value =>
      refine ⟨fun other heq redeemed => ?_, fun error heq => by cases heq⟩
      cases heq
      exact h state (contract.rely_refl state) redeemed
    | fail error =>
      refine ⟨fun value heq => (by cases heq), fun other heq => ?_⟩
      cases heq
      exact h state (contract.rely_refl state)
    | _ => exact ⟨fun _ hresult => (by cases hresult), fun _ hresult => (by cases hresult)⟩

private theorem split_of_map_fst {ι : Type u} {κ : Type v} {pairs : List (ι × κ)}
    {before later : List ι} {x : ι} (h : pairs.map Prod.fst = before ++ x :: later) :
    ∃ front y back, pairs = front ++ (x, y) :: back ∧ front.map Prod.fst = before ∧
      back.map Prod.fst = later := by
  obtain ⟨front, rest, rfl, hfront, hrest⟩ := List.map_eq_append_iff.1 h
  obtain ⟨⟨z, y⟩, back, rfl, hz, hback⟩ := List.map_eq_cons_iff.1 hrest
  obtain rfl : z = x := hz
  exact ⟨front, y, back, rfl, hfront, hback⟩

/-- Every step of a thread that meets a contract keeps the contract, and leaves the state as it is
or changes it as guaranteed. -/
theorem Step.meets {thread thread' : Thread α} {state after : σ}
    (step : Step responses thread state thread' after)
    (h : thread.Meets responses contract pledge post state) :
    (after = state ∨ contract.guarantee state after) ∧
      thread'.Meets responses contract pledge post after := by
  induction step generalizing contract pledge with
  | perform answer =>
    obtain ⟨h⟩ := h
    obtain ⟨hguarantee, hnext⟩ := h _ _ _ (contract.rely_refl _) answer
    exact ⟨.inr hguarantee, .running hnext⟩
  | gather =>
    obtain ⟨h⟩ := h
    obtain ⟨inner, goal, hopens, hspawner, hnext⟩ := h
    refine ⟨.inl rfl, .gathering [] [] hopens rfl rfl
      (.running hspawner) (by simp) (by simp) (fun _ _ _ _ _ => trivial) (by simp) hnext⟩
  | spawner _ ih =>
    obtain _ | ⟨waitingClaims, unitClaims, hopens, hwaiting, hunits, hspawning, hwaits, hruns,
      hmissing, hfailed, hfollows⟩ := h
    obtain ⟨hchange, hspawning'⟩ := ih hspawning
    have hrely := hopens.rely_of_change hchange
    refine ⟨hchange.imp_right hopens.guarantee, .gathering _ _ hopens hwaiting hunits hspawning'
      (fun unit hu => (hwaits unit hu).later hrely) (fun unit hu => (hruns unit hu).later hrely)
      ?_ ?_ ?_⟩
    · exact fun hnone later h => hmissing hnone later (Contract.rely_trans _ hrely h)
    · exact fun error hsome later h => hfailed error hsome later (Contract.rely_trans _ hrely h)
    · exact fun gathered later h => hfollows gathered later (Contract.rely_trans _ hrely h)
  | @spawn _ _ unit =>
    obtain _ | ⟨waitingClaims, unitClaims, hopens, hwaiting, hunits, hspawning, hwaits, hruns,
      hmissing, hfailed, hfollows⟩ := h
    obtain ⟨pledged, claim, hpledge, hunit, hrest⟩ | _ := hspawning
    cases hpledge
    refine ⟨.inl rfl, .gathering (waitingClaims ++ [(unit, claim)]) unitClaims hopens
      (by simp [hwaiting]) hunits (.running hrest) ?_ hruns ?_ hfailed hfollows⟩
    · simpa [or_imp, forall_and] using ⟨fun a b h => hwaits (a, b) h, hunit⟩
    · intro hnone later hrely hw hu
      refine ⟨hmissing hnone later hrely (fun u h => hw u (List.mem_append_left _ h)) hu, ?_⟩
      exact hw (unit, claim) (List.mem_append_right _ (List.mem_singleton_self _))
  | @start _ _ _ unit =>
    obtain _ | ⟨waitingClaims, unitClaims, hopens, hwaiting, hunits, hspawning, hwaits, hruns,
      hmissing, hfailed, hfollows⟩ := h
    obtain ⟨front, claim, back, rfl, rfl, rfl⟩ := split_of_map_fst hwaiting
    simp only [List.forall_mem_append, List.forall_mem_cons] at hwaits hmissing
    obtain ⟨hfront, hunit, hback⟩ := hwaits
    refine ⟨.inl rfl, .gathering (front ++ back)
      (unitClaims ++ [(.running unit, claim)]) hopens (by simp) (by simp [hunits])
      hspawning (List.forall_mem_append.2 ⟨hfront, hback⟩) ?_ ?_ hfailed hfollows⟩
    · exact List.forall_mem_append.2 ⟨hruns, List.forall_mem_singleton.2 (.running hunit)⟩
    · intro hnone later hrely hw hu
      obtain ⟨hw₁, hw₂⟩ := List.forall_mem_append.1 hw
      obtain ⟨hu₁, hu₂⟩ := List.forall_mem_append.1 hu
      exact hmissing trivial later hrely
        ⟨hw₁, hu₂ _ (List.mem_singleton_self _), hw₂⟩ hu₁
  | skip =>
    obtain _ | ⟨waitingClaims, unitClaims, hopens, hwaiting, hunits, hspawning, hwaits, hruns,
      hmissing, hfailed, hfollows⟩ := h
    obtain ⟨front, claim, back, rfl, rfl, rfl⟩ := split_of_map_fst hwaiting
    simp only [List.forall_mem_append, List.forall_mem_cons] at hwaits
    obtain ⟨hfront, -, hback⟩ := hwaits
    exact ⟨.inl rfl, .gathering (front ++ back) _ hopens (by simp) hunits
      hspawning (List.forall_mem_append.2 ⟨hfront, hback⟩) hruns (by simp) hfailed hfollows⟩
  | @unit _ _ _ _ unit' _ _ _ _ _ _ _ _ ih =>
    obtain _ | ⟨waitingClaims, unitClaims, hopens, hwaiting, hunits, hspawning, hwaits, hruns,
      hmissing, hfailed, hfollows⟩ := h
    obtain ⟨front, claim, back, rfl, rfl, rfl⟩ := split_of_map_fst hunits
    simp only [List.forall_mem_append, List.forall_mem_cons] at hruns hmissing
    obtain ⟨hfront, hunit, hback⟩ := hruns
    obtain ⟨hchange, hunit'⟩ := ih hunit
    have hrely := hopens.rely_of_change hchange
    refine ⟨hchange.imp_right hopens.guarantee,
      .gathering _ (front ++ (unit', claim) :: back) hopens hwaiting (by simp)
        (hspawning.later hrely) (fun unit hu => (hwaits unit hu).later hrely) ?_ ?_ ?_ ?_⟩
    · simp only [List.forall_mem_append, List.forall_mem_cons]
      exact ⟨fun unit hu => (hfront unit hu).later hrely, hunit',
        fun unit hu => (hback unit hu).later hrely⟩
    · intro hnone later h hw hu
      simp only [List.forall_mem_append, List.forall_mem_cons] at hu
      exact hmissing hnone later (Contract.rely_trans _ hrely h) hw hu
    · exact fun error hsome later h => hfailed error hsome later (Contract.rely_trans _ hrely h)
    · exact fun gathered later h => hfollows gathered later (Contract.rely_trans _ hrely h)
  | finish =>
    obtain _ | ⟨waitingClaims, unitClaims, hopens, hwaiting, hunits, hspawning, hwaits, hruns,
      hmissing, hfailed, hfollows⟩ := h
    obtain ⟨front, claim, back, rfl, rfl, rfl⟩ := split_of_map_fst hunits
    simp only [List.forall_mem_append, List.forall_mem_cons] at hruns hmissing
    obtain ⟨hfront, hunit, hback⟩ := hruns
    refine ⟨.inl rfl, .gathering _ (front ++ back) hopens hwaiting (by simp)
      hspawning hwaits (List.forall_mem_append.2 ⟨hfront, hback⟩) ?_ hfailed hfollows⟩
    intro hnone later hrely hw hu
    have hclaim := (hunit.later hrely).of_result?.1 () rfl trivial
    obtain ⟨hu₁, hu₂⟩ := List.forall_mem_append.1 hu
    exact hmissing hnone later hrely hw ⟨hu₁, hclaim, hu₂⟩
  | @fail _ _ _ _ _ _ failure error =>
    obtain _ | ⟨waitingClaims, unitClaims, hopens, hwaiting, hunits, hspawning, hwaits, hruns,
      hmissing, hfailed, hfollows⟩ := h
    obtain ⟨front, claim, back, rfl, rfl, rfl⟩ := split_of_map_fst hunits
    simp only [List.forall_mem_append, List.forall_mem_cons] at hruns
    obtain ⟨hfront, hunit, hback⟩ := hruns
    refine ⟨.inl rfl, .gathering _ (front ++ back) hopens hwaiting (by simp)
      hspawning hwaits (List.forall_mem_append.2 ⟨hfront, hback⟩) ?_ ?_ hfollows⟩
    · intro hnone
      cases failure <;> cases hnone
    · intro other hsome later hrely
      cases failure with
      | some first => exact hfailed other hsome later hrely
      | none =>
        obtain rfl : error = other := Option.some.inj hsome
        exact (hunit.later hrely).of_result?.2 error rfl
  | @join _ _ _ failure _ result _ hresult =>
    obtain _ | ⟨waitingClaims, unitClaims, hopens, hwaiting, hunits, hspawning, hwaits, hruns,
      hmissing, hfailed, hfollows⟩ := h
    obtain rfl := List.map_eq_nil_iff.1 hwaiting
    obtain rfl := List.map_eq_nil_iff.1 hunits
    rename_i inner goal pledged
    refine ⟨.inl rfl, .running (hfollows _ _ (inner.rely_refl _) ⟨?_, ?_, ?_⟩)⟩
    · exact fun error heq => hspawning.of_result?.2 error (hresult.trans (congrArg some heq))
    · intro error heq
      cases failure with
      | none => cases heq
      | some first => exact Except.error.inj heq ▸ hfailed first rfl _ (inner.rely_refl _)
    · intro hok hunitsOk
      cases failure with
      | some first => cases hunitsOk
      | none =>
        exact hspawning.of_result?.1 () (hresult.trans (congrArg some hok))
          (hmissing rfl _ (inner.rely_refl _) (by simp) (by simp))

/-- A thread that runs alone keeps its contract, and what the guarantee keeps. -/
theorem Steps.meets {thread thread' : Thread α} {state after : σ}
    (steps : Steps responses thread state thread' after)
    (h : thread.Meets responses contract pledge post state) :
    thread'.Meets responses contract pledge post after ∧
      ∀ Holds : σ → Prop, (∀ {before later}, contract.guarantee before later → Holds before →
        Holds later) → Holds state → Holds after := by
  induction steps with
  | none => exact ⟨h, fun _ _ hstate => hstate⟩
  | more _ step ih =>
    obtain ⟨hmiddle, hkept⟩ := ih h
    obtain ⟨hchange, hafter⟩ := step.meets hmiddle
    refine ⟨hafter, fun Holds hguarantee hstate => ?_⟩
    obtain rfl | hchange := hchange
    · exact hkept Holds hguarantee hstate
    · exact hguarantee hchange (hkept Holds hguarantee hstate)

/-- Threads side by side that meet one contract, which lets each of them do what the others rely
on, go on meeting it; the run as a whole is a change that the contract relies on. -/
theorem Pool.Steps.meets {pool pool' : Pool} {state after : σ}
    (fellow : ∀ {before later}, contract.guarantee before later → contract.rely before later)
    (steps : Pool.Steps responses pool state pool' after)
    (h : ∀ thread ∈ pool, thread.2.Meets responses contract .none (fun _ _ => True) state) :
    contract.rely state after ∧
      ∀ thread ∈ pool', thread.2.Meets responses contract .none (fun _ _ => True) after := by
  induction steps with
  | none => exact ⟨contract.rely_refl _, h⟩
  | more _ step ih =>
    obtain ⟨hrely, hpool⟩ := ih h
    obtain ⟨step⟩ := step
    simp only [List.forall_mem_append, List.forall_mem_cons] at hpool ⊢
    obtain ⟨hbefore, hthread, hlater⟩ := hpool
    obtain ⟨hchange, hthread'⟩ := step.meets hthread
    have hstep := hchange.elim (fun heq => heq ▸ contract.rely_refl _) fellow
    refine ⟨contract.rely_trans hrely hstep, ?_, hthread', ?_⟩
    · exact fun thread hmem => (hbefore thread hmem).later hstep
    · exact fun thread hmem => (hlater thread hmem).later hstep

/-- A thread among others goes on meeting its contract if it relies on no less than what any effect
of any of them changes. -/
theorem Pool.Steps.meets_head {thread : Thread α} {others pool : Pool} {state after : σ}
    (tolerated : ∀ {effect : Effect} {before later : σ} {reply : effect.Reply},
      responses.Answers effect before reply later → contract.rely before later)
    (steps : Pool.Steps responses (⟨α, thread⟩ :: others) state pool after)
    (h : thread.Meets responses contract pledge post state) :
    ∃ (thread' : Thread α) (others' : Pool), pool = ⟨α, thread'⟩ :: others' ∧
      thread'.Meets responses contract pledge post after := by
  induction steps with
  | none => exact ⟨thread, others, rfl, h⟩
  | more _ step ih =>
    obtain ⟨thread', others', rfl, hthread⟩ := ih h
    generalize hmiddle : (⟨α, thread'⟩ :: others' : Pool) = middle at step
    obtain @⟨_, moved, moved', _, _, _, _, step⟩ := step
    rcases List.cons_eq_append_iff.1 hmiddle with ⟨rfl, hhead⟩ | ⟨front, rfl, -⟩
    · obtain ⟨hmoved, rfl⟩ := List.cons.inj hhead
      cases hmoved
      exact ⟨moved', _, rfl, (step.meets hthread).2⟩
    · refine ⟨thread', _, rfl, hthread.later ?_⟩
      exact step.preserves (fun answer hbefore => contract.rely_trans hbefore (tolerated answer))
        (contract.rely_refl _)

end Thread

end HiveForum
