import HiveForum.Proofs.Engagement.Journal
import HiveForum.Proofs.Forum.Run

/-!
# Operations in turn

Operations are run one after another, each by itself, under the directory and the conditions of its
turn. A turn need not come to an end: whoever runs an operation may drop it anywhere, and the next
turn begins with what it has left behind. The journal lists the effects of all turns.

## Main definitions

* `Site.withDirectory`: a site with another directory.
* `Turn`: an operation with the directory and the conditions that it meets.
* `Turn.Fits`: the store is honest in the turn, and the hives of its directory are known.
* `Turn.Runs`: a run of the operation of a turn.
* `Chronicle`: what turns have made of the blank forum, with their journal.

## Main results

* `Turn.Runs.reachable`, `Turn.Runs.journaled_reachable`, `Turn.Runs.within_reachable`: a turn leads
  to a forum that can be reached.
* `Chronicle.reachable`: so do all turns together.
-/

namespace HiveForum

/-- The site with another directory. -/
def Site.withDirectory (site : Site) (directory : Directory) : Site :=
  { site with directory := directory }

/-- An operation that is run by itself, with the directory and the conditions that it meets. -/
structure Turn where
  directory : Directory
  conditions : Conditions
  invocation : Invocation

namespace Turn

/-- The store may refuse calls in the turn but denies nothing, and there are no other hives than
those of the site. -/
structure Fits (turn : Turn) (site : Site) : Prop where
  honest : turn.conditions.Honest
  known : ∀ hive, (turn.directory.hives.get? hive).isSome → (site.directory.hives.get? hive).isSome

/-- Where the operation of the turn is run. -/
def place (turn : Turn) (site : Site) : Site := site.withDirectory turn.directory

/-- The replies that the operation may get. Identifiers are drawn afresh, and are none of the hives
of the site. -/
def responses (turn : Turn) (site : Site) : Responses Forum :=
  ((turn.place site).responses turn.conditions).within (Forum.DistinctIds site)

/-- A run of the operation of the turn, entered into a journal, as far as it gets. -/
def Runs (turn : Turn) (site : Site) (state : Forum × Journal)
    (thread : Thread turn.invocation.operation.Result) (after : Forum × Journal) : Prop :=
  Thread.Steps (turn.responses site).journaled turn.invocation.thread.2 state thread after

end Turn

/-- What turns have made of the blank forum, with their journal. -/
inductive Chronicle (site : Site) : Forum × Journal → Prop where
  | blank : Chronicle site (.blank, [])
  | turn {state after : Forum × Journal} {turn : Turn}
      {thread : Thread turn.invocation.operation.Result} (chronicle : Chronicle site state)
      (fits : turn.Fits site) (run : turn.Runs site state thread after) : Chronicle site after

theorem Responses.of_journaled {σ : Type} {responses : Responses σ} {effect : Effect}
    {reply : effect.Reply} {state after : σ × List (Event σ)}
    (answer : responses.journaled.Answers effect state reply after) :
    responses.Answers effect state.1 reply after.1 := answer.1

theorem Thread.Steps.map {σ τ : Type} {responses : Responses σ} {responses' : Responses τ}
    {view : σ → τ} (shows : ∀ {effect : Effect} {state after : σ} {reply : effect.Reply},
      responses.Answers effect state reply after →
        responses'.Answers effect (view state) reply (view after))
    {α : Type} {thread thread' : Thread α} {state after : σ}
    (steps : Thread.Steps responses thread state thread' after) :
    Thread.Steps responses' thread (view state) thread' (view after) := by
  induction steps with
  | none => exact .none
  | more _ step ih => exact .more ih (step.map shows)

theorem Thread.Steps.of_journaled {σ α : Type} {responses : Responses σ} {thread thread' : Thread α}
    {state after : σ × List (Event σ)}
    (steps : Thread.Steps responses.journaled thread state thread' after) :
    Thread.Steps responses thread state.1 thread' after.1 :=
  steps.map Responses.of_journaled

theorem Thread.Steps.exists_journal {σ α : Type} {responses : Responses σ}
    {thread thread' : Thread α} {state after : σ}
    (steps : Thread.Steps responses thread state thread' after) (journal : List (Event σ)) :
    ∃ journal', Thread.Steps responses.journaled thread (state, journal) thread'
      (after, journal') := by
  induction steps with
  | none => exact ⟨journal, .none⟩
  | more _ step ih =>
    obtain ⟨middle, steps⟩ := ih
    obtain ⟨last, step⟩ := step.exists_journal middle
    exact ⟨last, steps.more step⟩

namespace Turn

variable {site : Site} {turn : Turn} {state after : Forum × Journal}
  {thread : Thread turn.invocation.operation.Result}

/-- What happens in a turn may happen at the site, where anything may go wrong. -/
theorem answer_wild (fits : turn.Fits site) {effect : Effect} {reply : effect.Reply}
    {forum later : Forum} (answer : (turn.responses site).Answers effect forum reply later) :
    ((site.responses .wild).within (Forum.DistinctIds site)).Answers effect forum reply later := by
  obtain ⟨answer, distinct⟩ := answer
  refine ⟨?_, distinct⟩
  cases answer with
  | carriedOut h => exact .carriedOut h
  | failed h => exact .failed h
  | refused => exact .refused trivial
  | lost _ error h => exact .lost trivial error h
  | skipped _ h split => exact .skipped trivial h split
  | role caller hive =>
    refine .reassigned trivial fun role hrole => fits.known _ ?_
    have given : (turn.place site).Answer .calm (.membership caller hive) forum
        ((turn.place site).directory.checkMember caller hive) forum := .role caller hive forum
    exact (hrole ▸ given).hive_of_role
  | reassigned reassigns => exact absurd reassigns fits.honest.steady
  | stamp => exact .stamp _ _
  | draw => exact .draw _ _
  | word => exact .word _ _
  | passed => exact .passed _ _
  | expired => exact .expired trivial _ _
  | notified => exact .notified _ _

/-- A turn leads from a forum that can be reached to one. -/
theorem Runs.reachable (run : turn.Runs site state thread after) (fits : turn.Fits site)
    (reachable : state.1.Reachable site) : after.1.Reachable site :=
  reachable.steps (run.of_journaled.imp fun answer => answer_wild fits answer)

/-- All along a turn the forum can be reached. -/
theorem Runs.journaled_reachable (run : turn.Runs site state thread after) (fits : turn.Fits site)
    (reachable : state.1.Reachable site) :
    Thread.Steps ((turn.responses site).within (Forum.Reachable site)).journaled
      turn.invocation.thread.2 state thread after := by
  induction run with
  | none => exact .none
  | more steps step ih =>
    have later := Runs.reachable (steps.more step) fits reachable
    exact .more (ih reachable) (step.imp fun _ _ answer => ⟨⟨answer.1, later⟩, answer.2⟩)

/-- The same without the journal. -/
theorem Runs.within_reachable (run : turn.Runs site state thread after) (fits : turn.Fits site)
    (reachable : state.1.Reachable site) :
    Thread.Steps ((turn.responses site).within (Forum.Reachable site))
      turn.invocation.thread.2 state.1 thread after.1 :=
  (run.journaled_reachable fits reachable).of_journaled

theorem Runs.created_prefix (run : turn.Runs site state thread after) :
    state.1.created <+: after.1.created := by
  have grows : ∀ {effect : Effect} {before later : Forum × Journal} {reply : effect.Reply},
      (turn.responses site).journaled.Answers effect before reply later →
        state.1.created <+: before.1.created → state.1.created <+: later.1.created :=
    fun answer h => h.trans (Site.Answer.created_prefix answer.1.1)
  induction run with
  | none => exact List.prefix_refl _
  | more _ step ih => exact step.preserves grows (ih grows)

end Turn

/-- What turns lead to can be reached. -/
theorem Chronicle.reachable {site : Site} {state : Forum × Journal} (h : Chronicle site state) :
    state.1.Reachable site := by
  induction h with
  | blank => exact @Forum.Reachable.run site [] [] _ .none
  | turn _ fits run ih => exact run.reachable fits ih

end HiveForum
