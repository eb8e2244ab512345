import HiveForum.Proofs.Postgres.Transacting

/-!
# Rows of unknown kinds

An item is a post or a comment. A row whose kind is anything else is never read as an item: every
call that reads it fails with an error of the database, inside a transaction or outside of one.

## Main definitions

* `Sql.Row.OfUnknownKind`: a row is of neither kind.
* `Postgres.itemRows`: the rows of an answer that a call reads as items.

## Main results

* `Sql.Row.OfUnknownKind.ofRow`: such a row stands for no item.
* `Sql.Row.OfUnknownKind.answer`: a call that reads such a row fails.
-/

namespace HiveForum

open Sql

/-- The text that is to say of which kind an item is names no kind. -/
def Sql.Row.OfUnknownKind (row : Row) : Prop :=
  ∃ kind, row.value? .kind = some (.text kind) ∧ kind ≠ "post" ∧ kind ≠ "comment"

namespace Postgres

variable {σ α : Type} {peer : Peer σ} {state : σ} {query : Query} {answer : Answered}

/-- The rows of the first answer of a call that it reads as items. Where one row is expected,
further ones are ignored. -/
def itemRows : Request → Answered → List Row
  | .queryContent _, answer => answer.rows
  | .getContent _, answer | .adjustCounts _ _, answer | .markReviewed _, answer
  | .setPinned _ _, answer | .commitVote _ _ _, answer | .commitReport _ _ _, answer =>
    answer.rows.take 1
  | _, _ => []

/-- The first statement that was sent for a call has been answered. -/
def FirstAnswered (peer : Peer σ) (sent : List Command) (state : σ) (answer : Answered) : Prop :=
  ((queries (peer.exchanges sent state).1).head?.map Prod.snd) = some (.ok answer)

theorem value_one {read : Answered → Except StoreError α}
    (h : FirstAnswered peer ((one query read).run peer state).1.sent state answer) :
    ((one query read).run peer state).1.value = read answer := by
  have hreply : (peer.reply (.query query) state).1 = .ok answer := Option.some.inj h
  change (answered (peer.reply (.query query) state).1).bind read = read answer
  rw [hreply]
  rfl

theorem value_transaction {next : Answered → Dialogue α} {error : StoreError}
    (h : FirstAnswered peer ((Plan.transaction (.ask query next)).run peer state).1.sent state
      answer)
    (aborts : next answer = .abort error) :
    ((Plan.transaction (.ask query next)).run peer state).1.value = .error error := by
  rcases hbegin : peer.reply .begin state with ⟨failure | opened, middle⟩
  · simp [FirstAnswered, Plan.run, hbegin, Peer.exchanges] at h
  · rcases hreply : peer.reply (.query query) middle with ⟨failure | other, after⟩
    · simp [FirstAnswered, Plan.run, hbegin, Dialogue.run, hreply, Peer.exchanges] at h
    · simp only [FirstAnswered, Plan.run, hbegin, Dialogue.run, hreply, Peer.exchanges,
        queries_cons_begin, queries_cons_query, List.head?_cons, Option.map_some, Option.some.injEq,
        Except.ok.injEq] at h
      subst h
      simp only [Plan.run, hbegin, Dialogue.run, hreply, aborts]

end Postgres

namespace Sql.Row.OfUnknownKind

open Postgres

variable {row : Row} (h : row.OfUnknownKind)

include h

/-- A row of an unknown kind stands for no item. -/
theorem ofRow : ∃ reason, ContentItem.ofRow row = .error (.database reason) := by
  cases hread : ContentItem.ofRow row with
  | error error =>
    obtain ⟨reason, rfl⟩ := FailsInDatabase.itemOfRow row error hread
    exact ⟨reason, rfl⟩
  | ok item =>
    obtain ⟨kind, hkind, hpost, hcomment⟩ := h
    rw [(ContentItem.ofRow_eq_ok_iff.1 hread).kind] at hkind
    cases hkind
    cases hitem : item.kind
    · exact absurd (congrArg ContentKind.name hitem) hpost
    · exact absurd (congrArg ContentKind.name hitem) hcomment

theorem itemOf {answer : Answered} (hrow : row ∈ answer.rows.take 1) :
    ∃ reason, itemOf answer = .error (.database reason) := by
  obtain ⟨rows, affected⟩ := answer
  cases rows with
  | nil => cases hrow
  | cons first rows =>
    obtain rfl := List.mem_singleton.1 hrow
    exact h.ofRow

/-- Rows are not read as items if one of them is of an unknown kind. -/
theorem everyRow {answer : Answered} (hrow : row ∈ answer.rows) :
    ∃ reason, everyRow ContentItem.ofRow answer = .error (.database reason) := by
  rw [Postgres.everyRow]
  generalize answer.rows = rows at hrow
  induction rows with
  | nil => cases hrow
  | cons first rows ih =>
    rw [List.mapM_cons]
    cases hfirst : ContentItem.ofRow first with
    | error error =>
      obtain ⟨reason, rfl⟩ := FailsInDatabase.itemOfRow first error hfirst
      exact ⟨reason, rfl⟩
    | ok item =>
      obtain rfl | hrow := List.mem_cons.1 hrow
      · obtain ⟨reason, herror⟩ := h.ofRow
        cases hfirst.symm.trans herror
      · obtain ⟨reason, hrest⟩ := ih hrow
        rw [hrest]
        exact ⟨reason, rfl⟩

/-- A call that reads a row of an unknown kind fails with an error of the database. -/
theorem answer (store : Store) {σ : Type} (peer : Peer σ) (state : σ) {request : Request}
    {answer : Answered}
    (first : FirstAnswered peer (store.answer peer request state).1.sent state answer)
    (hrow : row ∈ itemRows request answer) :
    ∃ reason, (store.answer peer request state).1.value = .error (.database reason) := by
  cases hopen : store.isOpen with
  | false =>
    rw [Store.answer, hopen] at first
    cases first
  | true =>
    have hrun : store.answer peer request state = (plan request).run peer state := if_pos hopen
    rw [hrun] at first ⊢
    cases request with
    | queryContent query =>
      obtain ⟨reason, hread⟩ := h.everyRow hrow
      by_cases hlimit : query.limit = 0
      · rw [plan, if_pos hlimit] at first
        cases first
      · rw [plan, if_neg hlimit] at first ⊢
        rw [value_one first, hread]
        exact ⟨reason, rfl⟩
    | getContent | adjustCounts | markReviewed | setPinned =>
      obtain ⟨reason, hread⟩ := h.itemOf hrow
      exact ⟨reason, (value_one first).trans hread⟩
    | commitVote | commitReport =>
      obtain ⟨reason, hread⟩ := h.itemOf hrow
      refine ⟨reason, value_transaction first ?_⟩
      simp only [hread, Dialogue.read]
    | _ => cases hrow

end Sql.Row.OfUnknownKind

end HiveForum
