import HiveForum.Proofs.Forum.Plain
import HiveForum.Proofs.Program.Clock

/-!
# Operations that last

Listings and deletions walk over the store within a bound. Whatever the store holds, and whatever it
answers, they do not reach their bound before as many calls in a row have been answered: each page
of a walk takes a call, and so does each level that a deletion goes down.

## Main definitions

* `Program.Spends`: a program gives a value only after a call has been answered.

## Main results

* `Program.spends_collect`: a page of items takes a call.
* `Program.lasts_cascade`: a cascade lasts as long as its bounds.
* `Operation.lasts`: an operation lasts as long as its bound.
-/

namespace HiveForum

namespace Program

variable {α β : Type} {settings : Settings} {calls : Nat}

/-- Where nothing is cut off, a program lasts for any number of calls. -/
theorem Plain.lasts {p : Program α} (h : p.Plain) (calls : Nat) : p.Lasts calls := by
  induction h generalizing calls with
  | done => trivial
  | fail => trivial
  | perform _ ih => exact fun reply => ih reply _

/-- What follows the program lasts if it lasts for one call less after a value, which is given only
after a call has been answered. -/
def Spends (p : Program α) (calls : Nat) : Prop :=
  ∀ (β : Type) (f : Except OperationError α → Program β),
    (∀ value, (f (.ok value)).Lasts calls) → (∀ error, (f (.error error)).Lasts (calls + 1)) →
      (p.attempt.bind f).Lasts (calls + 1)

theorem spends_call (request : Request) : (call request).Spends calls := by
  intro β f value error reply
  cases reply with
  | ok answer => exact value answer
  | error failure => exact error _

theorem Spends.unlessNotFound {p : Program α} (h : p.Spends calls) {f : Option α → Program β}
    (found : ∀ value, (f (some value)).Lasts calls) (absent : (f none).Lasts (calls + 1)) :
    ((HiveForum.unlessNotFound p).bind f).Lasts (calls + 1) := by
  rw [HiveForum.unlessNotFound]
  change ((p.attempt.bind _).bind f).Lasts _
  rw [bind_assoc]
  refine h _ _ found fun error => ?_
  cases error with
  | notFound => exact absent
  | _ => trivial

/-! ### Pages -/

/-- A page is collected in rounds of one call each. -/
theorem lasts_collectFrom {scan : Scan} {rounds : Nat} (enough : calls ≤ rounds)
    (startAfter : Option IndexKey) (held : List ContentItem) :
    (collectFrom settings scan rounds startAfter held).Lasts calls := by
  induction rounds generalizing calls startAfter held with
  | zero => exact Nat.le_zero.1 enough
  | succ rounds ih =>
    rw [collectFrom]
    intro reply
    cases reply with
    | error error => trivial
    | ok page =>
      simp only [ofExcept, done_bind]
      split
      · trivial
      · split
        · exact ih (Nat.sub_le_of_le_add enough) _ _
        · trivial

/-- A page of items takes at least one of its rounds. -/
theorem spends_collectFrom {scan : Scan} {rounds : Nat} (enough : calls < rounds)
    (startAfter : Option IndexKey) (held : List ContentItem) :
    (collectFrom settings scan rounds startAfter held).Spends calls := by
  intro β f value error
  induction rounds generalizing calls startAfter held with
  | zero => exact absurd enough (Nat.not_lt_zero _)
  | succ rounds ih =>
    rw [collectFrom]
    intro reply
    cases reply with
    | error failure => exact error _
    | ok page =>
      change Lasts _ calls
      simp only [ofExcept, done_bind]
      split
      · exact value _
      · split
        · cases calls with
          | zero => exact lasts_zero _
          | succ calls =>
            exact ih (Nat.lt_of_succ_lt_succ enough) _ _ (fun held => (value held).mono (by omega))
              fun failure => (error failure).mono (by omega)
        · exact value _

theorem spends_collect {scan : Scan} {rounds : Nat} (enough : calls < rounds) :
    (collect settings rounds scan).Spends calls := spends_collectFrom enough _ _

/-! ### Operations -/

theorem lasts_listContent {rounds : Nat} (enough : calls ≤ rounds) (caller : Caller)
    (hive : ScopeId) (request : ListRequest) :
    (listContent settings rounds caller hive request).Lasts calls := by
  have hitems : (listItems settings rounds request).Lasts calls :=
    ((plain_ofExcept _ _).lasts _).bind fun _ => ((plain_ofExcept _ _).lasts _).bind fun _ =>
      (lasts_collectFrom enough _ _).bind fun _ => trivial
  rw [listContent]
  refine ((plain_authorize caller hive).lasts _).bind fun role => ?_
  dsimp only
  split
  · refine ((plain_call _).lasts _).bind fun post => ?_
    split
    · trivial
    · exact hitems
  · exact hitems

theorem plain_deleteBatchFrom (bounds : BackoffSettings) (left : Nat)
    (pending : List EngagementKey) : (deleteBatchFrom bounds left pending).Plain := by
  induction left generalizing pending with
  | zero =>
    rw [deleteBatchFrom]
    refine (plain_tryCall _).bind fun result => ?_
    split
    · exact .done ()
    · exact (plain_ofExcept _ _).bind fun _ => .fail _
  | succ left ih =>
    rw [deleteBatchFrom]
    refine (plain_tryCall _).bind fun result => ?_
    split
    · exact .done ()
    · exact (plain_ofExcept _ _).bind fun rest => .perform fun _ => .perform fun paused =>
        (plain_ofExcept _ paused).bind fun _ => ih rest

theorem lasts_spawnRecords {content : ContentId} {pages : Nat} (enough : calls ≤ pages)
    (startAfter : Option UserId) :
    (spawnRecords settings content pages startAfter).Lasts calls := by
  induction pages generalizing calls startAfter with
  | zero => exact Nat.le_zero.1 enough
  | succ pages ih =>
    cases calls with
    | zero => exact lasts_zero _
    | succ calls =>
      rw [spawnRecords]
      refine (spends_call _).unlessNotFound (fun page => ?_) trivial
      have hbatch : (deleteBatch settings.backoff (page.records.map (·.key))).Lasts calls :=
        (plain_deleteBatchFrom _ _ _).lasts calls
      dsimp only
      cases page.lastEvaluated with
      | none =>
        split
        · exact ⟨hbatch, trivial⟩
        · trivial
      | some user =>
        have hrest := ih (Nat.le_of_succ_le_succ enough) (some user)
        split
        · exact ⟨hbatch, hrest⟩
        · exact hrest

/-- An enumeration of items lasts if the units that it spawns last for all but one of the calls,
which has been answered before. -/
theorem lasts_spawnChildren {rounds pages : Nat} {scope : ScopeId}
    {unit : ContentItem → Program Unit} (rounds_le : calls ≤ rounds) (pages_le : calls ≤ pages)
    (hunit : ∀ fewer < calls, ∀ item, (unit item).Lasts fewer) (startAfter : Option IndexKey) :
    (spawnChildren settings rounds scope unit pages startAfter).Lasts calls := by
  induction pages generalizing calls startAfter with
  | zero => exact Nat.le_zero.1 pages_le
  | succ pages ih =>
    cases calls with
    | zero => exact lasts_zero _
    | succ calls =>
      rw [spawnChildren]
      refine (spends_collect rounds_le).unlessNotFound (fun collected => ?_) trivial
      refine Lasts.forkAll (fun item _ => hunit calls (Nat.lt_succ_self calls) item) ?_
      split
      · trivial
      · exact ih (Nat.le_of_succ_le rounds_le) (Nat.le_of_succ_le_succ pages_le)
          (fun fewer hfewer => hunit fewer (Nat.lt_succ_of_lt hfewer)) _

/-- A cascade lasts as long as it may go through pages and down levels. -/
theorem lasts_cascade {pages depth : Nat} (pages_le : calls ≤ pages) (depth_le : calls ≤ depth)
    (key : ContentKey) (kind : ContentKind) :
    (cascade settings pages depth key kind).Lasts calls := by
  induction depth generalizing calls key kind with
  | zero => exact Nat.le_zero.1 depth_le
  | succ depth ih =>
    rw [cascade]
    have hunit : ∀ fewer < calls, ∀ child : ContentItem, Lasts (do
        let _ ← cascade settings pages depth child.key child.kind) fewer :=
      fun fewer hfewer child =>
        (ih (by omega) (by omega) child.key child.kind).bind fun _ => trivial
    refine ⟨?_, fun gathered => ?_⟩
    · dsimp only
      split
      · exact (lasts_spawnChildren pages_le pages_le hunit none).bind fun _ =>
          lasts_spawnRecords pages_le none
      · exact lasts_spawnRecords pages_le none
    · refine Plain.lasts ?_ _
      refine (plain_ofExcept _ _).bind fun _ => (plain_ofExcept _ _).bind fun _ =>
        (plain_tryCall _).bind fun result => ?_
      cases result with
      | ok _ => exact .done true
      | error error =>
        dsimp only
        split
        · exact .done false
        · exact .fail _

theorem lasts_deleteContent {horizon : Nat} (enough : calls ≤ horizon) (caller : Caller)
    (target : Target) : (deleteContent settings horizon caller target).Lasts calls := by
  have hload : (unlessNotFound (loadTarget target)).Plain := by
    refine Plain.bind ?_ fun result => ?_
    · exact (plain_loadTarget target).attempt
    · split
      · exact .done _
      · exact .done _
      · exact .fail _
  rw [deleteContent]
  refine ((plain_authorize _ _).lasts _).bind fun role => (hload.lasts _).bind fun found => ?_
  cases found with
  | none => trivial
  | some item =>
    dsimp only
    split
    · trivial
    · refine (lasts_cascade enough enough _ _).bind fun deleted => ?_
      split
      · exact ((plain_tryCall _).bind fun _ => .done ()).lasts _
      · trivial

end Program

/-- An operation lasts as long as its bound. -/
theorem Operation.lasts (op : Operation) (settings : Settings) (horizon : Nat) :
    (op.program settings horizon).Lasts horizon := by
  cases hwalks : op.walks with
  | false => exact (Operation.plain hwalks settings horizon).lasts horizon
  | true =>
    cases op with
    | deleteContent caller target => exact Program.lasts_deleteContent (Nat.le_refl _) _ _
    | listContent caller hive request => exact Program.lasts_listContent (Nat.le_refl _) _ _ _
    | _ => cases hwalks

end HiveForum
