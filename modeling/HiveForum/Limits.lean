import HiveForum.Identity
import HiveForum.Text.Blank

/-!
# Limits on what users write and ask for

## Main definitions

* `Limit.body`, `Limit.itemTags`, `Limit.filterTags`, `Limit.reason`, `Limit.lookup`: the limits.
* `LimitError`: the ways to break one, each with its text.
* `checkBody`, `checkTagCount`, `checkReason`, `checkLookup`: the checks.

## Main results

* `checkBody_eq_ok_iff`, `checkLookup_eq_ok_iff`: what the checks accept.
-/

namespace HiveForum

namespace Limit

/-- The largest number of characters in a body. -/
def body : Nat := 10000

/-- The largest number of tags on an item. -/
def itemTags : Nat := 10

/-- The largest number of tags in a filter. -/
def filterTags : Nat := 25

/-- The largest number of characters in the reason of a report. -/
def reason : Nat := 500

/-- The largest number of items in one look-up of records. -/
def lookup : Nat := 100

end Limit

/-- The ways to break a limit. -/
inductive LimitError where
  | emptyBody
  /-- The body has more than `limit` characters. -/
  | bodyTooLong (limit : Nat)
  /-- There are more than `limit` tags. -/
  | tooManyTags (limit : Nat)
  /-- The reason of a report has more than `limit` characters. -/
  | reasonTooLong (limit : Nat)
  /-- The number of items looked up is not between one and `limit`. -/
  | lookupSize (limit : Nat)
  | duplicateContentId
deriving DecidableEq

/-- The text of the error. -/
def LimitError.message : LimitError → String
  | .emptyBody => "body must not be empty"
  | .bodyTooLong limit => s!"body exceeds {limit} characters"
  | .tooManyTags limit => s!"at most {limit} tags allowed"
  | .reasonTooLong limit => s!"report reason exceeds {limit} characters"
  | .lookupSize limit => s!"batch lookup needs between 1 and {limit} content ids"
  | .duplicateContentId => "duplicate content id in batch"

/-- A body has a character that is not blank, and at most `Limit.body` characters. -/
def checkBody (body : String) : Except LimitError Unit :=
  if Blank.trim body.toList = [] then .error .emptyBody
  else if Limit.body < body.toList.length then .error (.bodyTooLong Limit.body)
  else .ok ()

/-- There are at most `limit` tags. -/
def checkTagCount (count limit : Nat) : Except LimitError Unit :=
  if limit < count then .error (.tooManyTags limit) else .ok ()

/-- A reason that is given has at most `Limit.reason` characters. -/
def checkReason : Option String → Except LimitError Unit
  | none => .ok ()
  | some reason =>
    if Limit.reason < reason.toList.length then .error (.reasonTooLong Limit.reason) else .ok ()

/-- Between one and `Limit.lookup` items are looked up, each once. -/
def checkLookup (ids : List ContentId) : Except LimitError Unit :=
  if ids.isEmpty ∨ Limit.lookup < ids.length then .error (.lookupSize Limit.lookup)
  else if ids.Nodup then .ok ()
  else .error .duplicateContentId

/-- The accepted bodies. -/
theorem checkBody_eq_ok_iff {body : String} :
    checkBody body = .ok () ↔
      (∃ c ∈ body.toList, Blank.isBlank c = false) ∧ body.toList.length ≤ Limit.body := by
  unfold checkBody
  have htrim : Blank.trim body.toList = [] ↔ ∀ c ∈ body.toList, Blank.isBlank c = true :=
    Blank.trim_eq_nil_iff
  split
  · rename_i h
    have hall := htrim.1 h
    simp only [reduceCtorEq, false_iff, not_and]
    rintro ⟨c, hc, hblank⟩
    rw [hall c hc] at hblank
    cases hblank
  · rename_i h
    have hex : ∃ c ∈ body.toList, Blank.isBlank c = false := by
      apply Decidable.byContradiction
      intro hno
      refine h (htrim.2 fun c hc => ?_)
      cases hb : Blank.isBlank c
      · exact absurd ⟨c, hc, hb⟩ hno
      · rfl
    split <;> simp [hex] <;> omega

/-- The accepted look-ups. -/
theorem checkLookup_eq_ok_iff {ids : List ContentId} :
    checkLookup ids = .ok () ↔ 1 ≤ ids.length ∧ ids.length ≤ Limit.lookup ∧ ids.Nodup := by
  unfold checkLookup
  split
  · rename_i h
    simp only [reduceCtorEq, false_iff, not_and]
    intro h1 h2
    rcases h with h | h
    · rw [List.isEmpty_iff] at h
      subst h
      simp at h1
    · omega
  · rename_i h
    simp only [List.isEmpty_iff, not_or, Nat.not_lt] at h
    have hlen : 1 ≤ ids.length := by
      have := List.length_pos_iff.2 h.1
      omega
    split <;> simp_all

end HiveForum
