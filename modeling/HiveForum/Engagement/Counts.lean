import HiveForum.Content.Item
import HiveForum.Numeric.Saturating

/-!
# Changes of an item's counts

A change adds a signed number to each count of an item. No count falls below zero.

## Main definitions

* `CountChange`: the number added to each count.
* `CountChange.applyTo`: the item after a change.

## Main results

* `CountChange.toInt_floorAdd`: a count after a change, as an integer.
-/

namespace HiveForum

/-- Signed numbers to be added to the counts of an item. -/
structure CountChange where
  upVotes : Int64 := 0
  downVotes : Int64 := 0
  comments : Int64 := 0
  reports : Int64 := 0
deriving DecidableEq, Inhabited

namespace CountChange

/-- A change of the number of comments. -/
def ofComments (delta : Int64) : CountChange := { comments := delta }

/-- Whether no count is changed. -/
def isZero (change : CountChange) : Bool := decide (change = {})

/-- The sum, moved into the range and up to zero. -/
def floorAdd (count delta : Int64) : Int64 := max (Saturating.add count delta) 0

/-- The item with its counts changed. -/
def applyTo (change : CountChange) (item : ContentItem) : ContentItem :=
  { item with
    upVotes := floorAdd item.upVotes change.upVotes
    downVotes := floorAdd item.downVotes change.downVotes
    comments := floorAdd item.comments change.comments
    reports := floorAdd item.reports change.reports }

theorem toInt_max_zero (n : Int64) : (max n 0).toInt = max n.toInt 0 := by
  have h : max n 0 = if n ≤ 0 then 0 else n := rfl
  rw [h]
  split
  · rename_i hle
    rw [Int64.le_iff_toInt_le] at hle
    simp at hle ⊢
    omega
  · rename_i hle
    rw [Int64.le_iff_toInt_le] at hle
    simp at hle
    omega

/-- A changed count is the sum, at least zero and at most the largest word. -/
theorem toInt_floorAdd (count delta : Int64) :
    (floorAdd count delta).toInt = max 0 (min 9223372036854775807 (count.toInt + delta.toInt)) := by
  unfold floorAdd
  rw [toInt_max_zero, Saturating.toInt_add]
  unfold Saturating.clamp
  omega

end CountChange

end HiveForum
