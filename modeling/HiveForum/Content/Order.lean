import HiveForum.Identity

/-!
# Index positions and scan order

The items of a scope are listed along one of two indexes. A position in an index is a sort value
together with the item's identifier, so that items with one sort value still have an order.

## Main definitions

* `SortKey`, `Direction`: the index of a listing and the way it is walked.
* `IndexKey`: a position in an index.
* `Direction.compare`, `Direction.isAfter`: the order in which a walk visits positions.

## Main results

* `Direction.isAfter_iff`: a position is after another when the walk visits it later.
-/

namespace HiveForum

open Std

/-- The index that a listing is served from. -/
inductive SortKey where
  | created
  | lastActivity
deriving DecidableEq, Inhabited

/-- The number of an index in a cursor. -/
def SortKey.tag : SortKey → UInt8
  | .created => 1
  | .lastActivity => 2

/-- The way an index is walked. -/
inductive Direction where
  | ascending
  | descending
deriving DecidableEq, Inhabited

/-- The number of a direction in a cursor. -/
def Direction.tag : Direction → UInt8
  | .ascending => 1
  | .descending => 2

/-- A position in an index, ordered by sort value first and identifier second. -/
structure IndexKey where
  sortValue : Int64
  id : ContentId
deriving DecidableEq, Inhabited

namespace IndexKey

instance : Ord IndexKey :=
  ⟨compareLex (compareOn IndexKey.sortValue) (compareOn IndexKey.id)⟩

instance : TransOrd IndexKey :=
  inferInstanceAs (TransCmp (compareLex (compareOn IndexKey.sortValue) (compareOn IndexKey.id)))

instance : LawfulEqOrd IndexKey where
  eq_of_compare {a b} h := by
    have h : (compare a.sortValue b.sortValue).then (compare a.id b.id) = .eq := h
    rw [Ordering.then_eq_eq] at h
    obtain ⟨av, ai⟩ := a
    obtain ⟨bv, bi⟩ := b
    obtain rfl : av = bv := LawfulEqOrd.eq_of_compare h.1
    obtain rfl : ai = bi := LawfulEqOrd.eq_of_compare h.2
    rfl

end IndexKey

namespace Direction

/-- Compares two positions the way a walk in this direction visits them. -/
def compare (direction : Direction) (a b : IndexKey) : Ordering :=
  match direction with
  | .ascending => Ord.compare a b
  | .descending => Ord.compare b a

/-- Whether a walk in this direction visits `candidate` after `position`. -/
def isAfter (direction : Direction) (candidate position : IndexKey) : Bool :=
  direction.compare candidate position == .gt

instance (direction : Direction) : TransCmp direction.compare where
  eq_swap {a b} := by
    cases direction
    · change Ord.compare a b = (Ord.compare b a).swap
      exact OrientedCmp.eq_swap
    · change Ord.compare b a = (Ord.compare a b).swap
      exact OrientedCmp.eq_swap
  isLE_trans {a b c} h₁ h₂ := by
    cases direction
    · change (Ord.compare a c).isLE = true
      have h₁ : (Ord.compare a b).isLE = true := h₁
      exact TransCmp.isLE_trans h₁ h₂
    · change (Ord.compare c a).isLE = true
      have h₂ : (Ord.compare c b).isLE = true := h₂
      exact TransCmp.isLE_trans h₂ h₁

instance (direction : Direction) : LawfulEqCmp direction.compare where
  eq_of_compare {a b} h := by
    cases direction
    · have h : Ord.compare a b = .eq := h
      exact LawfulEqOrd.eq_of_compare h
    · have h : Ord.compare b a = .eq := h
      exact (LawfulEqOrd.eq_of_compare h).symm

/-- A position is after another when the walk visits the other one first. -/
theorem isAfter_iff {direction : Direction} {candidate position : IndexKey} :
    direction.isAfter candidate position = true ↔ direction.compare position candidate = .lt := by
  unfold isAfter
  rw [beq_iff_eq]
  exact OrientedCmp.gt_iff_lt

end Direction

end HiveForum
