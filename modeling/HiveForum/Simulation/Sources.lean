import HiveForum.Identity
import HiveForum.Numeric.Saturating

/-!
# Clocks and identifiers

## Main definitions

* `WallClock.micros`: the time that a wall clock shows, as a time stamp.
* `StampClock`: time stamps that never repeat or go backwards.
* `IdSource`: a supply of identifiers.

## Main results

* `StampClock.lt_next`: a time stamp is later than the one before, short of the last one.
-/

namespace HiveForum

/-- The time stamp of a wall clock that shows `micros` microseconds since the epoch: zero before
the epoch, and never past the last time stamp. -/
def WallClock.micros (micros : Int) : Int64 := Saturating.int64 (max 0 micros)

/-- A clock for time stamps. -/
structure StampClock where
  /-- What the wall clock shows, in microseconds since the epoch. -/
  wall : Int
  /-- The latest time stamp taken. -/
  last : Int64 := 0
deriving DecidableEq, Inhabited

namespace StampClock

/-- The next time stamp: the wall clock's, or the one after the latest. -/
def next (clock : StampClock) : Int64 :=
  max (WallClock.micros clock.wall) (Saturating.add clock.last 1)

/-- Takes the next time stamp. -/
def tick (clock : StampClock) : Int64 × StampClock :=
  (clock.next, { clock with last := clock.next })

theorem toInt_max_ge (a b : Int64) : b.toInt ≤ (max a b).toInt := by
  have h : max a b = if a ≤ b then b else a := rfl
  rw [h]
  split
  · exact Int.le_refl _
  · rename_i hab
    rw [Int64.le_iff_toInt_le] at hab
    omega

/-- A time stamp is later than the one before, short of the last one. -/
theorem lt_next {clock : StampClock} (h : clock.last.toInt < 9223372036854775807) :
    clock.last.toInt < clock.next.toInt := by
  have h1 := toInt_max_ge (WallClock.micros clock.wall) (Saturating.add clock.last 1)
  have h2 : -9223372036854775808 ≤ clock.last.toInt := Int64.le_toInt clock.last
  rw [Saturating.toInt_add] at h1
  unfold Saturating.clamp at h1
  simp at h1
  unfold next
  omega

end StampClock

/-- A supply of identifiers: those given, then the numbers from one on, each marked as randomly
drawn. -/
structure IdSource where
  given : List Uuid := []
  used : Nat := 0
deriving DecidableEq, Inhabited

/-- Draws an identifier. -/
def IdSource.draw (source : IdSource) : Uuid × IdSource :=
  match source.given with
  | id :: rest => (id.version4, { source with given := rest })
  | [] => ((Uuid.ofNat (source.used + 1)).version4, { source with used := source.used + 1 })

end HiveForum
