/-!
# Saturating arithmetic

Results that leave the range of a fixed-width word are replaced by the nearest end of the range.

## Main definitions

* `Saturating.int64`: the signed 64-bit word nearest to an integer.
* `Saturating.add`, `Saturating.sub`: sum and difference of signed 64-bit words.
* `Saturating.mul`: product of unsigned 64-bit words.

## Main results

* `Saturating.toInt_int64`: the value of the nearest word.
* `Saturating.toNat_mul`: the value of the product.
-/

namespace HiveForum.Saturating

/-- The integer moved into the range of signed 64-bit words. -/
def clamp (n : Int) : Int := max (-9223372036854775808) (min 9223372036854775807 n)

/-- The signed 64-bit word nearest to `n`. -/
def int64 (n : Int) : Int64 := Int64.ofInt (clamp n)

/-- The sum, or the nearest end of the range. -/
def add (a b : Int64) : Int64 := int64 (a.toInt + b.toInt)

/-- The difference, or the nearest end of the range. -/
def sub (a b : Int64) : Int64 := int64 (a.toInt - b.toInt)

/-- The product, or the largest word. -/
def mul (a b : UInt64) : UInt64 := UInt64.ofNat (min (a.toNat * b.toNat) 18446744073709551615)

/-- The nearest word has the value of the integer moved into the range. -/
theorem toInt_int64 (n : Int) : (int64 n).toInt = clamp n := by
  unfold int64
  apply Int64.toInt_ofInt_of_le <;> unfold clamp <;> omega

theorem toInt_add (a b : Int64) : (add a b).toInt = clamp (a.toInt + b.toInt) := toInt_int64 _

theorem toInt_sub (a b : Int64) : (sub a b).toInt = clamp (a.toInt - b.toInt) := toInt_int64 _

/-- The product has the value of the exact product, cut at the largest word. -/
theorem toNat_mul (a b : UInt64) :
    (mul a b).toNat = min (a.toNat * b.toNat) 18446744073709551615 := by
  unfold mul
  rw [UInt64.toNat_ofNat']
  apply Nat.mod_eq_of_lt
  omega

end HiveForum.Saturating
