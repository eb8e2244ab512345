/-!
# Decimal numerals

## Main definitions

* `Numeral.natural`, `Numeral.integer`: the written form of a number.
* `Numeral.parse?`: reads the digits of a number that is at most a given largest one.

## Main results

* `Numeral.parse?_le`: a number that is read is in range.
-/

namespace HiveForum.Numeral

/-- The decimal digits of a natural number, without leading zeros. -/
def natural (n : Nat) : List Char := Nat.toDigits 10 n

/-- The decimal digits of an integer, after a minus sign if it is negative. -/
def integer : Int → List Char
  | .ofNat n => natural n
  | .negSucc n => '-' :: natural (n + 1)

/-- The value of an ASCII decimal digit. -/
def digit? (c : Char) : Option Nat :=
  if '0' ≤ c ∧ c ≤ '9' then some (c.toNat - '0'.toNat) else none

/-- The value of a list of decimal digits. -/
def value? (cs : List Char) : Option Nat :=
  cs.foldlM (fun n c => (digit? c).map (n * 10 + ·)) 0

/-- The characters after a leading plus sign, if there is one. -/
def afterPlus : List Char → List Char
  | '+' :: rest => rest
  | cs => cs

/-- Reads an optional plus sign and one or more decimal digits, whose value is at most `largest`. -/
def parse? (largest : Nat) (cs : List Char) : Option Nat :=
  if (afterPlus cs).isEmpty then none else (value? (afterPlus cs)).filter (· ≤ largest)

/-- A number that is read is in range. -/
theorem parse?_le {largest n : Nat} {cs : List Char} (h : parse? largest cs = some n) :
    n ≤ largest := by
  unfold parse? at h
  split at h
  · cases h
  · exact of_decide_eq_true (Option.filter_eq_some_iff.1 h).2

end HiveForum.Numeral
