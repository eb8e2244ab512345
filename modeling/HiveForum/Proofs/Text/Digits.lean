import HiveForum.Text.Hex
import HiveForum.Text.Numeral
import Mathlib.Data.List.Basic
import Mathlib.Data.List.Induction

/-!
# Digits that are written and read

A number is read back from its digits, whatever their base, and what is read as a decimal number
is a run of digits of that value.

## Main results

* `Hex.number?_digits`: hexadecimal digits of a given width are read back.
* `Numeral.value?_eq_some_iff`: what is read as decimal digits, and as which number.
* `Numeral.value?_natural`: the decimal digits of a number are read back.
* `Numeral.parse?_eq_some_iff`: what is read as a number with an optional plus sign.
-/

namespace HiveForum

namespace Hex

theorem number?_append (cs : List Char) (c : Char) :
    number? (cs ++ [c]) = (number? cs).bind fun n => (digit? c).map (n * 16 + ·) := by
  simp [number?, List.foldlM_append]

theorem number?_digits_mod (width n : Nat) :
    number? (digits width n) = some (n % Nat.pow 16 width) := by
  induction width generalizing n with
  | zero => simp [digits, number?, Nat.mod_one]
  | succ width ih =>
    have hdigit : n % 16 < 16 := Nat.mod_lt _ (by decide)
    rw [digits, number?_append, ih, Option.bind_some, digit?_digit hdigit, Option.map_some,
      Nat.pow_eq, Nat.pow_eq, Nat.pow_succ, Nat.mul_comm (16 ^ width), Nat.mod_mul]
    exact congrArg some (by omega)

/-- A number that fits is read back from its digits. -/
theorem number?_digits {width n : Nat} (h : n < Nat.pow 16 width) :
    number? (digits width n) = some n := by
  rw [number?_digits_mod, Nat.mod_eq_of_lt h]

theorem digit?_lt {c : Char} {n : Nat} (h : digit? c = some n) : n < 16 := by
  unfold digit? at h
  simp only [Char.le_def, UInt32.le_iff_toNat_le] at h
  grind [Char.toNat]

/-- What is read as a number is digits only, and the number fits their count. -/
theorem digits_of_number? {cs : List Char} {n : Nat} (h : number? cs = some n) :
    (∀ c ∈ cs, (digit? c).isSome = true) ∧ n < Nat.pow 16 cs.length := by
  induction cs using List.reverseRecOn generalizing n with
  | nil =>
    cases h
    exact ⟨by simp, by decide⟩
  | append_singleton cs c ih =>
    rw [number?_append] at h
    obtain ⟨m, hm, h⟩ := Option.bind_eq_some_iff.1 h
    obtain ⟨d, hd, rfl⟩ := Option.map_eq_some_iff.1 h
    obtain ⟨hdigits, hlt⟩ := ih hm
    have hdigit := digit?_lt hd
    refine ⟨fun x hx => ?_, ?_⟩
    · rcases List.mem_append.1 hx with hx | hx
      · exact hdigits x hx
      · rw [List.mem_singleton.1 hx, hd]
        rfl
    · rw [List.length_append, List.length_singleton, Nat.pow_eq, Nat.pow_succ, ← Nat.pow_eq]
      omega

end Hex

namespace Numeral

theorem digit?_eq_some_iff {c : Char} {n : Nat} :
    digit? c = some n ↔ c.isDigit = true ∧ c.toNat - '0'.toNat = n := by
  have h : ('0' ≤ c ∧ c ≤ '9') ↔ c.isDigit = true := by
    simp [Char.isDigit, Char.le_def]
  unfold digit?
  split <;> simp_all

/-- What is read after a number that was read before is a run of digits, and the number is the one
that they continue. -/
theorem foldlM_digits_eq_some_iff {cs : List Char} {start n : Nat} :
    cs.foldlM (fun n c => (digit? c).map (n * 10 + ·)) start = some n ↔
      (∀ c ∈ cs, c.isDigit = true) ∧ Nat.ofDigitChars 10 cs start = n := by
  induction cs generalizing start with
  | nil => simp
  | cons c rest ih =>
    rw [List.foldlM_cons, Nat.ofDigitChars_cons]
    cases hdigit : digit? c with
    | none =>
      have hc : c.isDigit ≠ true := fun h => by
        rw [digit?_eq_some_iff.2 ⟨h, rfl⟩] at hdigit
        cases hdigit
      simp [hc]
    | some d =>
      obtain ⟨hc, rfl⟩ := digit?_eq_some_iff.1 hdigit
      simp only [Option.map_some, Option.bind_eq_bind, Option.bind_some, ih, List.mem_cons,
        forall_eq_or_imp, hc, true_and, Nat.mul_comm start]

/-- What is read as decimal digits is a run of digits, and the number is theirs. -/
theorem value?_eq_some_iff {cs : List Char} {n : Nat} :
    value? cs = some n ↔ (∀ c ∈ cs, c.isDigit = true) ∧ Nat.ofDigitChars 10 cs 0 = n :=
  foldlM_digits_eq_some_iff

theorem isDigit_of_mem_natural {n : Nat} {c : Char} (h : c ∈ natural n) : c.isDigit = true :=
  Nat.isDigit_of_mem_toDigits (by decide) (by decide) h

/-- A number is read back from its decimal digits. -/
theorem value?_natural (n : Nat) : value? (natural n) = some n :=
  value?_eq_some_iff.2 ⟨fun _ => isDigit_of_mem_natural, Nat.ofDigitChars_ten_toDigits⟩

/-- Only zero is written with a zero at the start. -/
theorem eq_zero_of_head?_natural {n : Nat} (h : (natural n).head? = some '0') : n = 0 := by
  -- A number of several digits starts as its tenth does.
  induction n using Nat.strongRecOn with
  | _ n ih =>
    rw [natural, Nat.toDigits_eq_if (by decide)] at h
    split at h
    · rename_i hlt
      rw [List.head?_cons, Option.some.injEq, Nat.digitChar_eq_zero] at h
      exact h
    · rename_i hle
      rw [List.head?_append_of_ne_nil _ Nat.toDigits_ne_nil] at h
      have hzero := ih (n / 10) (by omega) h
      omega

theorem afterPlus_cases (cs : List Char) : cs = afterPlus cs ∨ cs = '+' :: afterPlus cs := by
  unfold afterPlus
  split
  · exact .inr rfl
  · exact .inl rfl

theorem afterPlus_eq_self {cs : List Char} (h : ∀ c ∈ cs, c.isDigit = true) :
    afterPlus cs = cs := by
  unfold afterPlus
  split
  · exact absurd (h '+' List.mem_cons_self) (by decide)
  · rfl

/-- What is read as a number with an optional plus sign: a run of digits whose value is not too
large, alone or after the sign. -/
theorem parse?_eq_some_iff {largest n : Nat} {cs : List Char} :
    parse? largest cs = some n ↔
      ∃ digits, (cs = digits ∨ cs = '+' :: digits) ∧ digits ≠ [] ∧
        (∀ c ∈ digits, c.isDigit = true) ∧ Nat.ofDigitChars 10 digits 0 = n ∧ n ≤ largest := by
  have hread : parse? largest cs = some n ↔
      afterPlus cs ≠ [] ∧ value? (afterPlus cs) = some n ∧ n ≤ largest := by
    rw [parse?]
    split <;> simp_all [Option.filter_eq_some_iff]
  rw [hread, value?_eq_some_iff]
  constructor
  · rintro ⟨hne, ⟨hdigits, hvalue⟩, hle⟩
    exact ⟨afterPlus cs, afterPlus_cases cs, hne, hdigits, hvalue, hle⟩
  · rintro ⟨digits, rfl | rfl, hne, hdigits, hvalue, hle⟩
    · rw [afterPlus_eq_self hdigits]
      exact ⟨hne, ⟨hdigits, hvalue⟩, hle⟩
    · exact ⟨hne, ⟨hdigits, hvalue⟩, hle⟩

end Numeral

end HiveForum
