import HiveForum.Schedule.Backoff
import Mathlib.Logic.Basic

/-!
# The delays of a backoff ladder

Whatever the bounds of a ladder are, also if they are the wrong way round or zero, a delay lies
between the smaller bound and the step of its attempt, and is at least half of the step. It is
computed in 64-bit words, and no operation leaves their range: a second computation of the delay,
in which every operation is refused that would overflow, borrow, divide by zero or cut between
bounds the wrong way round, always comes to the same delay.

## Main definitions

* `Checked`: operations on words that are refused where they have no exact result.
* `BackoffSettings.checkedDelay?`: the delay before an attempt, computed with these.
* `RandomSource.word`: the words of a supply by the number of the draw.

## Main results

* `BackoffSettings.toNat_step`: the step is the exact one, cut at the largest delay.
* `BackoffSettings.toNat_delay`: the delay in exact arithmetic.
* `BackoffSettings.checkedDelay?_eq`: no operation is refused.
* `Backoff.delays_new`: the delays of a ladder, call by call.
* `Backoff.ladder_bounded`: how far a ladder goes, and how it ends.
-/

namespace HiveForum

/-! ### Words -/

namespace Checked

/-- The sum, unless it leaves the range. -/
def add? (a b : UInt64) : Option UInt64 :=
  if a.toNat + b.toNat < UInt64.size then some (a + b) else none

/-- The difference, unless it is negative. -/
def sub? (a b : UInt64) : Option UInt64 := if b ≤ a then some (a - b) else none

/-- The quotient, unless the divisor is zero. -/
def div? (a b : UInt64) : Option UInt64 := if b = 0 then none else some (a / b)

/-- The remainder, unless the divisor is zero. -/
def mod? (a b : UInt64) : Option UInt64 := if b = 0 then none else some (a % b)

/-- The word moved to the left, unless that moves a digit out of the range. -/
def shift? (a : UInt64) (places : Nat) : Option UInt64 :=
  if places < 64 ∧ a.toNat * Nat.pow 2 places < UInt64.size then
    some (a <<< UInt64.ofNat places) else none

/-- The word moved between two bounds, unless they are the wrong way round. -/
def clamp? (least largest a : UInt64) : Option UInt64 :=
  if least ≤ largest then some (max least (min a largest)) else none

theorem toNat_min (a b : UInt64) : (min a b).toNat = min a.toNat b.toNat := by
  have h : min a b = if a ≤ b then a else b := rfl
  rw [h]
  split
  · rename_i hle
    rw [UInt64.le_iff_toNat_le] at hle
    omega
  · rename_i hle
    rw [UInt64.le_iff_toNat_le] at hle
    omega

theorem toNat_max (a b : UInt64) : (max a b).toNat = max a.toNat b.toNat := by
  have h : max a b = if a ≤ b then b else a := rfl
  rw [h]
  split
  · rename_i hle
    rw [UInt64.le_iff_toNat_le] at hle
    omega
  · rename_i hle
    rw [UInt64.le_iff_toNat_le] at hle
    omega

theorem add?_eq {a b : UInt64} (h : a.toNat + b.toNat < UInt64.size) : add? a b = some (a + b) :=
  if_pos h

theorem sub?_eq {a b : UInt64} (h : b.toNat ≤ a.toNat) : sub? a b = some (a - b) :=
  if_pos (UInt64.le_iff_toNat_le.2 h)

theorem div?_eq {a b : UInt64} (h : b ≠ 0) : div? a b = some (a / b) := if_neg h

theorem mod?_eq {a b : UInt64} (h : b ≠ 0) : mod? a b = some (a % b) := if_neg h

theorem clamp?_eq {least largest : UInt64} (h : least.toNat ≤ largest.toNat) (a : UInt64) :
    clamp? least largest a = some (max least (min a largest)) :=
  if_pos (UInt64.le_iff_toNat_le.2 h)

end Checked

/-! ### Delays -/

namespace BackoffSettings

open Checked

/-- The random part of a delay, computed as `jitter` is but without a division by zero. -/
def checkedJitter? (half : UInt64) (random : UInt32) : Option UInt64 :=
  if half = 0 then some 0 else (add? half 1).bind (mod? random.toUInt64)

/-- The delay before an attempt, computed as `delay` is but with operations that are refused where
they have no exact result. -/
def checkedDelay? (settings : BackoffSettings) (attempt : Nat) (random : UInt32) :
    Option UInt64 := do
  let factor ← shift? 1 (min (attempt - 1) 20)
  let step := min (Saturating.mul settings.minDelay factor) settings.maxDelay
  let half ← div? step 2
  let upper ← sub? step half
  let jitter ← checkedJitter? half random
  let delay ← add? upper jitter
  clamp? (min settings.minDelay settings.maxDelay) settings.maxDelay delay

variable (settings : BackoffSettings) (attempt : Nat) (random : UInt32)

theorem toNat_factor : (UInt64.ofNat (Nat.pow 2 (min (attempt - 1) 20))).toNat =
    Nat.pow 2 (min (attempt - 1) 20) :=
  UInt64.toNat_ofNat_of_lt'
    (Nat.lt_of_le_of_lt (Nat.pow_le_pow_right (by decide) (Nat.min_le_right _ 20)) (by decide))

/-- The step is doubled exactly and then cut: what the product leaves out of the range is beyond
the largest delay as well. -/
theorem toNat_step : (settings.step attempt).toNat =
    min settings.maxDelay.toNat
      (settings.minDelay.toNat * Nat.pow 2 (min (attempt - 1) 20)) := by
  have hlargest := settings.maxDelay.toNat_lt
  -- A product that leaves the range is cut at the largest word, which is no smaller bound.
  rw [step, toNat_min, Saturating.toNat_mul, toNat_factor]
  omega

theorem step_bounds :
    min settings.minDelay.toNat settings.maxDelay.toNat ≤ (settings.step attempt).toNat ∧
      (settings.step attempt).toNat ≤ settings.maxDelay.toNat := by
  have hgrows : settings.minDelay.toNat ≤
      settings.minDelay.toNat * Nat.pow 2 (min (attempt - 1) 20) :=
    Nat.le_mul_of_pos_right _ (Nat.pow_pos (by decide))
  rw [toNat_step]
  omega

theorem mod_half_le (n step : Nat) : n % (step / 2 + 1) ≤ step / 2 :=
  Nat.lt_succ_iff.1 (Nat.mod_lt n (Nat.succ_pos _))

theorem toNat_half (step : UInt64) : (step / 2).toNat = step.toNat / 2 := UInt64.toNat_div step 2

theorem toNat_half_add_one (step : UInt64) : (step / 2 + 1).toNat = step.toNat / 2 + 1 := by
  have hlt := step.toNat_lt
  rw [UInt64.toNat_add, toNat_half]
  exact Nat.mod_eq_of_lt (by simp; omega)

theorem toNat_jitter (step : UInt64) :
    (jitter (step / 2) random).toNat = random.toNat % (step.toNat / 2 + 1) := by
  unfold jitter
  split
  · rename_i hhalf
    rw [← UInt64.toNat_inj, toNat_half] at hhalf
    simp [hhalf, Nat.mod_one]
  · rw [UInt64.toNat_mod, UInt32.toNat_toUInt64, toNat_half_add_one]

/-- The upper half of a step and a random part of the lower half: at least half of the step, and
at most the step. -/
theorem toNat_upper_add_jitter (step : UInt64) :
    (step - step / 2 + jitter (step / 2) random).toNat =
      step.toNat - step.toNat / 2 + random.toNat % (step.toNat / 2 + 1) := by
  have hlt := step.toNat_lt
  have hmod := mod_half_le random.toNat step.toNat
  have hle : step / 2 ≤ step := by
    rw [UInt64.le_iff_toNat_le, toNat_half]
    omega
  rw [UInt64.toNat_add, toNat_jitter, UInt64.toNat_sub_of_le _ _ hle, toNat_half]
  exact Nat.mod_eq_of_lt (by omega)

/-- The delay in exact arithmetic. The largest delay does not cut it, since the step is cut
already. -/
theorem toNat_delay : (settings.delay attempt random).toNat =
    max (min settings.minDelay.toNat settings.maxDelay.toNat)
      ((settings.step attempt).toNat - (settings.step attempt).toNat / 2 +
        random.toNat % ((settings.step attempt).toNat / 2 + 1)) := by
  have hmod := mod_half_le random.toNat (settings.step attempt).toNat
  have hstep := (settings.step_bounds attempt).2
  rw [delay, toNat_max, toNat_min, toNat_min, toNat_upper_add_jitter]
  omega

theorem delay_bounds :
    min settings.minDelay.toNat settings.maxDelay.toNat ≤ (settings.delay attempt random).toNat ∧
      (settings.delay attempt random).toNat ≤ (settings.step attempt).toNat ∧
      (settings.step attempt).toNat ≤ 2 * (settings.delay attempt random).toNat := by
  have hmod := mod_half_le random.toNat (settings.step attempt).toNat
  have hstep := (settings.step_bounds attempt).1
  rw [toNat_delay]
  omega

/-! ### No operation is refused -/

/-- The factor of a step is one, moved to the left within the range. -/
theorem shift?_eq : shift? 1 (min (attempt - 1) 20) =
    some (UInt64.ofNat (Nat.pow 2 (min (attempt - 1) 20))) := by
  have hplaces : min (attempt - 1) 20 < 64 := by omega
  have hfits : Nat.pow 2 (min (attempt - 1) 20) < UInt64.size :=
    toNat_factor attempt ▸ UInt64.toNat_lt_size _
  have hnumber : (UInt64.ofNat (min (attempt - 1) 20)).toNat = min (attempt - 1) 20 :=
    UInt64.toNat_ofNat_of_lt' (Nat.lt_trans hplaces (by decide))
  rw [shift?, if_pos ⟨hplaces, by rwa [UInt64.toNat_one, Nat.one_mul]⟩]
  refine congrArg some (UInt64.toNat_inj.1 ?_)
  rw [toNat_factor, UInt64.toNat_shiftLeft, hnumber, Nat.mod_eq_of_lt hplaces, UInt64.toNat_one,
    Nat.one_shiftLeft]
  exact Nat.mod_eq_of_lt hfits

theorem checkedJitter?_eq (step : UInt64) :
    checkedJitter? (step / 2) random = some (jitter (step / 2) random) := by
  have hlt := step.toNat_lt
  have hhalf := toNat_half step
  have hone := UInt64.toNat_one
  have hsucc : step / 2 + 1 ≠ 0 := by
    rw [ne_eq, ← UInt64.toNat_inj, toNat_half_add_one]
    exact Nat.succ_ne_zero _
  rw [checkedJitter?, add?_eq (by rw [hhalf, hone, UInt64.size]; omega), Option.bind_some,
    mod?_eq hsucc, jitter]
  split <;> rfl

/-- No operation is refused, and the computation comes to the delay. -/
theorem checkedDelay?_eq :
    settings.checkedDelay? attempt random = some (settings.delay attempt random) := by
  have hlt := (settings.step attempt).toNat_lt
  have hpart := mod_half_le random.toNat (settings.step attempt).toNat
  have hhalf := toNat_half (settings.step attempt)
  have hle : (settings.step attempt / 2).toNat ≤ (settings.step attempt).toNat := by omega
  have hupper := UInt64.toNat_sub_of_le _ _ (UInt64.le_iff_toNat_le.2 hle)
  have hsum : (settings.step attempt - settings.step attempt / 2).toNat +
      (jitter (settings.step attempt / 2) random).toNat < UInt64.size := by
    rw [hupper, hhalf, toNat_jitter, UInt64.size]
    omega
  have hbounds : (min settings.minDelay settings.maxDelay).toNat ≤ settings.maxDelay.toNat := by
    rw [toNat_min]
    omega
  rw [checkedDelay?, shift?_eq]
  change ((div? (settings.step attempt) 2).bind fun half =>
    (sub? (settings.step attempt) half).bind fun upper =>
    (checkedJitter? half random).bind fun jitter =>
    (add? upper jitter).bind (clamp? (min settings.minDelay settings.maxDelay)
      settings.maxDelay)) = _
  rw [div?_eq (by decide), Option.bind_some, sub?_eq hle, Option.bind_some, checkedJitter?_eq,
    Option.bind_some, add?_eq hsum, Option.bind_some, clamp?_eq hbounds]
  rfl

end BackoffSettings

/-! ### Calls -/

/-- The word of a draw, counted from zero. -/
def RandomSource.word (source : RandomSource) (draw : Nat) : UInt32 := source.words.getD draw 0

theorem RandomSource.draw_fst (source : RandomSource) : source.draw.1 = source.word 0 := by
  obtain ⟨_ | ⟨word, rest⟩⟩ := source <;> rfl

theorem RandomSource.word_draw (source : RandomSource) (draw : Nat) :
    source.draw.2.word draw = source.word (draw + 1) := by
  obtain ⟨_ | ⟨word, rest⟩⟩ := source <;> rfl

namespace Backoff

theorem delays_nil_left (settings : BackoffSettings) (source : RandomSource) (calls : Nat) :
    (⟨settings, 0⟩ : Backoff).delays source (calls + 1) =
      (none, settings.maxAttempts) :: (⟨settings, 0⟩ : Backoff).delays source calls :=
  rfl

theorem delays_succ_left (settings : BackoffSettings) (left : Nat) (source : RandomSource)
    (calls : Nat) :
    (⟨settings, left + 1⟩ : Backoff).delays source (calls + 1) =
      (some (settings.delay (settings.maxAttempts - left) source.draw.1),
        settings.maxAttempts - left) ::
        (⟨settings, left⟩ : Backoff).delays source.draw.2 calls :=
  rfl

/-- What calls on a ladder give that has some attempts left: a delay for each of these, and nothing
then. -/
theorem delays_eq (settings : BackoffSettings) {left : Nat} (h : left ≤ settings.maxAttempts)
    (source : RandomSource) (calls : Nat) :
    (⟨settings, left⟩ : Backoff).delays source calls = (List.range calls).map fun call =>
      (if call < left then
        some (settings.delay (settings.maxAttempts - left + (call + 1)) (source.word call))
        else none, settings.maxAttempts - (left - (call + 1))) := by
  -- A call hands the ladder and the words that are left on to the next.
  induction calls generalizing left source with
  | zero => rfl
  | succ calls ih =>
    rw [List.range_succ_eq_map, List.map_cons, List.map_map]
    cases left with
    | zero =>
      rw [delays_nil_left, ih h]
      refine congrArg₂ List.cons (by simp) (List.map_congr_left fun call _ => ?_)
      simp
    | succ left =>
      have hused : settings.maxAttempts - left = settings.maxAttempts - (left + 1) + 1 := by omega
      rw [delays_succ_left, ih (Nat.le_of_succ_le h), hused, RandomSource.draw_fst]
      refine congrArg₂ List.cons (by simp [hused]) (List.map_congr_left fun call _ => ?_)
      simp [RandomSource.word_draw, Nat.add_assoc, Nat.add_comm 1]

/-- What the calls on a new ladder give: a delay for each attempt that is allowed, and nothing ever
after. -/
theorem delays_new (settings : BackoffSettings) (source : RandomSource) (calls : Nat) :
    (new settings).delays source calls = (List.range calls).map fun call =>
      (if call < settings.maxAttempts then
        some (settings.delay (call + 1) (source.word call)) else none,
        min (call + 1) settings.maxAttempts) := by
  rw [new, delays_eq settings (Nat.le_refl _)]
  refine List.map_congr_left fun call _ => ?_
  rw [Nat.sub_self, Nat.zero_add]
  exact congrArg _ (by omega)

/-- How far a ladder goes, for all bounds in words, and how it ends. Before any attempt, and with
any random word, the delay lies between the smaller bound and the step of the attempt, which is the
least delay doubled with every attempt before it, twenty times at most, and cut at the largest
delay; it is at least half of the step; and no operation on words that it is computed with leaves
their range, divides by zero or cuts between bounds the wrong way round. As many calls as there are
attempts are answered by the delays of these in order, with the words of the supply, and no further
call is; after each call as many attempts are used up as calls were made, short of all attempts. -/
theorem ladder_bounded (settings : BackoffSettings) :
    (∀ (attempt : Nat) (random : UInt32),
      let least := settings.minDelay.toNat
      let largest := settings.maxDelay.toNat
      let step := min largest (least * Nat.pow 2 (min (attempt - 1) 20))
      let delay := (settings.delay attempt random).toNat
      (min least largest ≤ delay ∧ delay ≤ step ∧ step ≤ largest ∧ step ≤ 2 * delay) ∧
        settings.checkedDelay? attempt random = some (settings.delay attempt random)) ∧
    (new settings).attempts = 0 ∧
    ∀ (source : RandomSource) (calls : Nat),
      (new settings).delays source calls = (List.range calls).map fun call =>
        (if call < settings.maxAttempts then
          some (settings.delay (call + 1) (source.word call)) else none,
          min (call + 1) settings.maxAttempts) := by
  refine ⟨fun attempt random => ?_, Nat.sub_self _, fun source calls => ?_⟩
  · obtain ⟨hleast, hstep, hhalf⟩ := settings.delay_bounds attempt random
    have hlargest := (settings.step_bounds attempt).2
    rw [settings.toNat_step] at hstep hhalf hlargest
    exact ⟨⟨hleast, hstep, hlargest, hhalf⟩, settings.checkedDelay?_eq attempt random⟩
  · exact delays_new settings source calls

/-- Bounds the wrong way round: the larger one is never waited for. -/
example : ((new ⟨900, 100, 2⟩).delays ⟨[7]⟩ 3).map (·.1) = [some 100, some 100, none] := by decide

end Backoff

end HiveForum
