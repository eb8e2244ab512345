import HiveForum.Numeric.Saturating

/-!
# The backoff ladder

A request that leaves work undone is retried after growing delays. The step doubles from the least
delay with each attempt up to the largest one; a delay is the upper half of the step and a random
part of the lower half. After a fixed number of attempts there is no further delay.

## Main definitions

* `BackoffSettings`: the bounds of the ladder.
* `BackoffSettings.step`, `BackoffSettings.delay`: the step and the delay of an attempt.
* `Backoff`: a ladder on which some attempts are used up.
* `Backoff.nextDelay`: the delay before the next attempt.
* `RandomSource`: a supply of random words.

## Main results

* `Backoff.nextDelay_isSome_iff`, `Backoff.left_nextDelay`: a delay is handed out exactly while
  attempts are left, and uses one up.
-/

namespace HiveForum

/-- The bounds of a backoff ladder; delays are in milliseconds. -/
structure BackoffSettings where
  minDelay : UInt64 := 100
  /-- The largest delay. -/
  maxDelay : UInt64 := 5000
  /-- The number of retries; none if zero. -/
  maxAttempts : Nat := 12
deriving DecidableEq, Inhabited

namespace BackoffSettings

/-- The step of an attempt, counted from one: the least delay doubled with each attempt, twenty
times at most, and cut at the largest delay. -/
def step (settings : BackoffSettings) (attempt : Nat) : UInt64 :=
  min (Saturating.mul settings.minDelay (UInt64.ofNat (Nat.pow 2 (min (attempt - 1) 20))))
    settings.maxDelay

/-- The random part of a delay, at most `half`. -/
def jitter (half : UInt64) (random : UInt32) : UInt64 :=
  if half = 0 then 0 else random.toUInt64 % (half + 1)

/-- The delay before an attempt: the upper half of the step and a random part of the lower half,
kept within the bounds. -/
def delay (settings : BackoffSettings) (attempt : Nat) (random : UInt32) : UInt64 :=
  let step := settings.step attempt
  let half := step / 2
  max (min settings.minDelay settings.maxDelay)
    (min (step - half + jitter half random) settings.maxDelay)

end BackoffSettings

/-- A ladder with the number of attempts that are left. -/
structure Backoff where
  settings : BackoffSettings
  left : Nat
deriving DecidableEq, Inhabited

namespace Backoff

/-- A ladder on which no attempt is used up. -/
def new (settings : BackoffSettings) : Backoff := ⟨settings, settings.maxAttempts⟩

/-- The number of attempts used up. -/
def attempts (backoff : Backoff) : Nat := backoff.settings.maxAttempts - backoff.left

/-- The delay before the attempt that was used up last. -/
def delay (backoff : Backoff) (random : UInt32) : UInt64 :=
  backoff.settings.delay backoff.attempts random

end Backoff

/-- A supply of random words: those given, then zeros. -/
structure RandomSource where
  words : List UInt32
deriving DecidableEq, Inhabited

/-- The next word. -/
def RandomSource.draw (source : RandomSource) : UInt32 × RandomSource :=
  match source.words with
  | [] => (0, source)
  | word :: rest => (word, ⟨rest⟩)

/-- The delay before the next attempt, if one is left, and the ladder after it. -/
def Backoff.nextDelay (backoff : Backoff) (source : RandomSource) :
    Option UInt64 × Backoff × RandomSource :=
  match backoff with
  | ⟨settings, 0⟩ => (none, ⟨settings, 0⟩, source)
  | ⟨settings, left + 1⟩ =>
    let (word, source) := source.draw
    (some ((⟨settings, left⟩ : Backoff).delay word), ⟨settings, left⟩, source)

/-- The delays of several calls in a row, each with the attempts used up after it. -/
def Backoff.delays (backoff : Backoff) (source : RandomSource) :
    (calls : Nat) → List (Option UInt64 × Nat)
  | 0 => []
  | calls + 1 =>
    let (delay, backoff, source) := backoff.nextDelay source
    (delay, backoff.attempts) :: backoff.delays source calls

/-- A delay is handed out exactly while attempts are left. -/
theorem Backoff.nextDelay_isSome_iff (backoff : Backoff) (source : RandomSource) :
    (backoff.nextDelay source).1.isSome = true ↔ 0 < backoff.left := by
  obtain ⟨settings, left⟩ := backoff
  cases left <;> simp [nextDelay]

/-- A call uses up one attempt, if one is left. -/
theorem Backoff.left_nextDelay (backoff : Backoff) (source : RandomSource) :
    (backoff.nextDelay source).2.1.left = backoff.left - 1 := by
  obtain ⟨settings, left⟩ := backoff
  cases left <;> simp [nextDelay]

end HiveForum
