/-
  How often and how soon an endpoint tries a failed delivery again.

  `delay_nanos` compares the saturating loop with unbounded arithmetic; `rounds` counts its rounds.
-/
import SisaMessaging.Core.Store

namespace SisaMessaging.Runtime

open SisaMessaging.Core

/-- Up to `attempts` deliveries, waiting `firstDelay` after the first failure and twice as long
    after each next one, but never longer than `maxDelay`. -/
structure RetryPolicy where
  attempts : Nat
  firstDelay : Duration
  maxDelay : Duration

namespace RetryPolicy

/-- Five attempts, one second apart at first, at most a minute apart. -/
def default : RetryPolicy where
  attempts := 5
  firstDelay := .fromSecs 1 Duration.one_lt_secs
  maxDelay := .fromSecs 60 (by decide)

/-- The loop of `delay`: doubles up to `rounds` times, and stops at zero or the maximum. -/
def doubled (policy : RetryPolicy) : Nat → Duration → Duration
  | 0, delay => delay
  | rounds + 1, delay =>
    if delay.isZero || delay.nanos ≥ policy.maxDelay.nanos then delay
    else policy.doubled rounds (delay.saturatingMul 2)

/-- How long to wait after attempt number `attempt` failed. -/
def delay (policy : RetryPolicy) (attempt : Nat) : Duration :=
  let delay := policy.doubled (attempt - 1) policy.firstDelay
  if delay.nanos ≤ policy.maxDelay.nanos then delay else policy.maxDelay

/-- Whether attempt number `attempt` was the last one. -/
def isLast (policy : RetryPolicy) (attempt : Nat) : Bool := attempt ≥ policy.attempts

/-! ## Delays -/

/-- A doubling that saturates is already above any maximum. -/
theorem min_saturatingMul (delay maxDelay : Duration) (rounds : Nat) :
    min ((delay.saturatingMul 2).nanos * 2 ^ rounds) maxDelay.nanos =
      min (delay.nanos * 2 ^ (rounds + 1)) maxDelay.nanos := by
  have hmax : maxDelay.nanos ≤ Duration.max.nanos := Nat.le_pred_of_lt maxDelay.bound
  have hpos : 1 ≤ 2 ^ rounds := Nat.one_le_two_pow
  have hpow : delay.nanos * 2 ^ (rounds + 1) = delay.nanos * 2 * 2 ^ rounds := by
    rw [Nat.pow_succ', Nat.mul_assoc]
  rw [hpow]
  simp only [Duration.saturatingMul]
  rcases Nat.le_total (delay.nanos * 2) Duration.max.nanos with h | h
  · rw [Nat.min_eq_left h]
  · rw [Nat.min_eq_right h, Nat.min_eq_right, Nat.min_eq_right]
    · exact hmax.trans (h.trans (Nat.le_mul_of_pos_right _ hpos))
    · exact hmax.trans (Nat.le_mul_of_pos_right _ hpos)

theorem min_doubled (policy : RetryPolicy) (rounds : Nat) (delay : Duration) :
    min (policy.doubled rounds delay).nanos policy.maxDelay.nanos =
      min (delay.nanos * 2 ^ rounds) policy.maxDelay.nanos := by
  induction rounds generalizing delay with
  | zero => rw [doubled, Nat.pow_zero, Nat.mul_one]
  | succ rounds ih =>
    rw [doubled]
    split
    · rename_i h
      rw [Bool.or_eq_true, decide_eq_true_eq] at h
      rcases h with h | h
      · have hzero : delay.nanos = 0 := by simpa [Duration.isZero] using h
        rw [hzero, Nat.zero_mul]
      · rw [Nat.min_eq_right h, Nat.min_eq_right]
        exact h.trans (Nat.le_mul_of_pos_right _ (Nat.two_pow_pos _))
    · rw [ih, min_saturatingMul]

/-- The delay doubles for each attempt after the first, up to the maximum. -/
theorem delay_nanos (policy : RetryPolicy) (attempt : Nat) :
    (policy.delay attempt).nanos =
      min (policy.firstDelay.nanos * 2 ^ (attempt - 1)) policy.maxDelay.nanos := by
  rw [← min_doubled]
  unfold delay
  dsimp only
  split
  · rename_i h
    exact (Nat.min_eq_left h).symm
  · rename_i h
    exact (Nat.min_eq_right (Nat.le_of_not_le h)).symm

/-- How often the loop of `delay` begins, the time it breaks out included. -/
def rounds (policy : RetryPolicy) : Nat → Duration → Nat
  | 0, _ => 0
  | rounds + 1, delay =>
    if delay.isZero || delay.nanos ≥ policy.maxDelay.nanos then 1
    else policy.rounds rounds (delay.saturatingMul 2) + 1

theorem doubled_rounds (policy : RetryPolicy) (rounds : Nat) (delay : Duration) :
    policy.doubled (policy.rounds rounds delay) delay = policy.doubled rounds delay := by
  induction rounds generalizing delay with
  | zero => rfl
  | succ rounds ih =>
    rw [RetryPolicy.rounds, doubled]
    split
    · rename_i h
      rw [doubled, if_pos h]
    · rename_i h
      rw [doubled, if_neg h, ih]

/-- `k` doublings take the delay to the longest duration. -/
theorem rounds_le (policy : RetryPolicy) (rounds k : Nat) (delay : Duration)
    (h : Duration.max.nanos ≤ delay.nanos * 2 ^ k) : policy.rounds rounds delay ≤ k + 1 := by
  induction rounds generalizing delay k with
  | zero => exact Nat.zero_le _
  | succ rounds ih =>
    rw [RetryPolicy.rounds]
    split
    · exact Nat.succ_le_succ (Nat.zero_le k)
    · rename_i hgoes
      rw [Bool.or_eq_true, decide_eq_true_eq, not_or, Nat.not_le] at hgoes
      have hmax : policy.maxDelay.nanos ≤ Duration.max.nanos :=
        Nat.le_pred_of_lt policy.maxDelay.bound
      cases k with
      | zero =>
        rw [Nat.pow_zero, Nat.mul_one] at h
        exact absurd hgoes.2 (Nat.not_lt.mpr (hmax.trans h))
      | succ k =>
        refine Nat.succ_le_succ (ih k _ ?_)
        have hpos : 1 ≤ 2 ^ k := Nat.one_le_two_pow
        rw [Nat.pow_succ', ← Nat.mul_assoc] at h
        dsimp only [Duration.saturatingMul]
        rcases Nat.le_total (delay.nanos * 2) Duration.max.nanos with hle | hge
        · rw [Nat.min_eq_left hle]
          exact h
        · rw [Nat.min_eq_right hge]
          exact Nat.le_mul_of_pos_right _ hpos

theorem rounds_le_95 (policy : RetryPolicy) (rounds : Nat) (delay : Duration) :
    policy.rounds rounds delay ≤ 95 := by
  by_cases hzero : delay.nanos = 0
  · cases rounds with
    | zero => exact Nat.zero_le _
    | succ rounds =>
      rw [RetryPolicy.rounds, if_pos (by simp [Duration.isZero, hzero])]
      decide
  · refine policy.rounds_le rounds 94 delay ?_
    calc Duration.max.nanos ≤ 1 * 2 ^ 94 := by decide
      _ ≤ delay.nanos * 2 ^ 94 := Nat.mul_le_mul_right _ (Nat.pos_of_ne_zero hzero)

/-- The delay is the first one doubled for each attempt after the first, up to the maximum, as
    unbounded arithmetic has it: it grows with the attempt and stays within the maximum. The loop runs
    at most 95 times. -/
theorem delay_doubles :
    (∀ (policy : RetryPolicy) (attempt : Nat), (policy.delay attempt).nanos =
      min (policy.firstDelay.nanos * 2 ^ (max attempt 1 - 1)) policy.maxDelay.nanos) ∧
    (∀ (policy : RetryPolicy) (attempt later : Nat), attempt ≤ later →
      (policy.delay attempt).nanos ≤ (policy.delay later).nanos) ∧
    (∀ (policy : RetryPolicy) (attempt : Nat),
      (policy.delay attempt).nanos ≤ policy.maxDelay.nanos) ∧
    ∀ (policy : RetryPolicy) (attempt : Nat),
      policy.rounds (attempt - 1) policy.firstDelay ≤ 95 ∧
        policy.doubled (policy.rounds (attempt - 1) policy.firstDelay) policy.firstDelay =
          policy.doubled (attempt - 1) policy.firstDelay := by
  refine ⟨fun policy attempt => ?_, fun policy attempt later h => ?_, fun policy attempt => ?_,
    fun policy attempt => ⟨policy.rounds_le_95 _ _, policy.doubled_rounds _ _⟩⟩
  · have hattempt : max attempt 1 - 1 = attempt - 1 := by omega
    rw [delay_nanos, hattempt]
  · rw [delay_nanos, delay_nanos]
    refine min_le_min_right _ (Nat.mul_le_mul_left _ ?_)
    exact Nat.pow_le_pow_right (by decide) (Nat.sub_le_sub_right h 1)
  · rw [delay_nanos]
    exact min_le_right _ _

end RetryPolicy

end SisaMessaging.Runtime
