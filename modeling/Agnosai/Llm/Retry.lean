import Mathlib.Data.List.Defs
import Mathlib.Tactic.Linarith
import Agnosai.Core.Bytes
import Agnosai.Llm.Hoosh

/-!
# Llm — Retry

What is retried and how long a retry waits, after `llm/retry.cyr`. The delay is the base, doubled
once per attempt until it reaches the maximum, in 64-bit arithmetic; a draw, which is a parameter,
then adds up to a quarter of it when jitter is on.

A doubling that overflows has not reached the maximum: it comes out negative, and the loop goes on.
So what the loop leaves is one of the wrapped multiples of the base (`double_cases`).
-/

namespace Agnosai.Llm

/-- `AGNOSAI_NS_PER_MS`. -/
def nsPerMs : Int64 := 1000000

/-- `AgnosaiRetryConfigOff`. -/
structure RetryConfig where
  maxRetries : Int64
  baseDelayNs : Int64
  maxDelayNs : Int64
  jitter : Int64
  deriving Repr, DecidableEq

namespace RetryConfig

/-- `agnosai_retry_config_default`. -/
def default : RetryConfig where
  maxRetries := 3
  baseDelayNs := 500 * nsPerMs
  maxDelayNs := 30 * .ofNat nsPerSec
  jitter := 1

/-- `agnosai_retry_config_none`. -/
def none : RetryConfig := { default with maxRetries := 0 }

/-- `agnosai_retry_config_aggressive`. -/
def aggressive : RetryConfig where
  maxRetries := 5
  baseDelayNs := 250 * nsPerMs
  maxDelayNs := 60 * .ofNat nsPerSec
  jitter := 1

end RetryConfig

/-- The retries of a call that is given no configuration. -/
def defaultMaxRetries : Nat := RetryConfig.default.maxRetries.toNatClampNeg

/-! ### The loop -/

/-- `agnosai_is_retryable`: whether an error looks transient. -/
def isRetryable (err : String) : Bool :=
  ["rate limit", "429", "503", "502", "timeout", "timed out", "connection reset",
    "connection refused", "temporarily unavailable", "service unavailable", "server error", "500",
    "overloaded", "capacity"].any (containsCi err)

/-- `agnosai_with_retry`, with `n` retries left: the first success, or the last error. -/
def withRetry {σ α : Type*} (call : σ → Except String α × σ) : Nat → σ → Except String α × σ
  | 0, s => call s
  | n + 1, s =>
    match call s with
    | (.ok v, s') => (.ok v, s')
    | (.error e, s') => if isRetryable e then withRetry call n s' else (.error e, s')

/-- **Retrying**, whatever a call does to its state. What is returned is the last attempt. Those
before it failed with errors that look transient; it did not, or the retries are used up. -/
theorem withRetry_spec {σ α : Type*} (call : σ → Except String α × σ) (n : Nat) (s : σ) :
    let after (i : Nat) : σ := (fun s => (call s).2)^[i] s
    ∃ k ≤ n, withRetry call n s = call (after k) ∧
      (∀ i < k, ∃ e, (call (after i)).1 = .error e ∧ isRetryable e = true) ∧
      (k < n → ∀ e, (call (after k)).1 = .error e → isRetryable e = false) := by
  induction n generalizing s with
  | zero => exact ⟨0, Nat.le_refl _, rfl, by simp, by simp⟩
  | succ n ih =>
    by_cases hretry : ∃ e, (call s).1 = .error e ∧ isRetryable e = true
    · obtain ⟨e, hcall, he⟩ := hretry
      obtain ⟨k, hk, hreturn, hfailed, hlast⟩ := ih (call s).2
      refine ⟨k + 1, Nat.succ_le_succ hk, ?_, fun i hi => ?_,
        fun hlt => hlast (Nat.lt_of_succ_lt_succ hlt)⟩
      · rw [withRetry, ← Prod.eta (call s), hcall]
        exact (if_pos he).trans hreturn
      · cases i with
        | zero => exact ⟨e, hcall, he⟩
        | succ i => exact hfailed i (Nat.lt_of_succ_lt_succ hi)
    · have hlast : ∀ e, (call s).1 = .error e → isRetryable e = false := fun e hcall =>
        Bool.eq_false_iff.2 fun he => hretry ⟨e, hcall, he⟩
      refine ⟨0, Nat.zero_le _, show withRetry call (n + 1) s =
        call s from ?_, by simp, fun _ => hlast⟩
      rw [withRetry]
      split
      next v s' hcall => exact hcall.symm
      next e s' hcall =>
        rw [if_neg (Bool.eq_false_iff.1 (hlast e (by rw [hcall]))), hcall]

/-! ### The delay -/

/-- The loop of `agnosai_compute_delay`, for so many attempts. -/
def double (maxDelay : Int64) : Nat → Int64 → Int64
  | 0, delay => delay
  | n + 1, delay => if maxDelay ≤ delay then delay else double maxDelay n (delay * 2)

/-- The delay before jitter. -/
def cappedDelay (config : RetryConfig) (attempt : Int64) : Int64 :=
  let delay := double config.maxDelayNs attempt.toInt.toNat config.baseDelayNs
  if config.maxDelayNs < delay then config.maxDelayNs else delay

/-- `agnosai_compute_delay`. `draw range` is `rng_uniform` scaled by `range + 1` and truncated. -/
def computeDelay (draw : Int64 → Int64) (config : RetryConfig) (attempt : Int64) : Int64 :=
  let delay := cappedDelay config attempt
  if config.jitter = 0 then delay
  else
    let jitterRange := delay / nsPerMs / 4
    if jitterRange ≤ 0 then delay
    else
      let pick := draw jitterRange
      let pick := if jitterRange < pick then jitterRange else pick
      delay + pick * nsPerMs

/-! ### What the loop leaves -/

/-- The base doubled `i` times, as 64 bits hold it. -/
def wrapped (base : Int64) : Nat → Int64
  | 0 => base
  | i + 1 => wrapped (base * 2) i

theorem toInt_wrapped (base : Int64) (i : Nat) :
    (wrapped base i).toInt = (base.toInt * 2 ^ i).bmod (2 ^ 64) := by
  induction i generalizing base with
  | zero => simp [wrapped]
  | succ i ih =>
    have htwo : (2 : Int64).toInt = 2 := rfl
    rw [wrapped, ih, Int64.toInt_mul, htwo, Int.bmod_mul_bmod, mul_assoc, ← Int.pow_succ']

/-- **The loop** stops at a multiple that has reached the maximum, or takes all its turns below
it. -/
theorem double_cases (maxDelay base : Int64) (n : Nat) :
    (∃ i ≤ n, maxDelay ≤ wrapped base i ∧ double maxDelay n base = wrapped base i) ∨
      (∀ i ≤ n, wrapped base i < maxDelay) ∧ double maxDelay n base = wrapped base n := by
  induction n generalizing base with
  | zero =>
    by_cases hle : maxDelay ≤ base
    · exact .inl ⟨0, le_rfl, hle, rfl⟩
    · refine .inr ⟨fun i hi => ?_, rfl⟩
      obtain rfl := Nat.le_zero.1 hi
      exact Int64.not_le.1 hle
  | succ n ih =>
    rw [double]
    split
    next hle =>
      exact .inl ⟨0, Nat.zero_le _, hle, rfl⟩
    next hlt =>
      obtain ⟨i, hi, hreach, heq⟩ | ⟨hbelow, heq⟩ := ih (base * 2)
      · exact .inl ⟨i + 1, Nat.succ_le_succ hi, hreach, heq⟩
      · refine .inr ⟨fun i hi => ?_, heq⟩
        cases i with
        | zero => exact Int64.not_le.1 hlt
        | succ i => exact hbelow i (Nat.le_of_succ_le_succ hi)

variable {draw : Int64 → Int64} {config : RetryConfig} {attempt : Int64}

/-- The maximum, if a multiple reaches it, and otherwise the last multiple. -/
theorem cappedDelay_cases :
    (∃ i ≤ attempt.toInt.toNat, config.maxDelayNs ≤ wrapped config.baseDelayNs i) ∧
        cappedDelay config attempt = config.maxDelayNs ∨
      wrapped config.baseDelayNs attempt.toInt.toNat < config.maxDelayNs ∧
        (∀ i ≤ attempt.toInt.toNat, ¬ config.maxDelayNs ≤ wrapped config.baseDelayNs i) ∧
        cappedDelay config attempt = wrapped config.baseDelayNs attempt.toInt.toNat := by
  simp only [cappedDelay]
  obtain ⟨i, hi, hreach, heq⟩ | ⟨hbelow, heq⟩ :=
    double_cases config.maxDelayNs config.baseDelayNs attempt.toInt.toNat
  · refine .inl ⟨⟨i, hi, hreach⟩, ?_⟩
    rw [heq]
    split
    · rfl
    next hnot =>
      exact Int64.le_antisymm (Int64.not_lt.1 hnot) hreach
  · have hlast := hbelow _ le_rfl
    refine .inr ⟨hlast, fun i hi => Int64.not_le.2 (hbelow i hi), ?_⟩
    rw [heq, if_neg (Int64.lt_asymm hlast)]

/-- A number that is not negative wraps to one no larger. -/
theorem bmod_le_self {x : Int} (h : 0 ≤ x) : x.bmod (2 ^ 64) ≤ x := by
  rw [Int.bmod_def]
  split <;> omega

/-- The capped delay is the smaller of the maximum and `base * 2 ^ attempt` exactly when the latter
is below the maximum, or a wrapped multiple has reached the maximum by then. -/
theorem cappedDelay_eq_min_iff (hbase : 0 ≤ config.baseDelayNs) :
    (cappedDelay config attempt).toInt =
        min config.maxDelayNs.toInt (config.baseDelayNs.toInt * 2 ^ attempt.toInt.toNat) ↔
      config.baseDelayNs.toInt * 2 ^ attempt.toInt.toNat < config.maxDelayNs.toInt ∨
        ∃ i ≤ attempt.toInt.toNat,
          config.maxDelayNs.toInt ≤ (config.baseDelayNs.toInt * 2 ^ i).bmod (2 ^ 64) := by
  have hbase₀ : 0 ≤ config.baseDelayNs.toInt := Int64.le_iff_toInt_le.1 hbase
  have hpos : ∀ i : Nat, 0 ≤ config.baseDelayNs.toInt * 2 ^ i := fun i => by positivity
  simp only [← toInt_wrapped, ← Int64.le_iff_toInt_le]
  obtain ⟨⟨i, hi, hreach⟩, heq⟩ | ⟨hlast, hnone, heq⟩ := cappedDelay_cases
  · -- the unwrapped multiple is no smaller than the wrapped one that reaches the maximum
    refine iff_of_true ?_ (.inr ⟨i, hi, hreach⟩)
    have hwrap : (wrapped config.baseDelayNs i).toInt ≤ config.baseDelayNs.toInt * 2 ^ i := by
      rw [toInt_wrapped]
      exact bmod_le_self (hpos i)
    have hgrow : config.baseDelayNs.toInt * 2 ^ i ≤
        config.baseDelayNs.toInt * 2 ^ attempt.toInt.toNat :=
      Int.mul_le_mul_of_nonneg_left (pow_le_pow_right₀ (by decide) hi) hbase₀
    rw [heq, min_eq_left ((Int64.le_iff_toInt_le.1 hreach).trans (hwrap.trans hgrow))]
  · have hlast₀ := Int64.lt_iff_toInt_lt.1 hlast
    rw [heq]
    constructor
    · intro hmin
      refine .inl (not_le.1 fun hover => ?_)
      omega
    · rintro (hbelow | ⟨i, hi, hreach⟩)
      · have hfits := config.maxDelayNs.toInt_lt
        have hwide := hpos attempt.toInt.toNat
        rw [min_eq_right (le_of_lt hbelow), toInt_wrapped]
        exact Int.bmod_eq_of_le (by omega) (by omega)
      · exact absurd hreach (hnone i hi)

theorem computeDelay_of_no_jitter (hjitter : config.jitter = 0) :
    computeDelay draw config attempt = cappedDelay config attempt := by
  simp [computeDelay, hjitter]

/-- **The delay without jitter** is the smaller of the maximum and `base * 2 ^ attempt` exactly when
the latter is below the maximum, or a wrapped multiple of the base has reached the maximum by
then. -/
theorem computeDelay_eq_min_iff (draw : Int64 → Int64) (config : RetryConfig) (attempt : Int64)
    (hbase : 0 ≤ config.baseDelayNs) (hattempt : 0 ≤ attempt) (hjitter : config.jitter = 0) :
    (computeDelay draw config attempt).toInt =
        min config.maxDelayNs.toInt (config.baseDelayNs.toInt * 2 ^ attempt.toInt.toNat) ↔
      config.baseDelayNs.toInt * 2 ^ attempt.toInt.toNat < config.maxDelayNs.toInt ∨
        ∃ i : Nat, i ≤ attempt.toInt ∧
          config.maxDelayNs.toInt ≤ (config.baseDelayNs.toInt * 2 ^ i).bmod (2 ^ 64) := by
  have hattempt₀ : 0 ≤ attempt.toInt := Int64.le_iff_toInt_le.1 hattempt
  have hle : ∀ i : Nat, i ≤ attempt.toInt ↔ i ≤ attempt.toInt.toNat := fun i => by omega
  simp only [computeDelay_of_no_jitter hjitter, hle]
  exact cappedDelay_eq_min_iff hbase

/-- A base of `2 ^ 62` with the largest maximum. -/
def overflowing : RetryConfig where
  maxRetries := 1
  baseDelayNs := 4611686018427387904
  maxDelayNs := 9223372036854775807
  jitter := 0

/-- One doubling of `2 ^ 62` comes out as the smallest number there is. -/
theorem computeDelay_overflowing : (computeDelay id overflowing 1).toInt = -9223372036854775808 ∧
    ¬ (computeDelay id overflowing 1).toInt =
      min overflowing.maxDelayNs.toInt
        (overflowing.baseDelayNs.toInt * 2 ^ (1 : Int64).toInt.toNat) := by
  decide +kernel

/-- With a base of `2 ^ 60` there is room for two doublings. -/
theorem computeDelay_eq_min_iff_below :
    (computeDelay id { overflowing with baseDelayNs := 1152921504606846976 } 2).toInt =
      min 9223372036854775807 (1152921504606846976 * 2 ^ 2) :=
  (computeDelay_eq_min_iff id { overflowing with baseDelayNs := 1152921504606846976 } 2
    (by decide) (by decide)
    rfl).2 (.inl (by decide))

/-- **Up to `2 ^ 62` nothing overflows**: the capped delay is right for every attempt. -/
theorem cappedDelay_eq_min (hbase : 0 ≤ config.baseDelayNs)
    (hsmall : config.maxDelayNs.toInt ≤ 2 ^ 62) : (cappedDelay config attempt).toInt =
      min config.maxDelayNs.toInt (config.baseDelayNs.toInt * 2 ^ attempt.toInt.toNat) := by
  have hbase₀ : 0 ≤ config.baseDelayNs.toInt := Int64.le_iff_toInt_le.1 hbase
  rw [cappedDelay_eq_min_iff hbase]
  by_cases hreach : ∃ i ≤ attempt.toInt.toNat, config.maxDelayNs.toInt ≤
    config.baseDelayNs.toInt * 2 ^ i
  · -- the first multiple to reach the maximum is less than twice the maximum, or the base itself
    classical
    obtain ⟨hle, hmax⟩ := Nat.find_spec hreach
    have hmin := fun i => Nat.find_min hreach (m := i)
    generalize Nat.find hreach = i at hle hmax hmin
    refine .inr ⟨i, hle, ?_⟩
    have hpos : 0 ≤ config.baseDelayNs.toInt * 2 ^ i := by positivity
    have hfits : config.baseDelayNs.toInt * 2 ^ i < 2 ^ 63 := by
      cases i with
      | zero =>
        rw [pow_zero, mul_one]
        exact config.baseDelayNs.toInt_lt
      | succ i =>
        have hbefore := hmin i (Nat.lt_succ_self i)
        rw [pow_succ]
        by_contra hover
        exact hbefore ⟨by omega, by linarith⟩
    rw [Int.bmod_eq_of_le (by omega) (by omega)]
    exact hmax
  · refine .inl (not_le.1 fun hover => hreach ⟨_, le_rfl, hover⟩)

/-- The presets wait at most a minute, which is far below that. -/
theorem cappedDelay_presets :
    [RetryConfig.default, .none, .aggressive].Forall fun config =>
      ∀ attempt, (cappedDelay config attempt).toInt =
      min config.maxDelayNs.toInt (config.baseDelayNs.toInt * 2 ^ attempt.toInt.toNat) :=
  ⟨fun _ => cappedDelay_eq_min (by decide) (by decide),
    fun _ => cappedDelay_eq_min (by decide) (by decide),
    fun _ => cappedDelay_eq_min (by decide) (by decide)⟩

end Agnosai.Llm
