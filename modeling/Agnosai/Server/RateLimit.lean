import Agnosai.Core.Bytes
import Agnosai.Support.Machine

/-!
# Server — RateLimit

The rate limiter in front of the routes, after `server/rate_limit.cyr`. The buckets are majra's,
which is a parameter; what is here is when they are swept. Every check counts, and each 256th
sweeps first: the buckets idle for five minutes go, then, while more than 4096 keys are tracked,
those refilled and idle for a second, those refilled, and last the least recently seen, down to
3072. A client can send a new key with each request, none of which the first three rungs remove.
-/

namespace Agnosai.RateLimit

/-- What the limiter uses of majra. The second argument of a call is what the clock says during
it. -/
structure Majra (σ : Type*) where
  /-- `ratelimit_new`, of the rate in thousandths and the burst. -/
  new : Int64 → Int64 → σ
  /-- `ratelimit_check`: whether the key has a token, which is consumed. -/
  check : σ → Int → Bytes → σ × Bool
  /-- `ratelimit_evict_stale`: how many buckets older than so many nanoseconds went. -/
  evictStale : σ → Int → Int64 → σ × Int64
  /-- `ratelimit_evict_to`: how many buckets went. -/
  evictTo : σ → Int → Nat → σ × Int64
  /-- `ratelimit_key_count`. -/
  keyCount : σ → Nat

/-- What majra promises: a new limiter tracks no key, a check adds at most one, and the trim leaves
at most as many as it is asked for. Of the eviction of stale buckets nothing is needed. -/
structure Majra.Lawful {σ : Type*} (majra : Majra σ) : Prop where
  new : ∀ rateX1000 burst, majra.keyCount (majra.new rateX1000 burst) = 0
  check : ∀ limiter now key, majra.keyCount (majra.check limiter now key).1 ≤
    majra.keyCount limiter + 1
  evictTo : ∀ limiter now n, majra.keyCount (majra.evictTo limiter now n).1 ≤ n

/-- `AGNOSAI_RL_SWEEP_EVERY`. -/
def sweepEvery : Nat := 256

/-- `AGNOSAI_RL_MAX_KEYS`. -/
def maxKeys : Nat := 4096

/-- `AGNOSAI_RL_TRIM_KEYS`. -/
def trimKeys : Nat := 3072

/-- `AGNOSAI_RL_EVICTION_SECS`, in nanoseconds. -/
def evictionNs : Int64 := 300 * 1000000000

/-- `AGNOSAI_RL_PRESSURE_NS`. -/
def pressureNs : Int64 := 1000000000

/-- `AGNOSAI_RL_PRESSURE_FLOOR_NS`. -/
def pressureFloorNs : Int64 := 0

/-- `AgnosaiRateLimitOff`. -/
structure State (σ : Type*) where
  limiter : σ
  evictionNs : Int64
  sinceSweep : Int64
  deriving DecidableEq

inductive Answer where
  | ok
  | tooManyRequests
  deriving Repr, DecidableEq

section

variable {σ : Type*} (majra : Majra σ)

/-- `agnosai_rate_limit_new`. -/
def new (rateX1000 burst : Int64) : State σ where
  limiter := majra.new rateX1000 burst
  evictionNs := RateLimit.evictionNs
  sinceSweep := 0

/-- The rungs above the idle sweep, for when too many keys are tracked. `clock i` is the time of
the sweep's call number `i`. -/
def pressure (limiter : σ) (clock : Nat → Int) : σ × Int64 :=
  let (limiter, idle) := majra.evictStale limiter (clock 1) pressureNs
  let (limiter, refilled) :=
    if maxKeys < majra.keyCount limiter then majra.evictStale limiter (clock 2) pressureFloorNs
      else (limiter, 0)
  let (limiter, trimmed) :=
    if maxKeys < majra.keyCount limiter then majra.evictTo limiter (clock 3) trimKeys
      else (limiter, 0)
  (limiter, idle + refilled + trimmed)

/-- `_agnosai_rl_maybe_sweep`, with how many buckets it freed. -/
def maybeSweep (s : State σ) (clock : Nat → Int) : State σ × Int64 :=
  let s := { s with sinceSweep := s.sinceSweep + 1 }
  if s.sinceSweep % (256 : Int64) ≠ 0 then (s, 0)
  else
    let (limiter, freed) := majra.evictStale s.limiter (clock 0) s.evictionNs
    if majra.keyCount limiter ≤ maxKeys then ({ s with limiter }, freed)
    else
      let (limiter, more) := pressure majra limiter clock
      ({ s with limiter }, freed + more)

/-- A request: its key, what the clock says at each call for it, and whether there is memory for the
key. -/
structure Request where
  key : Bytes
  clock : Nat → Int
  memory : Bool := true

/-- `_agnosai_rl_cstr_a`, as majra reads it: up to the first null byte. -/
def cstr (key : Bytes) : Bytes := key.takeWhile (· ≠ 0)

/-- `agnosai_rate_limit_check_a`. A key that there is no memory for is let through. -/
def check (s : State σ) (request : Request) : State σ × Bool :=
  if request.memory = false then (s, true)
  else
    let (limiter, allowed) := majra.check s.limiter (request.clock 4) (cstr request.key)
    ({ s with limiter }, allowed)

/-- `agnosai_rate_limit_check_request`, of a limiter that there is. -/
def checkRequest (s : State σ) (request : Request) : State σ × Answer :=
  let (s, _) := maybeSweep majra s request.clock
  let (s, allowed) := check majra s request
  (s, if allowed then .ok else .tooManyRequests)

/-- The limiter's machine: one request after the other. -/
def requests : Machine (State σ) Request where
  step s request := some (checkRequest majra s request).1

end

/-! ### How many keys -/

variable {σ : Type*} {majra : Majra σ} {s s' : State σ} {request : Request} {clock : Nat → Int}

/-- The last rung is taken unless there is room without it. -/
theorem keyCount_pressure_le (hmajra : majra.Lawful) (limiter : σ) :
    majra.keyCount (pressure majra limiter clock).1 ≤ maxKeys := by
  simp only [pressure]
  generalize (if maxKeys < majra.keyCount (majra.evictStale limiter (clock 1) pressureNs).1 then
    majra.evictStale (majra.evictStale limiter (clock 1) pressureNs).1 (clock 2) pressureFloorNs
    else ((majra.evictStale limiter (clock 1) pressureNs).1, 0)).1 = swept
  split
  · exact Nat.le_trans (hmajra.evictTo swept (clock 3) trimKeys) (by decide)
  next hroom =>
    exact Nat.not_lt.1 hroom

/-- **A sweep leaves at most 4096 keys**, whatever its first rungs remove. -/
theorem keyCount_maybeSweep_le (hmajra : majra.Lawful)
    (hdue : (s.sinceSweep + 1) % (256 : Int64) = 0) :
    majra.keyCount (maybeSweep majra s clock).1.limiter ≤ maxKeys := by
  simp only [maybeSweep, hdue, ne_eq, not_true_eq_false, if_false]
  split
  · assumption
  · exact keyCount_pressure_le hmajra _

theorem maybeSweep_of_not_due (hdue : (s.sinceSweep + 1) % (256 : Int64) ≠ 0) :
    (maybeSweep majra s clock).1.limiter = s.limiter := by
  simp [maybeSweep, hdue]

theorem maybeSweep_sinceSweep : (maybeSweep majra s clock).1.sinceSweep = s.sinceSweep + 1 := by
  simp only [maybeSweep]
  split
  · rfl
  · split <;> rfl

theorem keyCount_check_le (hmajra : majra.Lawful) :
    majra.keyCount (check majra s request).1.limiter ≤ majra.keyCount s.limiter + 1 := by
  unfold check
  split
  · exact Nat.le_succ _
  · exact hmajra.check s.limiter _ _

theorem check_sinceSweep : (check majra s request).1.sinceSweep = s.sinceSweep := by
  unfold check
  split <;> rfl

/-- How many checks there were since the counter was last a multiple of 256. -/
def State.phase (s : State σ) : Int := s.sinceSweep.toInt % 256

theorem toInt_mod_eq_zero {n : Int64} : n % (256 : Int64) = 0 ↔ n.toInt % 256 = 0 := by
  have h256 : (256 : Int64).toInt = 256 := rfl
  rw [← Int64.toInt_inj, Int64.toInt_mod, h256, Int64.toInt_zero, Int.dvd_iff_emod_eq_zero.symm,
    ← Int.dvd_iff_tmod_eq_zero]

/-- The counter wraps around at a multiple of 256. -/
theorem toInt_succ_mod (n : Int64) : (n + 1).toInt % 256 = (n.toInt + 1) % 256 := by
  have hone : (1 : Int64).toInt = 1 := rfl
  rw [Int64.toInt_add, hone, Int.bmod_def]
  split <;> omega

/-- What holds between requests: one key more than a sweep leaves, and one for each check since. -/
def Bounded (majra : Majra σ) (s : State σ) : Prop :=
  (majra.keyCount s.limiter : Int) ≤ maxKeys + 1 + s.phase

/-- A request keeps the keys bounded. -/
theorem Bounded.step (hmajra : majra.Lawful) (h : Bounded majra s) :
    Bounded majra (checkRequest majra s request).1 := by
  have hcheck : majra.keyCount (checkRequest majra s request).1.limiter ≤
      majra.keyCount (maybeSweep majra s request.clock).1.limiter + 1 := keyCount_check_le hmajra
  have hcount : (checkRequest majra s request).1.phase = (s.sinceSweep.toInt + 1) % 256 := by
    simp only [State.phase, checkRequest, check_sinceSweep, maybeSweep_sinceSweep, toInt_succ_mod]
  simp only [Bounded, hcount] at h ⊢
  by_cases hdue : (s.sinceSweep + 1) % (256 : Int64) = 0
  · have hswept : majra.keyCount (maybeSweep majra s request.clock).1.limiter ≤ maxKeys :=
      keyCount_maybeSweep_le hmajra hdue
    omega
  · -- no sweep: one more check, and at most one more key
    rw [maybeSweep_of_not_due hdue] at hcheck
    rw [toInt_mod_eq_zero, toInt_succ_mod] at hdue
    simp only [State.phase] at h
    omega

/-- **At most 4096 + 256 keys**, after every list of requests with whatever keys, at any rate, burst
and clock. -/
theorem keyCount_le (majra : Majra σ) (hmajra : majra.Lawful) (rateX1000 burst : Int64)
    (rs : List Request)
    (s : State σ) (h : (requests majra).exec (new majra rateX1000 burst) rs = some s) :
    majra.keyCount s.limiter ≤ maxKeys + sweepEvery := by
  have hbounded : Bounded majra s := by
    refine (requests majra).exec_invariant ?_ ?_ h
    · simp [Bounded, new, hmajra.new, State.phase, maxKeys]
    · rintro s request s' hs hstep
      cases hstep
      exact hs.step hmajra
  have hphase : s.phase < 256 := Int.emod_lt_of_pos _ (by decide)
  simp only [Bounded, maxKeys] at hbounded
  simp only [maxKeys, sweepEvery]
  omega

/-- A bucket: its key, its tokens in thousandths and when it was last seen. -/
structure Bucket where
  key : Bytes
  tokens : Int
  seen : Int
  deriving DecidableEq

/-- Buckets of one rate and burst, the least recently seen first. -/
structure Buckets where
  rate : Int
  burst : Int
  buckets : List Bucket
  deriving DecidableEq

/-- The tokens of a bucket at a time. -/
def Buckets.refill (b : Buckets) (now : Int) (k : Bucket) : Int :=
  min (b.burst * 1000) (k.tokens + (now - k.seen) * b.rate / 1000000000)

/-- Token buckets that refill, with a trim of the least recently seen. -/
def tokenBuckets : Majra Buckets where
  new rate burst := ⟨rate.toInt, burst.toInt, []⟩
  check b now key :=
    let tokens := (b.buckets.find? fun k => k.key = key).elim (b.burst * 1000) (b.refill now)
    let rest := b.buckets.eraseP fun k => k.key = key
    let allowed := 1000 ≤ tokens
    ({ b with buckets := rest ++ [⟨key, if allowed then tokens - 1000 else tokens, now⟩] }, allowed)
  evictStale b now age :=
    let kept := b.buckets.filter fun k =>
      now - k.seen ≤ age.toInt || b.refill now k < b.burst * 1000
    ({ b with buckets := kept }, .ofNat (b.buckets.length - kept.length))
  evictTo b _ n :=
    ({ b with buckets := b.buckets.drop (b.buckets.length - n) }, .ofNat (b.buckets.length - n))
  keyCount b := b.buckets.length

theorem tokenBuckets_lawful : tokenBuckets.Lawful where
  new _ _ := rfl
  check b _ _ := by
    simp only [tokenBuckets, List.length_append, List.length_singleton]
    exact Nat.add_le_add_right (List.length_eraseP_le ..) 1
  evictTo b _ n := by
    simp only [tokenBuckets, List.length_drop]
    omega

/-- One request of a client, and 255 of another more than five minutes later. -/
def idleClient : List Request :=
  ⟨ascii "a", fun _ => 0, true⟩ :: List.replicate 255 ⟨ascii "b", fun _ => 301 * nsPerSec, true⟩

/-- The sweep at the last request frees the idle client's bucket. -/
theorem keyCount_le_idleClient :
    ∃ s, (requests tokenBuckets).exec (new tokenBuckets 1000 1) idleClient = some s ∧
      tokenBuckets.keyCount s.limiter = 1 ∧
      tokenBuckets.keyCount s.limiter ≤ maxKeys + sweepEvery := by
  have hhalf : (requests tokenBuckets).exec (new tokenBuckets 1000 1) (idleClient.take 128) =
      some ⟨⟨1000, 1, [⟨ascii "a", 0, 0⟩, ⟨ascii "b", 0, 301 * nsPerSec⟩]⟩, evictionNs, 128⟩ := by
    decide +kernel
  have hrest : (requests tokenBuckets).exec
      ⟨⟨1000, 1, [⟨ascii "a", 0, 0⟩, ⟨ascii "b", 0, 301 * nsPerSec⟩]⟩, evictionNs, 128⟩
      (idleClient.drop 128) =
        some ⟨⟨1000, 1, [⟨ascii "b", 0, 301 * nsPerSec⟩]⟩, evictionNs, 256⟩ := by
    decide +kernel
  have hrun := (Machine.exec_append _ hhalf).trans hrest
  rw [List.take_append_drop] at hrun
  exact ⟨_, hrun, rfl, keyCount_le tokenBuckets tokenBuckets_lawful 1000 1 idleClient _ hrun⟩

end Agnosai.RateLimit
