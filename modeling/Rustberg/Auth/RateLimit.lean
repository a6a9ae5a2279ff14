import Mathlib.Algebra.Order.Floor.Ring
import Mathlib.Data.Rat.Floor
import Rustberg.Base.IdleCache
import Rustberg.Base.Meter
import Rustberg.Base.Net

/-!
# Rate limits

`auth/rate_limit.rs`: a token bucket a client and a tenant, and the
failures of a client that end in a ban. Instants and durations are whole
nanoseconds; what the source computes in `f64` is computed exactly. A
token bucket is a meter of requests, and `TokenBucket.traffic` bounds
what any run of requests is granted.
-/

namespace Rustberg.Auth

open Net

/-- `Duration::from_secs` -/
def fromSecs (secs : Nat) : Nat := secs * 10 ^ 9

/-- `Duration::as_secs`, the part of a second dropped. -/
def asSecs (duration : Nat) : Nat := duration / 10 ^ 9

/-- `Duration::as_secs_f64` -/
def asSecsExact (duration : Nat) : ℚ := duration / 10 ^ 9

/-! ## Configuration -/

def saturatingMul (a : UInt32) (factor : Nat) : UInt32 :=
  .ofNat (min (a.toNat * factor) (UInt32.size - 1))

/-- `[rate_limit]` of the configuration file. -/
structure RateLimitConfigFile where
  enabled : Bool
  requestsPerSecond : UInt32
  burstSize : UInt32
  maxAuthFailures : UInt32
  lockoutDurationSeconds : UInt64
  deriving Repr

def RateLimitConfigFile.default : RateLimitConfigFile where
  enabled := true
  requestsPerSecond := 100
  burstSize := 200
  maxAuthFailures := 5
  lockoutDurationSeconds := 300

/-- The part of `validate` that is about rate limits. -/
def RateLimitConfigFile.validate (file : RateLimitConfigFile) : Except Text Unit :=
  if file.enabled then
    if file.requestsPerSecond = 0 then
      .error ("rate_limit.requests_per_second must be > 0. To turn rate limiting off, " ++
        "set rate_limit.enabled = false.").toList
    else if file.burstSize = 0 then
      .error ("rate_limit.burst_size must be > 0: a bucket with no capacity never " ++
        "admits a request. To turn rate limiting off, set rate_limit.enabled = false.").toList
    else .ok ()
  else .ok ()

structure RateLimitConfig where
  enabled : Bool
  perIpRequests : UInt32
  perIpBurst : UInt32
  perTenantRequests : UInt32
  perTenantBurst : UInt32
  authFailLimit : UInt32
  authFailBanDuration : Nat
  deriving Repr

namespace RateLimitConfig

def default : RateLimitConfig where
  enabled := true
  perIpRequests := 1000
  perIpBurst := 100
  perTenantRequests := 10000
  perTenantBurst := 1000
  authFailLimit := 10
  authFailBanDuration := fromSecs 300

def disabled : RateLimitConfig := { default with enabled := false }

/-- `from_file_config`: the file counts requests by the second, the limiter by the minute. -/
def fromFileConfig (file : RateLimitConfigFile) : RateLimitConfig :=
  if file.enabled then
    { enabled := true
      perIpRequests := saturatingMul file.requestsPerSecond 60
      perIpBurst := file.burstSize
      perTenantRequests := saturatingMul file.requestsPerSecond 600
      perTenantBurst := saturatingMul file.burstSize 10
      authFailLimit := file.maxAuthFailures
      authFailBanDuration := fromSecs file.lockoutDurationSeconds.toNat }
  else disabled

/-- A limiter that limits, rather than refusing everything. -/
structure Admits (config : RateLimitConfig) : Prop where
  burst : 1 ≤ config.perIpBurst.toNat
  /-- A token a second at least. -/
  requests : 60 ≤ config.perIpRequests.toNat

theorem admits_of_validate {file : RateLimitConfigFile} (h : file.validate = .ok ())
    (henabled : (fromFileConfig file).enabled = true) : (fromFileConfig file).Admits := by
  have hfile : file.enabled = true := by
    by_contra hoff
    rw [fromFileConfig, if_neg hoff] at henabled
    cases henabled
  have hne : file.requestsPerSecond ≠ 0 ∧ file.burstSize ≠ 0 := by
    rw [RateLimitConfigFile.validate, if_pos hfile] at h
    split at h
    · cases h
    · split at h
      · cases h
      · exact ⟨‹_›, ‹_›⟩
  have hpos : ∀ {a : UInt32}, a ≠ 0 → 1 ≤ a.toNat := fun ha =>
    Nat.one_le_iff_ne_zero.mpr fun hzero => ha (UInt32.toNat_inj.mp hzero)
  rw [fromFileConfig, if_pos hfile]
  refine ⟨hpos hne.2, ?_⟩
  have hone := hpos hne.1
  have hsize : UInt32.size = 4294967296 := rfl
  dsimp only [saturatingMul]
  rw [UInt32.toNat_ofNat_of_lt' (by omega)]
  omega

end RateLimitConfig

/-! ## Token buckets -/

structure TokenBucket where
  capacity : UInt32
  tokens : ℚ
  refillRate : ℚ
  lastRefill : Nat
  tokens_nonneg : 0 ≤ tokens
  tokens_le : tokens ≤ capacity.toNat
  refillRate_nonneg : 0 ≤ refillRate

namespace TokenBucket

def new (capacity requestsPerMinute : UInt32) (now : Nat) : TokenBucket where
  capacity := capacity
  tokens := capacity.toNat
  refillRate := requestsPerMinute.toNat / 60
  lastRefill := now
  tokens_nonneg := Nat.cast_nonneg _
  tokens_le := le_refl _
  refillRate_nonneg := div_nonneg (Nat.cast_nonneg _) (by norm_num)

/-- `refill`; an instant before the last refill is that refill's. -/
def refill (bucket : TokenBucket) (now : Nat) : TokenBucket where
  capacity := bucket.capacity
  tokens := min (bucket.tokens + asSecsExact (now - bucket.lastRefill) * bucket.refillRate)
    bucket.capacity.toNat
  refillRate := bucket.refillRate
  lastRefill := now
  tokens_nonneg := le_min (add_nonneg bucket.tokens_nonneg (mul_nonneg
    (div_nonneg (Nat.cast_nonneg _) (by positivity)) bucket.refillRate_nonneg)) (Nat.cast_nonneg _)
  tokens_le := min_le_right ..
  refillRate_nonneg := bucket.refillRate_nonneg

/-- `try_acquire` -/
def tryAcquire (bucket : TokenBucket) (now : Nat) : Bool × TokenBucket :=
  let refilled := bucket.refill now
  if h : 1 ≤ refilled.tokens then
    (true, { refilled with
      tokens := refilled.tokens - 1
      tokens_nonneg := sub_nonneg.mpr h
      tokens_le := (sub_le_self _ zero_le_one).trans refilled.tokens_le })
  else (false, refilled)

/-- `remaining`, floored. -/
def remaining (bucket : TokenBucket) : Nat := min ⌊bucket.tokens⌋₊ (UInt32.size - 1)

/-- `retry_after`: with no rate the quotient is infinite, and its cast to `u64` saturates. -/
def retryAfter (bucket : TokenBucket) : Nat :=
  if 1 ≤ bucket.tokens then 0
  else if bucket.refillRate = 0 then UInt64.size - 1
  else min ⌈(1 - bucket.tokens) / bucket.refillRate⌉₊ (UInt64.size - 1)

/-! ### Buckets as meters -/

/-- The bucket as a meter of tokens over seconds. -/
def meter (bucket : TokenBucket) : Meter ℚ where
  capacity := bucket.capacity.toNat
  level := bucket.tokens
  rate := bucket.refillRate
  last := asSecsExact bucket.lastRefill
  level_nonneg := bucket.tokens_nonneg
  level_le := bucket.tokens_le
  rate_nonneg := bucket.refillRate_nonneg

/-- The bucket after a request at each of the times. -/
def run (bucket : TokenBucket) (times : List Nat) : TokenBucket :=
  times.foldl (fun bucket now => (bucket.tryAcquire now).2) bucket

/-- The times whose request was granted. -/
def granted (bucket : TokenBucket) : List Nat → List Nat
  | [] => []
  | now :: times =>
      if (bucket.tryAcquire now).1 then now :: (bucket.tryAcquire now).2.granted times
      else (bucket.tryAcquire now).2.granted times

/-- No refill is cut at the capacity. -/
def Uncut (bucket : TokenBucket) : List Nat → Prop
  | [] => True
  | now :: times =>
      bucket.tokens + asSecsExact (now - bucket.lastRefill) * bucket.refillRate ≤
        bucket.capacity.toNat ∧ (bucket.tryAcquire now).2.Uncut times

end TokenBucket

theorem asSecsExact_le {a b : Nat} : asSecsExact a ≤ asSecsExact b ↔ a ≤ b := by
  unfold asSecsExact
  rw [div_le_div_iff_of_pos_right (by positivity), Nat.cast_le]

theorem asSecsExact_add (a b : Nat) : asSecsExact (a + b) = asSecsExact a + asSecsExact b := by
  unfold asSecsExact
  push_cast
  exact add_div ..

theorem asSecsExact_sub {a b : Nat} (h : b ≤ a) :
    asSecsExact (a - b) = asSecsExact a - asSecsExact b := by
  rw [eq_sub_iff_add_eq, ← asSecsExact_add, Nat.sub_add_cancel h]

theorem asSecsExact_nonneg (a : Nat) : 0 ≤ asSecsExact a :=
  div_nonneg (Nat.cast_nonneg _) (by positivity)

namespace TokenBucket

section

variable (bucket : TokenBucket) {now : Nat} (h : bucket.lastRefill ≤ now)

include h

theorem inflow_meter : bucket.meter.inflow (asSecsExact now) =
    bucket.tokens + asSecsExact (now - bucket.lastRefill) * bucket.refillRate := by
  rw [asSecsExact_sub h]
  rfl

theorem levelAt_meter : bucket.meter.levelAt (asSecsExact now) = (bucket.refill now).tokens := by
  rw [Meter.levelAt, bucket.inflow_meter h]
  rfl

/-- A request is a draw on the meter. -/
theorem meter_tryAcquire :
    ((bucket.tryAcquire now).1, (bucket.tryAcquire now).2.meter) =
      bucket.meter.take (asSecsExact now) := by
  have hlast : bucket.meter.last ≤ asSecsExact now := asSecsExact_le.mpr h
  have hlevel := bucket.levelAt_meter h
  unfold tryAcquire Meter.take
  by_cases hone : 1 ≤ (bucket.refill now).tokens
  · rw [dif_pos hone, dif_pos ⟨hlast, hlevel.symm ▸ hone⟩]
    simp only [hlevel]
    rfl
  · rw [dif_neg hone, dif_neg fun hboth => hone (hlevel ▸ hboth.2), dif_pos hlast]
    simp only [hlevel]
    rfl

end

@[simp] theorem tryAcquire_lastRefill (bucket : TokenBucket) (now : Nat) :
    (bucket.tryAcquire now).2.lastRefill = now := by
  unfold tryAcquire
  dsimp only
  split <;> rfl

@[simp] theorem tryAcquire_capacity (bucket : TokenBucket) (now : Nat) :
    (bucket.tryAcquire now).2.capacity = bucket.capacity := by
  unfold tryAcquire
  dsimp only
  split <;> rfl

@[simp] theorem tryAcquire_refillRate (bucket : TokenBucket) (now : Nat) :
    (bucket.tryAcquire now).2.refillRate = bucket.refillRate := by
  unfold tryAcquire
  dsimp only
  split <;> rfl

/-- Times of requests, from the bucket's last refill on. -/
def Onward (bucket : TokenBucket) (times : List Nat) : Prop :=
  (bucket.lastRefill :: times).Pairwise (· ≤ ·)

section

variable {bucket : TokenBucket} {now : Nat} {times : List Nat}

theorem Onward.head (h : bucket.Onward (now :: times)) : bucket.lastRefill ≤ now :=
  (List.pairwise_cons.mp h).1 now (List.mem_cons_self ..)

theorem Onward.tail (h : bucket.Onward (now :: times)) :
    (bucket.tryAcquire now).2.Onward times := by
  rw [Onward, tryAcquire_lastRefill]
  exact (List.pairwise_cons.mp h).2

theorem Onward.meter (h : bucket.Onward times) :
    bucket.meter.Onward (times.map asSecsExact) :=
  List.Pairwise.map (l := bucket.lastRefill :: times) asSecsExact (fun _ _ => asSecsExact_le.mpr) h

/-- The run of a bucket is the run of its meter. -/
theorem meter_run (h : bucket.Onward times) :
    (bucket.run times).meter = bucket.meter.run (times.map asSecsExact) ∧
      (bucket.granted times).map asSecsExact = bucket.meter.drawn (times.map asSecsExact) ∧
      (bucket.Uncut times ↔ bucket.meter.Uncut (times.map asSecsExact)) := by
  induction times generalizing bucket with
  | nil => exact ⟨rfl, rfl, Iff.rfl⟩
  | cons now times ih =>
      obtain ⟨hrun, hgranted, huncut⟩ := ih h.tail
      have hstep := bucket.meter_tryAcquire h.head
      have hfst := (Prod.ext_iff.mp hstep).1
      have hsnd := (Prod.ext_iff.mp hstep).2
      dsimp only at hfst hsnd
      rw [hsnd] at hrun hgranted huncut
      refine ⟨hrun, ?_, ?_⟩
      · rw [granted, List.map_cons, Meter.drawn, ← hfst, ← hgranted]
        split <;> rfl
      · rw [Uncut, List.map_cons, Meter.Uncut, huncut, bucket.inflow_meter h.head]
        rfl

end

/-- In any window no more is granted than the capacity and the window's
refill; the tokens never leave `[0, capacity]`; and where no refill is cut,
a request is granted exactly where a token has accrued. -/
theorem traffic (bucket : TokenBucket) {times : List Nat} (h : bucket.Onward times) :
    (∀ (start : Nat) (span : Nat),
      (((bucket.granted times).filter fun now => start ≤ now ∧ now ≤ start + span).length : ℚ) ≤
        bucket.capacity.toNat + bucket.refillRate * asSecsExact span) ∧
    (∀ past, past <+: times →
      0 ≤ (bucket.run past).tokens ∧ (bucket.run past).tokens ≤ bucket.capacity.toNat) ∧
    ∀ past now, past ++ [now] <+: times → bucket.Uncut (past ++ [now]) →
      (((bucket.run past).tryAcquire now).1 = true ↔
        ((bucket.granted past).length : ℚ) + 1 ≤
          bucket.tokens + asSecsExact (now - bucket.lastRefill) * bucket.refillRate) := by
  have hpast : ∀ {past}, past <+: times → bucket.Onward past := fun hpast =>
    List.Pairwise.sublist (List.Sublist.cons_cons _ hpast.sublist) h
  refine ⟨?_, ?_, ?_⟩
  · intro start span
    have hmeter := (meter_run h).2.1
    have hbound := bucket.meter.drawn_window_le h.meter (asSecsExact start)
      (asSecsExact_nonneg span)
    rw [← hmeter, List.filter_map, List.length_map] at hbound
    simp only [Function.comp_def, ← asSecsExact_add, asSecsExact_le] at hbound
    exact hbound
  · intro past hprefix
    have hcapacity := congrArg Meter.capacity (meter_run (hpast hprefix)).1
    rw [Meter.run_capacity] at hcapacity
    exact ⟨(bucket.run past).tokens_nonneg, (bucket.run past).tokens_le.trans_eq hcapacity⟩
  · intro past now hprefix huncut
    have honward := hpast hprefix
    have hbefore := hpast ((List.prefix_append past [now]).trans hprefix)
    obtain ⟨hrun, hgranted, -⟩ := meter_run hbefore
    have hmeter := Onward.meter honward
    rw [(meter_run honward).2.2] at huncut
    rw [List.map_append] at hmeter huncut
    have hnow : bucket.lastRefill ≤ now :=
      (List.pairwise_cons.mp honward).1 now (List.mem_append_right _ (List.mem_singleton_self _))
    have hlast : (bucket.run past).lastRefill ≤ now := by
      rw [← asSecsExact_le]
      have hle := bucket.meter.run_last_le hmeter
      rw [← hrun] at hle
      exact hle
    have hbalance := bucket.meter.take_iff_balance hmeter huncut
    rw [← hrun, ← (bucket.run past).meter_tryAcquire hlast, ← hgranted, List.length_map,
      bucket.inflow_meter hnow] at hbalance
    exact hbalance

/-- Three requests at once on a bucket of two. -/
theorem traffic_burst :
    (((new 2 60 0).granted [0, 0, 0]).filter fun now => 0 ≤ now ∧ now ≤ 0 + 0).length ≤
      (2 : ℚ) + 1 * 0 := by
  have h := (traffic (new 2 60 0)
    (show (new 2 60 0).Onward [0, 0, 0] by unfold Onward new; decide)).1 0 0
  have hrate : (new 2 60 0).refillRate = 1 := by
    norm_num [new, show UInt32.toNat 60 = 60 from rfl]
  have hspan : asSecsExact 0 = 0 := by norm_num [asSecsExact]
  rw [hrate, hspan] at h
  exact h

end TokenBucket

end Rustberg.Auth
