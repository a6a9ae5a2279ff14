import Rustberg.Auth.RateLimit

/-!
# The rate limiter

`RateLimiter` of `auth/rate_limit.rs`: caches of token buckets and of
authentication failures, and the calls the middleware makes on them.
`retryAfter_iff` says when a refused client that waits as long as it was
told is let in: the part of a second that is dropped from what a ban has
left is the exception.
-/

namespace Rustberg.Auth

open Net

/-! ## Clients -/

/-- The unit a rate limit and a ban apply to. -/
structure ClientBucket where
  addr : IpAddr
  deriving DecidableEq

/-- An IPv4 address, also a mapped one, or the `/64` of an IPv6 address. -/
def ClientBucket.of : IpAddr → ClientBucket
  | .v6 addr =>
      match addr.toIpv4Mapped with
      | some v4 => ⟨.v4 v4⟩
      | none => ⟨.v6 ⟨Vector.ofFn fun i => if i.val < 8 then addr.octets[i] else 0⟩⟩
  | .v4 addr => ⟨.v4 addr⟩

/-! ## Answers -/

inductive LimitType where
  | none
  | perIp
  | perTenant
  | ipBanned
  deriving DecidableEq, Repr

structure RateLimitInfo where
  limit : UInt32
  remaining : Nat
  resetSecs : Nat
  limitType : LimitType
  deriving DecidableEq, Repr

def RateLimitInfo.unlimited : RateLimitInfo where
  limit := .ofNat (UInt32.size - 1)
  remaining := UInt32.size - 1
  resetSecs := 0
  limitType := .none

structure RateLimitExceeded where
  limit : UInt32
  remaining : Nat
  retryAfter : Nat
  limitType : LimitType
  deriving DecidableEq, Repr

/-! ## Failures -/

structure AuthFailureEntry where
  failures : UInt32
  firstFailure : Nat
  banUntil : Option Nat
  deriving DecidableEq, Repr

namespace AuthFailureEntry

def new (now : Nat) : AuthFailureEntry := ⟨0, now, none⟩

def isBanned (entry : AuthFailureEntry) (now : Nat) : Bool :=
  entry.banUntil.any fun deadline => now < deadline

def banRemainingSecs (entry : AuthFailureEntry) (now : Nat) : Option Nat :=
  entry.banUntil.bind fun deadline =>
    if now < deadline then some (asSecs (deadline - now)) else none

/-- The deadline of a ban that is in force. -/
def ban (entry : AuthFailureEntry) (now : Nat) : Option Nat :=
  entry.banUntil.filter fun deadline => now < deadline

theorem isBanned_eq (entry : AuthFailureEntry) (now : Nat) :
    entry.isBanned now = (entry.ban now).isSome := by
  unfold isBanned ban
  cases entry.banUntil with
  | none => rfl
  | some deadline => by_cases h : now < deadline <;> simp [Option.filter, h]

theorem banRemainingSecs_eq (entry : AuthFailureEntry) (now : Nat) :
    entry.banRemainingSecs now = (entry.ban now).map fun deadline => asSecs (deadline - now) := by
  unfold banRemainingSecs ban
  cases entry.banUntil with
  | none => rfl
  | some deadline => by_cases h : now < deadline <;> simp [Option.filter, h]

theorem ban_eq_some {entry : AuthFailureEntry} {now deadline : Nat} :
    entry.ban now = some deadline ↔ entry.banUntil = some deadline ∧ now < deadline := by
  rw [ban, Option.filter_eq_some_iff, decide_eq_true_iff]

/-- One more failure. A first failure more than an hour ago starts the count again. -/
def counted (entry : AuthFailureEntry) (now : Nat) : AuthFailureEntry :=
  let entry := if fromSecs 3600 < now - entry.firstFailure then new now else entry
  { entry with failures := .ofNat (min (entry.failures.toNat + 1) (UInt32.size - 1)) }

/-- The failure and the ban it may earn. A deadline past `latest`, the last
instant the clock has, panics with the failure counted. -/
def record (config : RateLimitConfig) (latest : Nat) (entry : AuthFailureEntry) (now : Nat) :
    Option Unit × AuthFailureEntry :=
  let entry := entry.counted now
  if config.authFailLimit ≤ entry.failures then
    if now + config.authFailBanDuration ≤ latest then
      (some (), { entry with banUntil := some (now + config.authFailBanDuration) })
    else (none, entry)
  else (some (), entry)

end AuthFailureEntry

/-! ## The limiter -/

/-- `ENTRY_IDLE_TIMEOUT` -/
def entryIdleTimeout : Nat := fromSecs 300

/-- How long the failures of an idle client are kept. -/
def failureIdleTimeout : Nat := fromSecs 3600

structure RateLimiter where
  config : RateLimitConfig
  ipLimiters : IdleCache entryIdleTimeout ClientBucket TokenBucket
  tenantLimiters : IdleCache entryIdleTimeout Text TokenBucket
  authFailures : IdleCache failureIdleTimeout ClientBucket AuthFailureEntry

/-- A request against a bucket. -/
def TokenBucket.acquire (bucket : TokenBucket) (now : Nat) (limit : UInt32)
    (limitType : LimitType) : Except RateLimitExceeded RateLimitInfo × TokenBucket :=
  let (acquired, bucket) := bucket.tryAcquire now
  if acquired then
    (.ok { limit := limit, remaining := bucket.remaining, resetSecs := 60, limitType := limitType },
      bucket)
  else
    (.error { limit := limit, remaining := 0, retryAfter := bucket.retryAfter,
              limitType := limitType }, bucket)

namespace RateLimiter

def new (config : RateLimitConfig) : RateLimiter := ⟨config, .empty, .empty, .empty⟩

def isIpBanned (l : RateLimiter) (now : Nat) (ip : IpAddr) : Bool × RateLimiter :=
  let (entry, authFailures) := l.authFailures.get now (.of ip)
  (entry.any fun entry => entry.isBanned now, { l with authFailures := authFailures })

def ipBanRemaining (l : RateLimiter) (now : Nat) (ip : IpAddr) : Option Nat × RateLimiter :=
  let (entry, authFailures) := l.authFailures.get now (.of ip)
  (entry.bind fun entry => entry.banRemainingSecs now, { l with authFailures := authFailures })

def recordAuthFailure (latest : Nat) (l : RateLimiter) (now : Nat) (ip : IpAddr) :
    Option Unit × RateLimiter :=
  if l.config.enabled then
    let (entry, authFailures) := l.authFailures.getWith now (.of ip) (.new now)
    let (outcome, entry) := entry.record l.config latest now
    (outcome, { l with authFailures := authFailures.assign (.of ip) entry })
  else (some (), l)

def recordAuthSuccess (l : RateLimiter) (ip : IpAddr) : RateLimiter :=
  if l.config.enabled then { l with authFailures := l.authFailures.invalidate (.of ip) } else l

def checkIpLimit (l : RateLimiter) (now : Nat) (ip : IpAddr) :
    Except RateLimitExceeded RateLimitInfo × RateLimiter :=
  if l.config.enabled then
    let (banned, l) := l.isIpBanned now ip
    if banned then
      let (remaining, l) := l.ipBanRemaining now ip
      (.error { limit := l.config.perIpRequests, remaining := 0, retryAfter := remaining.getD 60,
                limitType := .ipBanned }, l)
    else
      let (bucket, ipLimiters) := l.ipLimiters.getWith now (.of ip)
        (.new l.config.perIpBurst l.config.perIpRequests now)
      let (answer, bucket) := bucket.acquire now l.config.perIpRequests .perIp
      (answer, { l with ipLimiters := ipLimiters.assign (.of ip) bucket })
  else (.ok .unlimited, l)

def checkTenantLimit (l : RateLimiter) (now : Nat) (tenantId : Text) :
    Except RateLimitExceeded RateLimitInfo × RateLimiter :=
  if l.config.enabled then
    let (bucket, tenantLimiters) := l.tenantLimiters.getWith now tenantId
      (.new l.config.perTenantBurst l.config.perTenantRequests now)
    let (answer, bucket) := bucket.acquire now l.config.perTenantRequests .perTenant
    (answer, { l with tenantLimiters := tenantLimiters.assign tenantId bucket })
  else (.ok .unlimited, l)

/-- The client's limit, then the tenant's; of two grants the one with less left. -/
def checkLimits (l : RateLimiter) (now : Nat) (ip : IpAddr) (tenantId : Option Text) :
    Except RateLimitExceeded RateLimitInfo × RateLimiter :=
  match l.checkIpLimit now ip, tenantId with
  | (.ok ipInfo, l), some tenantId =>
      match l.checkTenantLimit now tenantId with
      | (.ok tenantInfo, l) =>
          (.ok (if tenantInfo.remaining < ipInfo.remaining then tenantInfo else ipInfo), l)
      | refused => refused
  | answer, _ => answer

def peekIpLimit (l : RateLimiter) (now : Nat) (ip : IpAddr) : Option RateLimitInfo × RateLimiter :=
  if l.config.enabled then
    let (bucket, ipLimiters) := l.ipLimiters.get now (.of ip)
    (bucket.map fun bucket =>
      { limit := l.config.perIpRequests, remaining := bucket.remaining, resetSecs := 60,
        limitType := .perIp }, { l with ipLimiters := ipLimiters })
  else (some .unlimited, l)

end RateLimiter

/-! ## Calls -/

/-- What changes a limiter: the calls, and what the capacity of a cache evicts. -/
inductive LimiterCall where
  | checkIpLimit (ip : IpAddr)
  | checkTenantLimit (tenantId : Text)
  | checkLimits (ip : IpAddr) (tenantId : Option Text)
  | peekIpLimit (ip : IpAddr)
  | isIpBanned (ip : IpAddr)
  | ipBanRemaining (ip : IpAddr)
  | recordAuthFailure (ip : IpAddr)
  | recordAuthSuccess (ip : IpAddr)
  | evictIp (client : ClientBucket)
  | evictTenant (tenantId : Text)
  | evictFailures (client : ClientBucket)

/-- The client whose entries a call reads or writes. -/
def LimiterCall.client : LimiterCall → Option ClientBucket
  | .checkIpLimit ip | .checkLimits ip _ | .peekIpLimit ip | .isIpBanned ip | .ipBanRemaining ip
  | .recordAuthFailure ip | .recordAuthSuccess ip => some (.of ip)
  | .evictIp client | .evictFailures client => some client
  | .checkTenantLimit _ | .evictTenant _ => none

namespace RateLimiter

variable (latest : Nat)

def step (l : RateLimiter) (now : Nat) : LimiterCall → RateLimiter
  | .checkIpLimit ip => (l.checkIpLimit now ip).2
  | .checkTenantLimit tenantId => (l.checkTenantLimit now tenantId).2
  | .checkLimits ip tenantId => (l.checkLimits now ip tenantId).2
  | .peekIpLimit ip => (l.peekIpLimit now ip).2
  | .isIpBanned ip => (l.isIpBanned now ip).2
  | .ipBanRemaining ip => (l.ipBanRemaining now ip).2
  | .recordAuthFailure ip => (l.recordAuthFailure latest now ip).2
  | .recordAuthSuccess ip => l.recordAuthSuccess ip
  | .evictIp client => { l with ipLimiters := l.ipLimiters.invalidate client }
  | .evictTenant tenantId => { l with tenantLimiters := l.tenantLimiters.invalidate tenantId }
  | .evictFailures client => { l with authFailures := l.authFailures.invalidate client }

/-- The calls of a run, each with its time. -/
abbrev Calls := List (Nat × LimiterCall)

def run (l : RateLimiter) (calls : Calls) : RateLimiter :=
  calls.foldl (fun l call => l.step latest call.1 call.2) l

/-- The clock does not run backwards, from `start` to `now`. -/
def Ordered (start : Nat) (calls : Calls) (now : Nat) : Prop :=
  (start :: calls.map Prod.fst ++ [now]).Pairwise (· ≤ ·)

/-! ## Single calls -/

section

variable (l : RateLimiter) (now : Nat) (ip : IpAddr)

/-- The deadline of the ban a call at `now` finds in force. -/
def ban (client : ClientBucket) : Option Nat :=
  (l.authFailures.live now client).bind fun entry => entry.ban now

/-- The bucket a call at `now` finds, or starts. -/
def bucketOf (client : ClientBucket) : TokenBucket :=
  (l.ipLimiters.live now client).getD (.new l.config.perIpBurst l.config.perIpRequests now)

/-- The limiter after an access to the client's failures. -/
def seen (client : ClientBucket) : RateLimiter :=
  { l with authFailures := (l.authFailures.get now client).2 }

theorem isIpBanned_eq :
    l.isIpBanned now ip = ((l.ban now (.of ip)).isSome, l.seen now (.of ip)) := by
  refine Prod.ext ?_ rfl
  show (l.authFailures.get now (.of ip)).1.any _ = _
  rw [IdleCache.get_fst, ban]
  cases l.authFailures.live now (.of ip) with
  | none => rfl
  | some entry => exact entry.isBanned_eq now

theorem ipBanRemaining_eq : l.ipBanRemaining now ip =
    ((l.ban now (.of ip)).map fun deadline => asSecs (deadline - now), l.seen now (.of ip)) := by
  refine Prod.ext ?_ rfl
  show (l.authFailures.get now (.of ip)).1.bind _ = _
  rw [IdleCache.get_fst, ban]
  cases l.authFailures.live now (.of ip) with
  | none => rfl
  | some entry => exact entry.banRemainingSecs_eq now

/-- An access changes neither what is live nor the ban in force. -/
@[simp] theorem ban_seen (client : ClientBucket) :
    (l.seen now client).ban now client = l.ban now client := by
  unfold ban seen
  cases hlive : l.authFailures.live now client with
  | none => rw [IdleCache.get_of_live_none hlive, hlive]
  | some entry => rw [IdleCache.get_of_live_some hlive, IdleCache.live_put_self]

theorem seen_seen (client : ClientBucket) :
    (l.seen now client).seen now client = l.seen now client := by
  unfold seen
  cases hlive : l.authFailures.live now client with
  | none =>
      rw [IdleCache.get_of_live_none hlive]
      dsimp only
      rw [IdleCache.get_of_live_none hlive]
  | some entry =>
      rw [IdleCache.get_of_live_some hlive]
      dsimp only
      rw [IdleCache.get_of_live_some (IdleCache.live_put_self ..)]
      simp [IdleCache.put]

variable {l now ip}

theorem checkIpLimit_of_ban (henabled : l.config.enabled = true) {deadline : Nat}
    (hban : l.ban now (.of ip) = some deadline) : l.checkIpLimit now ip =
      (.error { limit := l.config.perIpRequests, remaining := 0,
                retryAfter := asSecs (deadline - now),
                limitType := .ipBanned }, l.seen now (.of ip)) := by
  rw [checkIpLimit, if_pos henabled, isIpBanned_eq, hban]
  dsimp only
  rw [if_pos Option.isSome_some, ipBanRemaining_eq, ban_seen, hban, seen_seen]
  rfl

/-- An unbanned client is answered from its bucket. -/
theorem checkIpLimit_of_no_ban (henabled : l.config.enabled = true)
    (hban : l.ban now (.of ip) = none) : l.checkIpLimit now ip =
      (((l.bucketOf now (.of ip)).acquire now l.config.perIpRequests .perIp).1,
        { l.seen now (.of ip) with
          ipLimiters := (l.ipLimiters.put now (.of ip) (l.bucketOf now (.of ip))).assign (.of ip)
            ((l.bucketOf now (.of ip)).tryAcquire now).2 }) := by
  have hbucket : ∀ bucket : TokenBucket, ∀ limit limitType,
      (bucket.acquire now limit limitType).2 = (bucket.tryAcquire now).2 := by
    intro bucket limit limitType
    unfold TokenBucket.acquire
    dsimp only
    split <;> rfl
  rw [checkIpLimit, if_pos henabled, isIpBanned_eq, hban]
  dsimp only
  rw [if_neg (by simp), ← hbucket _ l.config.perIpRequests .perIp]
  rfl

/-- A client that is not banned, and whose bucket has a token, is let in. -/
theorem checkIpLimit_ok (henabled : l.config.enabled = true) (hban : l.ban now (.of ip) = none)
    (hbucket : ((l.bucketOf now (.of ip)).tryAcquire now).1 = true) :
    ∃ info, (l.checkIpLimit now ip).1 = .ok info := by
  rw [checkIpLimit_of_no_ban henabled hban, TokenBucket.acquire]
  dsimp only
  rw [if_pos hbucket]
  exact ⟨_, rfl⟩

/-- A ban that was seen lasts to its deadline, or until its client has been idle. -/
theorem ban_seen_later {client : ClientBucket} {deadline : Nat}
    (hban : l.ban now client = some deadline) (later : Nat) :
    (l.seen now client).ban later client =
      if later ≤ now + failureIdleTimeout ∧ later < deadline then some deadline else none := by
  obtain ⟨entry, hlive, hentry⟩ := Option.bind_eq_some_iff.mp hban
  obtain ⟨huntil, -⟩ := AuthFailureEntry.ban_eq_some.mp hentry
  have hslot : (l.seen now client).authFailures.slots client = some ⟨entry, now⟩ := by
    rw [seen, IdleCache.get_of_live_some hlive, IdleCache.slots_put]
  rw [ban, IdleCache.live, hslot]
  dsimp only
  by_cases hidle : later ≤ now + failureIdleTimeout
  · rw [if_pos hidle, Option.bind_some, AuthFailureEntry.ban, huntil]
    by_cases hlate : later < deadline <;> simp [Option.filter, hidle, hlate]
  · rw [if_neg hidle, if_neg fun hboth => hidle hboth.1]
    rfl

/-- A client that was seen unbanned stays so. -/
theorem no_ban_seen_later {client : ClientBucket} (hban : l.ban now client = none)
    {later : Nat} (hlater : now ≤ later) : (l.seen now client).ban later client = none := by
  by_contra hsome
  obtain ⟨deadline, hdeadline⟩ := Option.ne_none_iff_exists'.mp hsome
  obtain ⟨entry, hlive, hentry⟩ := Option.bind_eq_some_iff.mp hdeadline
  obtain ⟨huntil, hlt⟩ := AuthFailureEntry.ban_eq_some.mp hentry
  have hnow : l.authFailures.live now client = some entry := by
    cases hfound : l.authFailures.live now client with
    | none =>
        rw [seen, IdleCache.get_of_live_none hfound] at hlive
        obtain ⟨accessed, hslot, hidle⟩ := IdleCache.live_eq_some.mp hlive
        rw [IdleCache.live_eq_some.mpr ⟨accessed, hslot, hlater.trans hidle⟩] at hfound
        cases hfound
    | some found =>
        rw [seen, IdleCache.get_of_live_some hfound] at hlive
        obtain ⟨accessed, hslot, -⟩ := IdleCache.live_eq_some.mp hlive
        rw [IdleCache.slots_put] at hslot
        cases hslot
        rfl
  rw [ban, hnow, Option.bind_some,
    AuthFailureEntry.ban_eq_some.mpr ⟨huntil, hlater.trans_lt hlt⟩] at hban
  cases hban

end

theorem ban_congr {l l' : RateLimiter} {client : ClientBucket}
    (h : l.authFailures.slots client = l'.authFailures.slots client) (now : Nat) :
    l.ban now client = l'.ban now client := by
  rw [ban, ban, IdleCache.live_congr h]

/-! ## What a call can do -/

section

variable (l : RateLimiter) (now : Nat)

theorem checkTenantLimit_snd (tenantId : Text) : ∃ tenantLimiters,
    (l.checkTenantLimit now tenantId).2 = { l with tenantLimiters := tenantLimiters } := by
  unfold checkTenantLimit
  split
  · exact ⟨_, rfl⟩
  · exact ⟨_, rfl⟩

theorem checkLimits_snd (ip : IpAddr) (tenantId : Option Text) : ∃ tenantLimiters,
    (l.checkLimits now ip tenantId).2 =
      { (l.checkIpLimit now ip).2 with tenantLimiters := tenantLimiters } := by
  unfold checkLimits
  split
  next info l' tenantId hip =>
    obtain ⟨tenantLimiters, htenant⟩ := l'.checkTenantLimit_snd now tenantId
    refine ⟨tenantLimiters, ?_⟩
    rw [hip, ← htenant]
    split
    next hanswer => rw [hanswer]
    next => rfl
  next => exact ⟨_, rfl⟩

theorem checkIpLimit_config (ip : IpAddr) : (l.checkIpLimit now ip).2.config = l.config := by
  cases henabled : l.config.enabled with
  | false => rw [checkIpLimit, if_neg (by rw [henabled]; exact Bool.false_ne_true)]
  | true =>
      cases hban : l.ban now (.of ip) with
      | none => rw [checkIpLimit_of_no_ban henabled hban]; rfl
      | some deadline => rw [checkIpLimit_of_ban henabled hban]; rfl

theorem checkIpLimit_authFailures (ip : IpAddr) : (l.checkIpLimit now ip).2.authFailures =
    if l.config.enabled then (l.seen now (.of ip)).authFailures else l.authFailures := by
  cases henabled : l.config.enabled with
  | false =>
      have hoff : ¬ l.config.enabled = true := by rw [henabled]; exact Bool.false_ne_true
      rw [checkIpLimit, if_neg hoff]
      rfl
  | true =>
      rw [if_pos rfl]
      cases hban : l.ban now (.of ip) with
      | none => rw [checkIpLimit_of_no_ban henabled hban]
      | some deadline => rw [checkIpLimit_of_ban henabled hban]

theorem step_config (call : LimiterCall) : (l.step latest now call).config = l.config := by
  cases call with
  | checkIpLimit ip => exact l.checkIpLimit_config now ip
  | checkTenantLimit tenantId =>
      obtain ⟨_, h⟩ := l.checkTenantLimit_snd now tenantId
      rw [step, h]
  | checkLimits ip tenantId =>
      obtain ⟨_, h⟩ := l.checkLimits_snd now ip tenantId
      rw [step, h]
      exact l.checkIpLimit_config now ip
  | peekIpLimit ip =>
      rw [step, peekIpLimit]
      split <;> rfl
  | recordAuthFailure ip =>
      rw [step, recordAuthFailure]
      split <;> rfl
  | recordAuthSuccess ip =>
      rw [step, recordAuthSuccess]
      split <;> rfl
  | isIpBanned ip | ipBanRemaining ip | evictIp client | evictTenant tenantId
  | evictFailures client => rfl

/-- The limiter's record of a client. -/
def Same (l l' : RateLimiter) (client : ClientBucket) : Prop :=
  l.authFailures.slots client = l'.authFailures.slots client ∧
    l.ipLimiters.slots client = l'.ipLimiters.slots client

theorem checkIpLimit_other {ip : IpAddr} {client : ClientBucket} (h : client ≠ .of ip) :
    Same (l.checkIpLimit now ip).2 l client := by
  cases henabled : l.config.enabled with
  | false =>
      rw [checkIpLimit, if_neg (by rw [henabled]; exact Bool.false_ne_true)]
      exact ⟨rfl, rfl⟩
  | true =>
      have hseen := l.authFailures.slots_get_of_ne now h
      cases hban : l.ban now (.of ip) with
      | none =>
          rw [checkIpLimit_of_no_ban henabled hban]
          refine ⟨hseen, ?_⟩
          exact (IdleCache.slots_assign_of_ne _ _ h).trans (IdleCache.slots_put_of_ne _ _ _ h)
      | some deadline =>
          rw [checkIpLimit_of_ban henabled hban]
          exact ⟨hseen, rfl⟩

/-- A call leaves alone what is recorded of other clients. -/
theorem step_other {call : LimiterCall} {client : ClientBucket} (h : call.client ≠ some client) :
    Same (l.step latest now call) l client := by
  have hne : ∀ {other : ClientBucket}, call.client = some other → client ≠ other := by
    rintro other hcall rfl
    exact h hcall
  cases call with
  | checkIpLimit ip => exact l.checkIpLimit_other now (hne rfl)
  | checkTenantLimit tenantId =>
      obtain ⟨_, htenant⟩ := l.checkTenantLimit_snd now tenantId
      rw [step, htenant]
      exact ⟨rfl, rfl⟩
  | checkLimits ip tenantId =>
      obtain ⟨_, hlimits⟩ := l.checkLimits_snd now ip tenantId
      rw [step, hlimits]
      exact l.checkIpLimit_other now (hne rfl)
  | peekIpLimit ip =>
      rw [step, peekIpLimit]
      split
      · exact ⟨rfl, l.ipLimiters.slots_get_of_ne now (hne rfl)⟩
      · exact ⟨rfl, rfl⟩
  | isIpBanned ip | ipBanRemaining ip =>
      exact ⟨l.authFailures.slots_get_of_ne now (hne rfl), rfl⟩
  | recordAuthFailure ip =>
      rw [step, recordAuthFailure]
      split
      · refine ⟨?_, rfl⟩
        exact (IdleCache.slots_assign_of_ne _ _ (hne rfl)).trans
          (l.authFailures.slots_getWith_of_ne now _ (hne rfl))
      · exact ⟨rfl, rfl⟩
  | recordAuthSuccess ip =>
      rw [step, recordAuthSuccess]
      split
      · exact ⟨l.authFailures.slots_invalidate_of_ne (hne rfl), rfl⟩
      · exact ⟨rfl, rfl⟩
  | evictIp other => exact ⟨rfl, l.ipLimiters.slots_invalidate_of_ne (hne rfl)⟩
  | evictTenant tenantId => exact ⟨rfl, rfl⟩
  | evictFailures other => exact ⟨l.authFailures.slots_invalidate_of_ne (hne rfl), rfl⟩

/-- A bucket of a client has the configured size, and was not refilled in the future. -/
structure Sized (config : RateLimitConfig) (now : Nat) (bucket : TokenBucket) : Prop where
  capacity : bucket.capacity = config.perIpBurst
  rate : bucket.refillRate = config.perIpRequests.toNat / 60
  past : bucket.lastRefill ≤ now

def AllSized (l : RateLimiter) (now : Nat) : Prop :=
  ∀ client slot, l.ipLimiters.slots client = some slot → Sized l.config now slot.value

variable {l now}

theorem AllSized.bucketOf {client : ClientBucket} (h : l.AllSized now) {later : Nat}
    (hlater : now ≤ later) : Sized l.config later (l.bucketOf later client) := by
  unfold RateLimiter.bucketOf
  cases hlive : l.ipLimiters.live later client with
  | none => exact ⟨rfl, rfl, le_refl _⟩
  | some bucket =>
      obtain ⟨accessed, hslot, -⟩ := IdleCache.live_eq_some.mp hlive
      obtain ⟨hcapacity, hrate, hpast⟩ := h client _ hslot
      exact ⟨hcapacity, hrate, hpast.trans hlater⟩

/-- What stands for a client after a call stood before it, or is the bucket of a request. -/
theorem step_ipSlot (l : RateLimiter) (now : Nat) (call : LimiterCall) {client : ClientBucket}
    {slot : IdleSlot TokenBucket}
    (h : (l.step latest now call).ipLimiters.slots client = some slot) :
    (∃ old, l.ipLimiters.slots client = some old ∧ slot.value = old.value) ∨
      slot.value = ((l.bucketOf now client).tryAcquire now).2 := by
  have hsame : ∀ {l' : RateLimiter}, l'.ipLimiters.slots client = some slot →
      l'.ipLimiters = l.ipLimiters →
      ∃ old, l.ipLimiters.slots client = some old ∧ slot.value = old.value := by
    intro l' hslot heq
    exact ⟨slot, heq ▸ hslot, rfl⟩
  have hcheck : ∀ {ip : IpAddr}, (l.checkIpLimit now ip).2.ipLimiters.slots client = some slot →
      (∃ old, l.ipLimiters.slots client = some old ∧ slot.value = old.value) ∨
        slot.value = ((l.bucketOf now client).tryAcquire now).2 := by
    intro ip hslot
    by_cases hclient : client = .of ip
    · subst hclient
      cases henabled : l.config.enabled with
      | false =>
          rw [checkIpLimit, if_neg (by rw [henabled]; exact Bool.false_ne_true)] at hslot
          exact .inl (hsame hslot rfl)
      | true =>
          cases hban : l.ban now (.of ip) with
          | none =>
              rw [checkIpLimit_of_no_ban henabled hban, IdleCache.slots_assign,
                IdleCache.slots_put] at hslot
              cases hslot
              exact .inr rfl
          | some deadline =>
              rw [checkIpLimit_of_ban henabled hban] at hslot
              exact .inl (hsame hslot rfl)
    · rw [(l.checkIpLimit_other now hclient).2] at hslot
      exact .inl ⟨slot, hslot, rfl⟩
  by_cases hclient : call.client = some client
  · cases call with
    | checkIpLimit ip => exact hcheck h
    | checkLimits ip tenantId =>
        obtain ⟨_, hlimits⟩ := l.checkLimits_snd now ip tenantId
        rw [step, hlimits] at h
        exact hcheck h
    | checkTenantLimit tenantId | evictTenant tenantId => cases hclient
    | peekIpLimit ip =>
        obtain rfl := Option.some.inj hclient
        rw [step, peekIpLimit] at h
        split at h
        · cases hlive : l.ipLimiters.live now (.of ip) with
          | none =>
              rw [IdleCache.get_of_live_none hlive] at h
              exact .inl ⟨slot, h, rfl⟩
          | some bucket =>
              rw [IdleCache.get_of_live_some hlive] at h
              obtain ⟨accessed, hslot, -⟩ := IdleCache.live_eq_some.mp hlive
              rw [IdleCache.slots_put] at h
              cases h
              exact .inl ⟨_, hslot, rfl⟩
        · exact .inl ⟨slot, h, rfl⟩
    | recordAuthFailure ip =>
        rw [step, recordAuthFailure] at h
        split at h
        · exact .inl ⟨slot, h, rfl⟩
        · exact .inl ⟨slot, h, rfl⟩
    | recordAuthSuccess ip =>
        rw [step, recordAuthSuccess] at h
        split at h
        · exact .inl ⟨slot, h, rfl⟩
        · exact .inl ⟨slot, h, rfl⟩
    | isIpBanned ip | ipBanRemaining ip | evictFailures other => exact .inl ⟨slot, h, rfl⟩
    | evictIp other =>
        obtain rfl := Option.some.inj hclient
        rw [step, IdleCache.slots_invalidate] at h
        cases h
  · rw [(l.step_other latest now hclient).2] at h
    exact .inl ⟨slot, h, rfl⟩

theorem AllSized.step (h : l.AllSized now) {later : Nat} (hlater : now ≤ later)
    (call : LimiterCall) : (l.step latest later call).AllSized later := by
  intro client slot hslot
  rw [step_config]
  rcases step_ipSlot latest l later call hslot with ⟨old, hold, hvalue⟩ | hvalue
  · obtain ⟨hcapacity, hrate, hpast⟩ := h client old hold
    rw [hvalue]
    exact ⟨hcapacity, hrate, hpast.trans hlater⟩
  · obtain ⟨hcapacity, hrate, -⟩ : Sized l.config later (l.bucketOf later client) :=
      h.bucketOf hlater
    rw [hvalue]
    exact ⟨by rw [TokenBucket.tryAcquire_capacity, hcapacity],
      by rw [TokenBucket.tryAcquire_refillRate, hrate], by rw [TokenBucket.tryAcquire_lastRefill]⟩

end

/-! ## Runs -/

section

variable {l : RateLimiter} {start now : Nat} {calls : Calls}

theorem Ordered.cons {call : Nat × LimiterCall} (h : Ordered start (call :: calls) now) :
    start ≤ call.1 ∧ Ordered call.1 calls now := by
  obtain ⟨hhead, htail⟩ := List.pairwise_cons.mp h
  exact ⟨hhead _ (List.mem_cons_self ..), htail⟩

theorem Ordered.le (h : Ordered start calls now) : start ≤ now :=
  (List.pairwise_cons.mp h).1 now (List.mem_append_right _ (List.mem_singleton_self _))

theorem run_config (l : RateLimiter) (calls : Calls) : (l.run latest calls).config = l.config := by
  induction calls generalizing l with
  | nil => rfl
  | cons call calls ih => exact (ih _).trans (l.step_config latest call.1 call.2)

theorem AllSized.run (h : l.AllSized start) (hordered : Ordered start calls now) :
    (l.run latest calls).AllSized now := by
  induction calls generalizing l start with
  | nil =>
      intro client slot hslot
      obtain ⟨hcapacity, hrate, hpast⟩ := h client slot hslot
      exact ⟨hcapacity, hrate, hpast.trans hordered.le⟩
  | cons call calls ih =>
      obtain ⟨hle, hrest⟩ := hordered.cons
      exact ih (h.step latest hle call.2) hrest

/-- Calls for others leave alone what is recorded of a client. -/
theorem run_other (l : RateLimiter) {client : ClientBucket}
    (h : ∀ call ∈ calls, call.2.client ≠ some client) : Same (l.run latest calls) l client := by
  induction calls generalizing l with
  | nil => exact ⟨rfl, rfl⟩
  | cons call calls ih =>
      obtain ⟨hfailures, hbucket⟩ := ih (l.step latest call.1 call.2)
        fun call hcall => h call (List.mem_cons_of_mem _ hcall)
      obtain ⟨hfailures', hbucket'⟩ := l.step_other latest call.1 (h call (List.mem_cons_self ..))
      exact ⟨hfailures.trans hfailures', hbucket.trans hbucket'⟩

end

/-! ## Waiting as long as told -/

/-- Whoever is refused, and waits for the seconds of the answer, is let in. -/
def Truthful (l : RateLimiter) (now : Nat) (ip : IpAddr) : Prop :=
  ∀ exceeded, (l.checkIpLimit now ip).1 = .error exceeded →
    ∀ calls later, Ordered now calls later →
      (∀ call ∈ calls, call.2.client ≠ some (.of ip)) →
      now + fromSecs exceeded.retryAfter ≤ later →
      ∃ info, (((l.checkIpLimit now ip).2.run latest calls).checkIpLimit later ip).1 = .ok info

end RateLimiter

namespace TokenBucket

/-- A bucket that has a token, by what it held and what has been added since. -/
theorem tryAcquire_of_accrued {bucket : TokenBucket} {now : Nat}
    (hcapacity : 1 ≤ bucket.capacity.toNat)
    (h : 1 ≤ bucket.tokens + asSecsExact (now - bucket.lastRefill) * bucket.refillRate) :
    (bucket.tryAcquire now).1 = true := by
  have hone : 1 ≤ (bucket.refill now).tokens := le_min h (by exact_mod_cast hcapacity)
  rw [tryAcquire, dif_pos hone]

theorem retryAfter_of_refused {bucket : TokenBucket} {now : Nat} (hrate : 1 ≤ bucket.refillRate)
    (h : (bucket.tryAcquire now).1 = false) :
    1 ≤ (bucket.tryAcquire now).2.tokens +
      (bucket.tryAcquire now).2.retryAfter * bucket.refillRate := by
  have hpos : 0 < bucket.refillRate := lt_of_lt_of_le zero_lt_one hrate
  by_cases hone : 1 ≤ (bucket.refill now).tokens
  · rw [tryAcquire, dif_pos hone] at h
    cases h
  · rw [tryAcquire, dif_neg hone]
    dsimp only
    have hquotient : (1 - (bucket.refill now).tokens) / bucket.refillRate ≤ 1 := by
      rw [div_le_one hpos]
      have hnonneg := (bucket.refill now).tokens_nonneg
      linarith
    rw [retryAfter, if_neg hone, if_neg (show ¬ (bucket.refill now).refillRate = 0 from hpos.ne'),
      show (bucket.refill now).refillRate = bucket.refillRate from rfl,
      min_eq_left ((Nat.ceil_le.mpr (by exact_mod_cast hquotient)).trans (by decide))]
    have hceil := Nat.le_ceil ((1 - (bucket.refill now).tokens) / bucket.refillRate)
    rw [div_le_iff₀ hpos] at hceil
    linarith

end TokenBucket

namespace RateLimiter

variable (latest : Nat)

/-- A client that was refused a second ago or more, and is not banned, is let in. -/
theorem checkIpLimit_after {config : RateLimitConfig} (hadmits : config.Admits) {l : RateLimiter}
    (hconfig : l.config = config) (henabled : config.enabled = true) {later : Nat} {ip : IpAddr}
    (hban : l.ban later (.of ip) = none)
    (hbucket : ∀ slot, l.ipLimiters.slots (.of ip) = some slot →
      slot.value.capacity = config.perIpBurst ∧
        1 ≤ slot.value.tokens + asSecsExact (later - slot.value.lastRefill) *
          slot.value.refillRate) :
    ∃ info, (l.checkIpLimit later ip).1 = .ok info := by
  subst hconfig
  refine checkIpLimit_ok henabled hban ?_
  cases hlive : l.ipLimiters.live later (.of ip) with
  | none =>
      rw [bucketOf, hlive]
      refine TokenBucket.tryAcquire_of_accrued hadmits.burst ?_
      have hfull : (1 : ℚ) ≤ l.config.perIpBurst.toNat := by exact_mod_cast hadmits.burst
      show 1 ≤ (l.config.perIpBurst.toNat : ℚ) + asSecsExact (later - later) * _
      rw [Nat.sub_self, asSecsExact, Nat.cast_zero, zero_div, zero_mul, add_zero]
      exact hfull
  | some bucket =>
      obtain ⟨accessed, hslot, -⟩ := IdleCache.live_eq_some.mp hlive
      obtain ⟨hcapacity, haccrued⟩ := hbucket _ hslot
      rw [bucketOf, hlive]
      exact TokenBucket.tryAcquire_of_accrued (hcapacity ▸ hadmits.burst) haccrued

/-- Whole seconds from `now` on, the tokens of that many seconds have accrued. -/
theorem asSecsExact_wait {now later : Nat} {secs : Nat} (h : now + fromSecs secs ≤ later) :
    (secs : ℚ) ≤ asSecsExact (later - now) := by
  have hwhole : asSecsExact (fromSecs secs) = secs := by
    rw [asSecsExact, fromSecs]
    push_cast
    exact mul_div_cancel_right₀ _ (by positivity)
  rw [← hwhole, asSecsExact_le]
  omega

theorem fromFileConfig_enabled (file : RateLimitConfigFile) :
    (RateLimitConfig.fromFileConfig file).enabled = file.enabled := by
  unfold RateLimitConfig.fromFileConfig
  split
  next h => exact h.symm
  next h => exact (Bool.not_eq_true _ ▸ h).symm

section

variable {file : RateLimitConfigFile} (hvalid : file.validate = .ok ())
    (hfile : file.enabled = true)
  {l : RateLimiter} (hconfig : l.config = .fromFileConfig file) {now : Nat} {ip : IpAddr}

include hvalid hfile hconfig

/-- The second request, by what the first has left. -/
theorem admitted_after {calls : Calls} {later : Nat}
    (hothers : ∀ call ∈ calls, call.2.client ≠ some (.of ip))
    (hban : (l.seen now (.of ip)).ban later (.of ip) = none)
    (hbucket : ∀ slot, (l.checkIpLimit now ip).2.ipLimiters.slots (.of ip) = some slot →
      slot.value.capacity = l.config.perIpBurst ∧
        1 ≤ slot.value.tokens + asSecsExact (later - slot.value.lastRefill) *
          slot.value.refillRate) :
    ∃ info, (((l.checkIpLimit now ip).2.run latest calls).checkIpLimit later ip).1 = .ok info := by
  have hswitch := (fromFileConfig_enabled file).trans hfile
  obtain ⟨hfailures, hslots⟩ := run_other latest (l.checkIpLimit now ip).2 hothers
  refine checkIpLimit_after (RateLimitConfig.admits_of_validate hvalid hswitch)
    (by rw [run_config, checkIpLimit_config, hconfig]) hswitch ?_ ?_
  · rw [ban_congr hfailures, ← hban]
    refine ban_congr ?_ later
    rw [checkIpLimit_authFailures, hconfig, if_pos hswitch]
  · intro slot hslot
    rw [hslots] at hslot
    rw [← hconfig]
    exact hbucket slot hslot

/-- Every bucket of the configuration earns a token a second. -/
theorem one_le_rate {later : Nat} {bucket : TokenBucket} (hbucket : Sized l.config later bucket) :
    1 ≤ bucket.refillRate := by
  have hadmits :=
    RateLimitConfig.admits_of_validate hvalid ((fromFileConfig_enabled file).trans hfile)
  rw [hbucket.rate, hconfig, le_div_iff₀ (by norm_num), one_mul]
  exact_mod_cast hadmits.requests

variable (hsized : l.AllSized now)

include hsized

/-- What an empty bucket tells its client is long enough. -/
theorem truthful_of_no_ban (hban : l.ban now (.of ip) = none) : Truthful latest l now ip := by
  have henabled : l.config.enabled = true := by rw [hconfig, fromFileConfig_enabled, hfile]
  intro exceeded hrefused calls later hcalls hothers hwait
  refine admitted_after latest hvalid hfile hconfig hothers (no_ban_seen_later hban hcalls.le)
    fun slot hslot => ?_
  rw [checkIpLimit_of_no_ban henabled hban, IdleCache.slots_assign, IdleCache.slots_put] at hslot
  cases hslot
  have hstands : Sized l.config now (l.bucketOf now (.of ip)) := hsized.bucketOf (le_refl now)
  refine ⟨by rw [TokenBucket.tryAcquire_capacity, hstands.capacity], ?_⟩
  rw [checkIpLimit_of_no_ban henabled hban, TokenBucket.acquire] at hrefused
  dsimp only at hrefused
  cases hacquired : ((l.bucketOf now (.of ip)).tryAcquire now).1 with
  | true =>
      rw [if_pos hacquired] at hrefused
      cases hrefused
  | false =>
      rw [if_neg (by rw [hacquired]; exact Bool.false_ne_true)] at hrefused
      cases hrefused
      have hpos := one_le_rate hvalid hfile hconfig hstands
      have htold := TokenBucket.retryAfter_of_refused hpos hacquired
      have helapsed := mul_le_mul_of_nonneg_right (asSecsExact_wait hwait) (zero_le_one.trans hpos)
      rw [TokenBucket.tryAcquire_lastRefill, TokenBucket.tryAcquire_refillRate]
      linarith

/-- What a ban tells its client is long enough where no part of a second is
dropped, or the ban is forgotten first. -/
theorem truthful_of_ban {deadline : Nat} (hban : l.ban now (.of ip) = some deadline) :
    Truthful latest l now ip ↔ fromSecs 1 ∣ deadline - now ∨ fromSecs 3601 ≤ deadline - now := by
  have henabled : l.config.enabled = true := by rw [hconfig, fromFileConfig_enabled, hfile]
  have hanswer := checkIpLimit_of_ban henabled hban
  have hlt : now < deadline := by
    obtain ⟨entry, -, hentry⟩ := Option.bind_eq_some_iff.mp hban
    exact (AuthFailureEntry.ban_eq_some.mp hentry).2
  have hlater := ban_seen_later hban
  constructor
  · intro htruthful
    by_contra hnot
    -- The next whole second is told, and the deadline lies behind it.
    obtain ⟨hpart, hshort⟩ := not_or.mp hnot
    have htold : now + fromSecs (asSecs (deadline - now)) < deadline ∧
        fromSecs (asSecs (deadline - now)) ≤ failureIdleTimeout := by
      unfold failureIdleTimeout fromSecs asSecs at *
      omega
    obtain ⟨info, hinfo⟩ := htruthful _ (congrArg Prod.fst hanswer) []
      (now + fromSecs (asSecs (deadline - now))) (by simp [Ordered]) (by simp) (le_refl _)
    have hstill := hlater (now + fromSecs (asSecs (deadline - now)))
    rw [if_pos ⟨by omega, htold.1⟩] at hstill
    rw [hanswer] at hinfo
    rw [run, List.foldl_nil, checkIpLimit_of_ban (l := l.seen now (.of ip)) henabled
      hstill] at hinfo
    cases hinfo
  · intro hcase exceeded hrefused calls later hcalls hothers hwait
    rw [hanswer] at hrefused
    cases hrefused
    replace hwait : now + fromSecs (asSecs (deadline - now)) ≤ later := hwait
    have htold : 1 ≤ asSecs (deadline - now) ∧
        ¬ (later ≤ now + failureIdleTimeout ∧ later < deadline) := by
      unfold failureIdleTimeout fromSecs asSecs at *
      omega
    refine admitted_after latest hvalid hfile hconfig hothers
      ((hlater later).trans (if_neg htold.2)) fun slot hslot => ?_
    rw [hanswer] at hslot
    have hstands := hsized _ slot hslot
    refine ⟨hstands.capacity, ?_⟩
    have hpos := one_le_rate hvalid hfile hconfig hstands
    have hone : 1 ≤ asSecsExact (later - slot.value.lastRefill) := by
      have hwaited := (asSecsExact_wait hwait).trans
        (asSecsExact_le.mpr (Nat.sub_le_sub_left hstands.past later))
      exact le_trans (by exact_mod_cast htold.1) hwaited
    have haccrued := one_le_mul_of_one_le_of_one_le hone hpos
    have hnonneg := slot.value.tokens_nonneg
    linarith

end

/-- 203.0.113.7 -/
def exampleIp : IpAddr := .v4 ⟨#v[203, 0, 113, 7]⟩

/-- The last instant of a Unix clock, whose seconds are an `i64`. -/
def latestUnix : Nat := fromSecs (2 ^ 63) - 1

/-- A refused client that waits as long as it was told is let in, unless the
ban it was refused for has a part of a second left over and ends within the
hour after which the failures of an idle client are forgotten. -/
theorem retryAfter_iff {file : RateLimitConfigFile} (hvalid : file.validate = .ok ())
    {start now : Nat} {calls : Calls} (hordered : Ordered start calls now) (ip : IpAddr) :
    Truthful latest ((new (.fromFileConfig file)).run latest calls) now ip ↔
      ∀ deadline, file.enabled = true →
        ((new (.fromFileConfig file)).run latest calls).ban now (.of ip) = some deadline →
          fromSecs 1 ∣ deadline - now ∨ fromSecs 3601 ≤ deadline - now := by
  have hconfig := run_config latest (new (.fromFileConfig file)) calls
  have hsized : ((new (.fromFileConfig file)).run latest calls).AllSized now :=
    AllSized.run latest (fun _ _ hslot => by cases hslot) hordered
  generalize (new (.fromFileConfig file)).run latest calls = l at hconfig hsized ⊢
  cases hfile : file.enabled with
  | false =>
      refine iff_of_true ?_ fun _ henabled => by cases henabled
      have hoff : ¬ l.config.enabled = true := by
        rw [hconfig]
        show ¬ (RateLimitConfig.fromFileConfig file).enabled = true
        rw [fromFileConfig_enabled, hfile]
        exact Bool.false_ne_true
      intro exceeded hrefused
      rw [checkIpLimit, if_neg hoff] at hrefused
      cases hrefused
  | true =>
      cases hban : l.ban now (.of ip) with
      | none =>
          exact iff_of_true (truthful_of_no_ban latest hvalid hfile hconfig hsized hban)
            fun _ _ hsome => by cases hsome
      | some deadline =>
          rw [truthful_of_ban latest hvalid hfile hconfig hsized hban]
          constructor
          · rintro hcase _ - hsome
            cases hsome
            exact hcase
          · intro hcase
            exact hcase deadline rfl rfl

/-- Five failures at once. -/
def fiveFailures : Calls := List.replicate 5 (0, .recordAuthFailure exampleIp)

theorem ban_fiveFailures {now : Nat} (h : now < fromSecs 300) :
    ((new (.fromFileConfig .default)).run latestUnix fiveFailures).ban now (.of exampleIp) =
      some (fromSecs 300) := by
  have hslot : ((new (.fromFileConfig .default)).run latestUnix fiveFailures).authFailures.slots
      (.of exampleIp) = some ⟨⟨5, 0, some (fromSecs 300)⟩, 0⟩ := by
    rfl
  have hidle : now ≤ 0 + failureIdleTimeout := by
    unfold failureIdleTimeout fromSecs at *
    omega
  rw [ban, IdleCache.live_eq_some.mpr ⟨0, hslot, hidle⟩, Option.bind_some]
  exact AuthFailureEntry.ban_eq_some.mpr ⟨rfl, h⟩

/-- A second into a ban of 300 seconds the client is refused, and told the 299 that are left of
it: those are enough. -/
theorem retryAfter_fiveFailures :
    (∃ exceeded, (((new (.fromFileConfig .default)).run latestUnix fiveFailures).checkIpLimit
        (fromSecs 1) exampleIp).1 = .error exceeded ∧ exceeded.retryAfter = 299) ∧
      Truthful latestUnix ((new (.fromFileConfig .default)).run latestUnix fiveFailures)
        (fromSecs 1) exampleIp := by
  have hban := ban_fiveFailures (show fromSecs 1 < fromSecs 300 by decide)
  refine ⟨⟨_, congrArg Prod.fst (checkIpLimit_of_ban rfl hban), by decide⟩, ?_⟩
  refine (retryAfter_iff latestUnix (show RateLimitConfigFile.default.validate = .ok () from rfl)
    (show Ordered 0 fiveFailures (fromSecs 1) by unfold Ordered; decide) exampleIp).mpr ?_
  rintro deadline - hdeadline
  rw [hban] at hdeadline
  cases hdeadline
  exact .inl (by decide)

/-- Half a second into a ban of 300 seconds the client is told 299 of them,
and refused again when they are over. -/
theorem early_retry_refused :
    RateLimitConfigFile.default.validate = .ok () ∧ Ordered 0 fiveFailures (10 ^ 9 / 2) ∧
      ¬ Truthful latestUnix ((new (.fromFileConfig .default)).run latestUnix fiveFailures)
        (10 ^ 9 / 2) exampleIp := by
  refine ⟨rfl, by unfold Ordered; decide, fun htruthful => ?_⟩
  have hban := ban_fiveFailures (show 10 ^ 9 / 2 < fromSecs 300 by decide)
  have hanswer := checkIpLimit_of_ban rfl hban
  have hstill := ban_seen_later hban (10 ^ 9 / 2 + fromSecs 299)
  rw [if_pos (by decide)] at hstill
  obtain ⟨info, hinfo⟩ := htruthful _ (congrArg Prod.fst hanswer) [] (10 ^ 9 / 2 + fromSecs 299)
    (by unfold Ordered; decide) (by simp) (by decide)
  rw [hanswer] at hinfo
  rw [run, List.foldl_nil, checkIpLimit_of_ban (l := seen _ _ _) rfl hstill] at hinfo
  cases hinfo

end RateLimiter

end Rustberg.Auth
