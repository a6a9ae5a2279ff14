import Rustberg.Auth.Limiter

/-!
# How long a ban lasts

A ban is a deadline in an entry of a cache, and the entry may be gone, or
started again, before the deadline: a client that is idle for an hour is
forgotten, and a failure more than an hour after the first one of its
entry starts the count, and the ban, again. `bans_last` says that in a
run without either every ban lasts.
-/

namespace Rustberg.Auth

open Net

namespace RateLimiter

/-! ## The condition -/

/-- The count of a client's failures with one more at `now`. -/
def nextFailure (l : RateLimiter) (now : Nat) (client : ClientBucket) : AuthFailureEntry :=
  ((l.authFailures.live now client).getD (.new now)).counted now

/-- A call that keeps the ban of its client, where one runs: a check finds the
client's entry not yet forgotten, a failure neither that nor the hour since
the first failure over, unless one failure is enough for a ban. And a failure
that earns a ban earns one the clock can reach. -/
def KeepsBan (latest : Nat) (l : RateLimiter) (now : Nat) : LimiterCall → Prop
  | .checkIpLimit ip | .checkLimits ip _ =>
      ∀ slot, l.authFailures.slots (.of ip) = some slot → slot.value.isBanned now = true →
        now ≤ slot.accessed + failureIdleTimeout
  | .recordAuthFailure ip =>
      (∀ slot, l.authFailures.slots (.of ip) = some slot → slot.value.isBanned now = true →
        (now ≤ slot.accessed + failureIdleTimeout ∧ now ≤ slot.value.firstFailure + fromSecs 3600) ∨
          l.config.authFailLimit ≤ 1) ∧
      (l.config.authFailLimit ≤ (l.nextFailure now (.of ip)).failures →
        now + l.config.authFailBanDuration ≤ latest)
  | _ => True

/-- Every call of the run keeps the ban of its client. -/
def KeepsBans (latest : Nat) : RateLimiter → Calls → Prop
  | _, [] => True
  | l, call :: calls =>
      KeepsBan latest l call.1 call.2 ∧ KeepsBans latest (l.step latest call.1 call.2) calls

/-! ## What a run of bans is -/

/-- What ends a ban: the client authenticates, or its entry is evicted. -/
def EndsBan (client : ClientBucket) : LimiterCall → Prop
  | .recordAuthSuccess ip => .of ip = client
  | .evictFailures other => other = client
  | _ => False

/-- The failures of a client have reached the limit. -/
def LimitReached (l : RateLimiter) (client : ClientBucket) : Prop :=
  ∃ slot, l.authFailures.slots client = some slot ∧ l.config.authFailLimit ≤ slot.value.failures

/-- A client whose failures reach the limit is refused for the duration of a
ban, unless something ends it. -/
def BansLast (latest : Nat) (l : RateLimiter) (calls : Calls) : Prop :=
  ∀ before failed ip after checked ip' rest,
    calls = before ++ (failed, .recordAuthFailure ip) :: after ++
      (checked, .checkIpLimit ip') :: rest →
    ClientBucket.of ip' = .of ip →
    LimitReached (l.run latest (before ++ [(failed, .recordAuthFailure ip)])) (.of ip) →
    (∀ call ∈ after, ¬ EndsBan (.of ip) call.2) →
    checked < failed + l.config.authFailBanDuration →
    ∃ exceeded, ((l.run latest (before ++ (failed, .recordAuthFailure ip) :: after)).checkIpLimit
      checked ip').1 = .error exceeded

/-! ## One call -/

/-- The client's entry bans it until `deadline` at least, if it is not forgotten. -/
def Holds (l : RateLimiter) (client : ClientBucket) (deadline : Nat) : Prop :=
  ∃ slot, l.authFailures.slots client = some slot ∧
    ∃ banUntil, slot.value.banUntil = some banUntil ∧ deadline ≤ banUntil

section

variable {l : RateLimiter} {client : ClientBucket} {deadline now : Nat}

theorem Holds.congr {l' : RateLimiter} (h : Holds l client deadline)
    (hslots : l'.authFailures.slots client = l.authFailures.slots client) :
    Holds l' client deadline := by
  obtain ⟨slot, hslot, hban⟩ := h
  exact ⟨slot, hslots.trans hslot, hban⟩

theorem Holds.isBanned {slot : IdleSlot AuthFailureEntry} (h : Holds l client deadline)
    (hslot : l.authFailures.slots client = some slot) (hnow : now < deadline) :
    slot.value.isBanned now = true := by
  obtain ⟨_, hslot', banUntil, hban, hle⟩ := h
  obtain rfl := Option.some.inj (hslot.symm.trans hslot')
  rw [AuthFailureEntry.isBanned_eq, AuthFailureEntry.ban_eq_some.mpr ⟨hban, hnow.trans_le hle⟩]
  rfl

/-- An access leaves the entry as it is. -/
theorem Holds.seen (h : Holds l client deadline) (now : Nat) :
    Holds (l.seen now client) client deadline := by
  cases hlive : l.authFailures.live now client with
  | none =>
      refine h.congr ?_
      rw [RateLimiter.seen, IdleCache.get_of_live_none hlive]
  | some entry =>
      obtain ⟨slot, hslot, hban⟩ := h
      obtain ⟨accessed, hslot', -⟩ := IdleCache.live_eq_some.mp hlive
      obtain rfl := Option.some.inj (hslot'.symm.trans hslot)
      refine ⟨⟨entry, now⟩, ?_, hban⟩
      rw [RateLimiter.seen, IdleCache.get_of_live_some hlive, IdleCache.slots_put]

theorem recordAuthFailure_slot (latest : Nat) (henabled : l.config.enabled = true) (now : Nat)
    (ip : IpAddr) : (l.recordAuthFailure latest now ip).2.authFailures.slots (.of ip) =
      some ⟨(((l.authFailures.live now (.of ip)).getD (.new now)).record l.config latest now).2,
        now⟩ := by
  rw [recordAuthFailure, if_pos henabled]
  dsimp only [IdleCache.getWith]
  rw [IdleCache.slots_assign, IdleCache.slots_put]
  rfl

theorem record_failures (config : RateLimitConfig) (latest : Nat) (entry : AuthFailureEntry)
    (now : Nat) : (entry.record config latest now).2.failures = (entry.counted now).failures := by
  unfold AuthFailureEntry.record
  dsimp only
  split
  · split <;> rfl
  · rfl

theorem record_banUntil {config : RateLimitConfig} {latest : Nat} {entry : AuthFailureEntry}
    {now : Nat} (hreached : config.authFailLimit ≤ (entry.counted now).failures)
    (hfits : now + config.authFailBanDuration ≤ latest) :
    (entry.record config latest now).2.banUntil = some (now + config.authFailBanDuration) := by
  unfold AuthFailureEntry.record
  dsimp only
  rw [if_pos hreached, if_pos hfits]

/-- A failure that reaches the limit bans its client. -/
theorem holds_of_limitReached {latest : Nat} {ip : IpAddr} (henabled : l.config.enabled = true)
    (hkeeps : KeepsBan latest l now (.recordAuthFailure ip))
    (hreached : LimitReached (l.step latest now (.recordAuthFailure ip)) (.of ip)) :
    Holds (l.step latest now (.recordAuthFailure ip)) (.of ip)
      (now + l.config.authFailBanDuration) := by
  obtain ⟨slot, hslot, hlimit⟩ := hreached
  rw [step, recordAuthFailure_slot latest henabled] at hslot
  cases hslot
  rw [step_config, record_failures] at hlimit
  refine ⟨_, recordAuthFailure_slot latest henabled now ip, _, ?_, le_refl _⟩
  exact record_banUntil hlimit (hkeeps.2 hlimit)

/-- A failure within the hour leaves the ban, or starts it again. -/
theorem Holds.recordAuthFailure {latest : Nat} {ip : IpAddr} (h : Holds l (.of ip) deadline)
    (henabled : l.config.enabled = true) (hnow : now < deadline)
    (hduration : deadline ≤ now + l.config.authFailBanDuration)
    (hkeeps : KeepsBan latest l now (.recordAuthFailure ip)) :
    Holds (l.step latest now (.recordAuthFailure ip)) (.of ip) deadline := by
  refine ⟨_, recordAuthFailure_slot latest henabled now ip, ?_⟩
  by_cases hreached : l.config.authFailLimit ≤ (l.nextFailure now (.of ip)).failures
  · exact ⟨_, record_banUntil hreached (hkeeps.2 hreached), hduration⟩
  · obtain ⟨⟨entry, accessed⟩, hslot, banUntil, hban, hle⟩ := h
    have hstands := hkeeps.1 _ hslot (Holds.isBanned ⟨_, hslot, _, hban, hle⟩ hslot hnow)
    have hcounted : ∀ entry : AuthFailureEntry, 1 ≤ (entry.counted now).failures.toNat := by
      intro entry
      have hsize : UInt32.size = 4294967296 := rfl
      unfold AuthFailureEntry.counted
      dsimp only
      rw [UInt32.toNat_ofNat_of_lt' (by omega)]
      omega
    rcases hstands with ⟨hidle, hfirst⟩ | hone
    · have hlive : l.authFailures.live now (.of ip) = some entry :=
        IdleCache.live_eq_some.mpr ⟨accessed, hslot, hidle⟩
      have hsame : (entry.counted now).banUntil = entry.banUntil := by
        unfold AuthFailureEntry.counted
        replace hfirst : now ≤ entry.firstFailure + fromSecs 3600 := hfirst
        rw [if_neg (by omega)]
      refine ⟨banUntil, ?_, hle⟩
      rw [nextFailure, hlive, Option.getD_some] at hreached
      rw [hlive, Option.getD_some, AuthFailureEntry.record]
      dsimp only
      rw [if_neg hreached, hsame, hban]
    · refine absurd (UInt32.le_iff_toNat_le.mpr ?_) hreached
      exact (UInt32.le_iff_toNat_le.mp hone).trans (hcounted _)

theorem Holds.step {latest : Nat} (h : Holds l client deadline) (henabled : l.config.enabled = true)
    (hnow : now < deadline) (hduration : deadline ≤ now + l.config.authFailBanDuration)
    {call : LimiterCall} (hkeeps : KeepsBan latest l now call) (hends : ¬ EndsBan client call) :
    Holds (l.step latest now call) client deadline := by
  by_cases hclient : call.client = some client
  · have hcheck : ∀ {ip : IpAddr}, ClientBucket.of ip = client →
        Holds (l.checkIpLimit now ip).2 client deadline := by
      rintro ip rfl
      refine (h.seen now).congr ?_
      rw [checkIpLimit_authFailures, if_pos henabled]
    cases call with
    | checkIpLimit ip => exact hcheck (Option.some.inj hclient)
    | checkLimits ip tenantId =>
        obtain ⟨_, hlimits⟩ := l.checkLimits_snd now ip tenantId
        rw [RateLimiter.step, hlimits]
        exact (hcheck (Option.some.inj hclient)).congr rfl
    | peekIpLimit ip =>
        refine h.congr ?_
        rw [RateLimiter.step, peekIpLimit]
        split <;> rfl
    | isIpBanned ip | ipBanRemaining ip =>
        obtain rfl := Option.some.inj hclient
        exact (h.seen now).congr rfl
    | recordAuthFailure ip =>
        obtain rfl := Option.some.inj hclient
        exact h.recordAuthFailure henabled hnow hduration hkeeps
    | recordAuthSuccess ip => exact absurd (Option.some.inj hclient) hends
    | evictFailures other => exact absurd (Option.some.inj hclient) hends
    | evictIp other => exact h.congr rfl
    | checkTenantLimit tenantId | evictTenant tenantId => cases hclient
  · exact h.congr (l.step_other latest now hclient).1

/-- A check that is in time finds the ban. -/
theorem Holds.refused {latest : Nat} {ip : IpAddr} (h : Holds l (.of ip) deadline)
    (henabled : l.config.enabled = true) (hnow : now < deadline)
    (hkeeps : KeepsBan latest l now (.checkIpLimit ip)) :
    ∃ exceeded, (l.checkIpLimit now ip).1 = .error exceeded := by
  obtain ⟨⟨entry, accessed⟩, hslot, banUntil, hban, hle⟩ := h
  have hidle := hkeeps _ hslot (Holds.isBanned ⟨_, hslot, _, hban, hle⟩ hslot hnow)
  have hfound : l.ban now (.of ip) = some banUntil := by
    rw [RateLimiter.ban, IdleCache.live_eq_some.mpr ⟨accessed, hslot, hidle⟩, Option.bind_some]
    exact AuthFailureEntry.ban_eq_some.mpr ⟨hban, hnow.trans_le hle⟩
  rw [checkIpLimit_of_ban henabled hfound]
  exact ⟨_, rfl⟩

end

/-! ## Runs -/

section

variable {latest : Nat} {l : RateLimiter} {client : ClientBucket} {deadline : Nat}

theorem run_append (l : RateLimiter) (left right : Calls) :
    l.run latest (left ++ right) = (l.run latest left).run latest right := List.foldl_append

theorem KeepsBans.append {left right : Calls} : KeepsBans latest l (left ++ right) ↔
    KeepsBans latest l left ∧ KeepsBans latest (l.run latest left) right := by
  induction left generalizing l with
  | nil => exact (and_iff_right trivial).symm
  | cons call left ih =>
      rw [List.cons_append, KeepsBans, KeepsBans, and_assoc]
      exact and_congr_right fun _ => ih

/-- A limiter that is off records no failure. -/
theorem slots_step_of_disabled (hdisabled : l.config.enabled = false)
    (h : ∀ client, l.authFailures.slots client = none) (now : Nat) (call : LimiterCall)
    (client : ClientBucket) : (l.step latest now call).authFailures.slots client = none := by
  have hoff : ¬ l.config.enabled = true := by rw [hdisabled]; exact Bool.false_ne_true
  have hnone : ∀ other, l.authFailures.live now other = none := fun other => by
    rw [IdleCache.live, h]
  cases call with
  | checkIpLimit ip =>
      rw [step, checkIpLimit, if_neg hoff]
      exact h client
  | checkLimits ip tenantId =>
      obtain ⟨_, hlimits⟩ := l.checkLimits_snd now ip tenantId
      rw [step, hlimits, checkIpLimit, if_neg hoff]
      exact h client
  | checkTenantLimit tenantId =>
      obtain ⟨_, htenant⟩ := l.checkTenantLimit_snd now tenantId
      rw [step, htenant]
      exact h client
  | peekIpLimit ip =>
      rw [step, peekIpLimit, if_neg hoff]
      exact h client
  | isIpBanned ip | ipBanRemaining ip =>
      show (l.authFailures.get now (.of ip)).2.slots client = none
      rw [IdleCache.get_of_live_none (hnone _)]
      exact h client
  | recordAuthFailure ip =>
      rw [step, recordAuthFailure, if_neg hoff]
      exact h client
  | recordAuthSuccess ip =>
      rw [step, recordAuthSuccess, if_neg hoff]
      exact h client
  | evictIp other | evictTenant tenantId => exact h client
  | evictFailures other =>
      rw [step]
      by_cases hclient : client = other
      · rw [hclient, IdleCache.slots_invalidate]
      · rw [IdleCache.slots_invalidate_of_ne _ hclient]
        exact h client

theorem slots_of_disabled (hdisabled : l.config.enabled = false)
    (h : ∀ client, l.authFailures.slots client = none) (calls : Calls) (client : ClientBucket) :
    (l.run latest calls).authFailures.slots client = none := by
  induction calls generalizing l with
  | nil => exact h client
  | cons call calls ih =>
      exact ih (by rw [step_config, hdisabled]) (slots_step_of_disabled hdisabled h call.1 call.2)

theorem Holds.run {calls : Calls} (h : Holds l client deadline)
    (henabled : l.config.enabled = true)
    (htimes : ∀ call ∈ calls, call.1 < deadline ∧ deadline ≤ call.1 + l.config.authFailBanDuration)
    (hkeeps : KeepsBans latest l calls) (hends : ∀ call ∈ calls, ¬ EndsBan client call.2) :
    Holds (l.run latest calls) client deadline := by
  induction calls generalizing l with
  | nil => exact h
  | cons call calls ih =>
      obtain ⟨hnow, hduration⟩ := htimes call (List.mem_cons_self ..)
      refine ih (h.step henabled hnow hduration hkeeps.1 (hends call (List.mem_cons_self ..)))
        (by rw [step_config, henabled]) ?_ hkeeps.2
        fun call hcall => hends call (List.mem_cons_of_mem _ hcall)
      intro call hcall
      rw [step_config]
      exact htimes call (List.mem_cons_of_mem _ hcall)

end

/-- In a run whose calls keep the bans that run, every ban lasts as long as configured. -/
theorem bans_last (latest : Nat) (config : RateLimitConfig) {calls : Calls}
    (hordered : (calls.map Prod.fst).Pairwise (· ≤ ·))
    (hkeeps : KeepsBans latest (new config) calls) : BansLast latest (new config) calls := by
  rintro before failed ip after checked ip' rest rfl hip hreached hends hchecked
  rw [List.append_assoc, List.cons_append, KeepsBans.append] at hkeeps
  obtain ⟨-, hfailure, hkeeps⟩ := hkeeps
  obtain ⟨hafter, hcheck, -⟩ := KeepsBans.append.mp hkeeps
  have henabled : config.enabled = true := by
    by_contra hoff
    obtain ⟨slot, hslot, -⟩ := hreached
    rw [slots_of_disabled (l := new config) (Bool.not_eq_true _ ▸ hoff) fun _ => rfl] at hslot
    cases hslot
  have hconfig : ((new config).run latest before).config = config := run_config ..
  have htimes : ∀ call ∈ after, failed ≤ call.1 ∧ call.1 ≤ checked := by
    intro call hcall
    simp only [List.append_assoc, List.cons_append, List.map_append, List.map_cons] at hordered
    obtain ⟨hfirst, hrest⟩ := List.pairwise_cons.mp (List.pairwise_append.mp hordered).2.1
    refine ⟨hfirst _ (List.mem_append_left _ (List.mem_map_of_mem hcall)), ?_⟩
    exact (List.pairwise_append.mp hrest).2.2 _ (List.mem_map_of_mem hcall) _
      (List.mem_cons_self ..)
  rw [run_append] at hreached
  have hholds := holds_of_limitReached (by rw [hconfig, henabled]) hfailure hreached
  rw [hconfig] at hholds
  have hrun :=
    hholds.run (by rw [step_config, hconfig, henabled]) (fun call hcall => ?_) hafter hends
  · rw [run_append]
    rw [← hip] at hrun
    exact hrun.refused (by rw [run_config, step_config, hconfig, henabled]) hchecked hcheck
  · obtain ⟨hlow, hhigh⟩ := htimes call hcall
    rw [step_config, hconfig]
    exact ⟨hhigh.trans_lt hchecked, Nat.add_le_add_right hlow _⟩

/-- One failure is enough for a lockout of `secs` seconds. -/
def lockout (secs : UInt64) : RateLimitConfigFile :=
  { RateLimitConfigFile.default with maxAuthFailures := 1, lockoutDurationSeconds := secs }

/-- A failure, and a check so many seconds later. -/
def failThenCheck (secs : Nat) : Calls :=
  [(0, .recordAuthFailure exampleIp), (fromSecs secs, .checkIpLimit exampleIp)]

/-- A minute into a lockout of five the client is refused. -/
theorem bans_last_minute : ∃ exceeded,
    (((new (.fromFileConfig (lockout 300))).run latestUnix
      [(0, .recordAuthFailure exampleIp)]).checkIpLimit (fromSecs 60) exampleIp).1 =
        .error exceeded := by
  refine (bans_last latestUnix (.fromFileConfig (lockout 300)) ?_ ?_ :
    BansLast latestUnix (new (.fromFileConfig (lockout 300))) (failThenCheck 60))
    [] 0 exampleIp [] (fromSecs 60) exampleIp [] rfl rfl ⟨_, rfl, by decide⟩ (by simp) (by decide)
  · unfold failThenCheck
    decide
  · refine ⟨?_, ?_, trivial⟩
    · refine ⟨fun slot hslot => ?_, fun _ => by decide⟩
      cases hslot
    · intro slot hslot _
      cases hslot
      decide

/-- An hour and a second into a lockout of a day the client is let in. -/
theorem forgotten_ban :
    (lockout 86400).validate = .ok () ∧
      ((failThenCheck 3601).map Prod.fst).Pairwise (· ≤ ·) ∧
      ¬ BansLast latestUnix (new (.fromFileConfig (lockout 86400))) (failThenCheck 3601) := by
  refine ⟨rfl, by unfold failThenCheck; decide, fun hlast => ?_⟩
  obtain ⟨exceeded, hrefused⟩ := hlast [] 0 exampleIp [] (fromSecs 3601) exampleIp [] rfl rfl
    ⟨_, rfl, by decide⟩ (by simp) (by decide)
  obtain ⟨info, hinfo⟩ := checkIpLimit_after
    (RateLimitConfig.admits_of_validate (show (lockout 86400).validate = .ok () from rfl) rfl)
    (l := (new (.fromFileConfig (lockout 86400))).run latestUnix
      [(0, .recordAuthFailure exampleIp)])
    rfl rfl (show RateLimiter.ban _ (fromSecs 3601) (.of exampleIp) = none from rfl)
    fun slot hslot => by cases hslot
  rw [List.nil_append, hinfo] at hrefused
  cases hrefused

end RateLimiter

end Rustberg.Auth
