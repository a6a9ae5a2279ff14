import Rustberg.Auth.Middleware

/-!
# Refusals

What a client that is refused goes through. A client that earns a ban with
no other request of its own under way gets no further than the limiter
until the ban ends (`banned_unserved`). With API keys configured a refusal
says only that there was one, and is counted exactly where the request
carried a key (`refused_alike`).
-/

namespace Rustberg.Auth.Middleware

open Process Net V1

variable {jt : Jsonwebtoken} {Response : Type}

/-! ## Whose failures a step touches -/

/-- The client whose failures a step may change. -/
def Ask.fails : Ask jt Response → Option ClientBucket
  | .checkIpLimit ip | .recordAuthSuccess ip | .recordAuthFailure ip => some (.of ip)
  | _ => none

/-- The client a request counts as. -/
def Request.client (d : Deployment jt) : Request → Option ClientBucket
  | .http incoming => (incoming.facts d).sourceIp.map .of
  | .manage _ => none

theorem Request.Issues.client {d : Deployment jt} {request : Request} {h : Asked jt Response}
    {e : Ask jt Response} (hissues : request.Issues d h e) {client : ClientBucket}
    (hfails : e.fails = some client) : request.client d = some client := by
  cases request with
  | manage call =>
      obtain rfl := hissues
      cases hfails
  | http incoming =>
      have hown : ∀ ip, (incoming.facts d).sourceIp = some ip →
          some (ClientBucket.of ip) = some client →
            Request.client d (.http incoming) = some client := by
        intro ip hip hclient
        rw [Request.client, hip, ← hclient]
        rfl
      cases e with
      | checkIpLimit ip => exact hown ip hissues.2 hfails
      | recordAuthSuccess ip | recordAuthFailure ip => exact hown ip hissues.2 hfails
      | _ => cases hfails

section

variable {w : Surroundings} {e : Ask jt Response} {s s' : Server jt} {client : ClientBucket}

theorem Server.Stepped.failures (hstep : Stepped w e s s') (hfails : e.fails ≠ some client) :
    s'.limiter.authFailures.slots client = s.limiter.authFailures.slots client := by
  rw [hstep.limiter]
  cases hcall : e.limiterCall with
  | none => rfl
  | some call =>
      by_cases hother : call.client = some client
      · cases e with
        | checkIpLimit ip | recordAuthSuccess ip | recordAuthFailure ip =>
            cases hcall
            exact absurd hother hfails
        | checkTenantLimit tenantId =>
            cases hcall
            cases hother
        | peekIpLimit ip =>
            cases hcall
            show (s.limiter.peekIpLimit s.now ip).2.authFailures.slots client = _
            rw [RateLimiter.peekIpLimit]
            split <;> rfl
        | _ => cases hcall
      · exact (s.limiter.step_other w.latest s.now hother).1

theorem Server.Stepped.config (hstep : Stepped w e s s') :
    s'.limiter.config = s.limiter.config := by
  rw [hstep.limiter]
  cases e.limiterCall with
  | none => rfl
  | some call => exact s.limiter.step_config w.latest s.now call

theorem Server.Env.config (henv : Env w s s') : s'.limiter.config = s.limiter.config := by
  cases henv <;> rfl

theorem Server.Env.now (henv : Env w s s') : s.now ≤ s'.now := by
  cases henv with
  | passes clock wall hclock => exact hclock
  | _ => exact le_refl _

end

/-! ## A lockout -/

/-- The client has been banned until `deadline` since `start`. -/
def Locked (client : ClientBucket) (start deadline : Nat) (s : Server jt) : Prop :=
  start ≤ s.now ∧ ∃ slot, s.limiter.authFailures.slots client = some slot ∧ start ≤ slot.accessed ∧
    ∃ banUntil, slot.value.banUntil = some banUntil ∧ deadline ≤ banUntil

section

variable {w : Surroundings} {s s' : Server jt} {client : ClientBucket} {start deadline : Nat}

theorem Locked.congr (h : Locked client start deadline s) (hnow : s.now ≤ s'.now)
    (hslots : s'.limiter.authFailures.slots client = s.limiter.authFailures.slots client) :
    Locked client start deadline s' := by
  obtain ⟨hstart, slot, hslot, hheld⟩ := h
  exact ⟨hstart.trans hnow, slot, hslots.trans hslot, hheld⟩

/-- A ban is in force until an hour after its client was last seen. -/
theorem Locked.ban (h : Locked client start deadline s) (hdeadline : s.now < deadline)
    (hidle : s.now ≤ start + failureIdleTimeout) : ∃ entry banUntil,
      s.limiter.authFailures.live s.now client = some entry ∧ entry.banUntil = some banUntil ∧
        deadline ≤ banUntil ∧ s.limiter.ban s.now client = some banUntil := by
  obtain ⟨-, ⟨entry, accessed⟩, hslot, hstart, banUntil, hban, hle⟩ := h
  have hlive : s.limiter.authFailures.live s.now client = some entry :=
    IdleCache.live_eq_some.mpr ⟨accessed, hslot, hidle.trans (Nat.add_le_add_right hstart _)⟩
  refine ⟨entry, banUntil, hlive, hban, hle, ?_⟩
  rw [RateLimiter.ban, hlive, Option.bind_some]
  exact AuthFailureEntry.ban_eq_some.mpr ⟨hban, hdeadline.trans_le hle⟩

/-- A check that finds the ban refuses, and leaves the client seen. -/
theorem Locked.checked {ip : IpAddr} {r : Except RateLimitExceeded RateLimitInfo}
    (h : Locked (.of ip) start deadline s) (henabled : s.limiter.config.enabled = true)
    (hdeadline : s.now < deadline) (hidle : s.now ≤ start + failureIdleTimeout)
    (hsem : Server.Sem w (.checkIpLimit ip : Ask jt Response) s r s') :
    (∃ exceeded, r = .error exceeded) ∧ Locked (.of ip) start deadline s' := by
  obtain ⟨entry, banUntil, hlive, hban, hle, hforce⟩ := h.ban hdeadline hidle
  obtain ⟨hr, rfl⟩ := hsem
  have hcheck := RateLimiter.checkIpLimit_of_ban henabled hforce
  rw [hcheck] at hr
  refine ⟨⟨_, hr⟩, h.1, ⟨entry, s.now⟩, ?_, h.1, banUntil, hban, hle⟩
  show (s.limiter.checkIpLimit s.now ip).2.authFailures.slots (.of ip) = _
  rw [hcheck]
  show (s.limiter.authFailures.get s.now (.of ip)).2.slots (.of ip) = _
  rw [IdleCache.get_of_live_some hlive, IdleCache.slots_put]

/-- A failure that reaches the limit and finds its deadline locks its client out. -/
theorem locked_of_failure {ip : IpAddr} (henabled : s.limiter.config.enabled = true)
    (hsem : Server.Sem w (.recordAuthFailure ip : Ask jt Response) s (some ()) s')
    (hreached : RateLimiter.LimitReached s'.limiter (.of ip)) :
    Locked (.of ip) s.now (s.now + s.limiter.config.authFailBanDuration) s' := by
  obtain ⟨hr, rfl⟩ := hsem
  obtain ⟨slot, hslot, hlimit⟩ := hreached
  have hstored := RateLimiter.recordAuthFailure_slot w.latest henabled s.now ip
  refine ⟨le_refl _, _, hstored, le_refl _, _, ?_, le_refl _⟩
  replace hslot := hstored.symm.trans hslot
  cases hslot
  replace hlimit : s.limiter.config.authFailLimit ≤ _ :=
    (congrArg RateLimitConfig.authFailLimit
      (s.limiter.step_config w.latest s.now (.recordAuthFailure ip))).symm.trans_le hlimit
  rw [RateLimiter.record_failures] at hlimit
  refine RateLimiter.record_banUntil hlimit ?_
  by_contra hlate
  rw [RateLimiter.recordAuthFailure, if_pos henabled] at hr
  replace hr : some () = (((s.limiter.authFailures.live s.now (.of ip)).getD (.new s.now)).record
    s.limiter.config w.latest s.now).1 := hr
  rw [AuthFailureEntry.record, if_pos hlimit, if_neg hlate] at hr
  cases hr

end

/-- What is left to a client that is locked out. -/
def Turned (x : Σ e : Ask jt Response, e.Answer) : Prop :=
  (∃ ip exceeded, x = ⟨.checkIpLimit ip, .error exceeded⟩) ∨ ∃ event, x = ⟨.record event, ()⟩

section

variable {d : Deployment jt} {w : Surroundings} {s₀ : Server jt}
  {tr tr₁ tr₂ before after : List (FrontEvent jt Response)} {cfg : FrontConfig jt Response}
  {ev last : FrontEvent jt Response} {ip : IpAddr} {client : ClientBucket} {i : Nat}
  {start deadline : Nat}

/-- The limiter is configured so, and counts nothing where it is off. -/
def Configured (config : RateLimitConfig) (s : Server jt) : Prop :=
  s.limiter.config = config ∧
    (config.enabled = false → ∀ client, s.limiter.authFailures.slots client = none)

theorem FrontRun.configured {config : RateLimitConfig} (hstart : Configured config s₀)
    (hrun : FrontRun d w s₀ tr cfg) :
    Configured config cfg.state ∧ ∀ ev ∈ tr, Configured config ev.pre := by
  refine Run.always hrun hstart ?_ ?_
  · rintro e s r s' hsem ⟨rfl, hoff⟩
    have hstep := Server.stepped hsem
    refine ⟨hstep.config, fun hdisabled client => ?_⟩
    rw [hstep.limiter]
    cases e.limiterCall with
    | none => exact hoff hdisabled client
    | some call => exact RateLimiter.slots_step_of_disabled hdisabled (hoff hdisabled) _ call client
  · rintro s s' henv ⟨rfl, hoff⟩
    refine ⟨henv.config, fun hdisabled client => ?_⟩
    cases henv with
    | passes clock wall hclock => exact hoff hdisabled client
    | evictIp other | evictTenant tenantId | evictFailures other =>
        exact RateLimiter.slots_step_of_disabled hdisabled (hoff hdisabled) _ _ client

/-- Where a failure was counted, or a check refused, a request only records. -/
theorem Issues.turned {incoming : Incoming} {h : Asked jt Response} {e : Ask jt Response}
    (hissues : Issues d incoming h e) (hnot : ¬ Admitted (incoming.facts d) h) :
    (∃ ip', e = .checkIpLimit ip' ∧ h = [] ∧ (incoming.facts d).sourceIp = some ip') ∨
      ∃ event, e = .record event := by
  cases e with
  | checkIpLimit ip' => exact .inl ⟨ip', rfl, hissues⟩
  | record event => exact .inr ⟨event, rfl⟩
  | manage call => cases hissues
  | checkTenantLimit tenantId | peekIpLimit ip' => exact absurd hissues hnot
  | recordAuthSuccess ip' | recordAuthFailure ip' | next identity facts | utcNow
  | getByPrefix keyPrefix | recordUsage id | keys access | explicit headers =>
      exact absurd hissues.1 hnot

/-- The run up to the later of two events. -/
theorem FrontRun.regrouped (hrun : FrontRun d w s₀ (tr₁ ++ ev :: (before ++ last :: after)) cfg) :
    FrontRun d w s₀ ((tr₁ ++ ev :: before) ++ last :: after) cfg := by
  rw [List.append_assoc, List.cons_append]
  exact hrun

/-- One event of a lockout: the client is turned away, and stays locked out. -/
theorem Locked.act (hrun : FrontRun d w s₀ (tr₁ ++ ev :: (before ++ last :: after)) cfg)
    (hlabel : ev.label = .act i (.recordAuthFailure ip) (some ()))
    (hlocked : Locked client start deadline last.pre)
    (henabled : last.pre.limiter.config.enabled = true) (hdeadline : last.pre.now < deadline)
    (hidle : last.pre.now ≤ start + failureIdleTimeout) {j : Nat} {e : Ask jt Response}
    {r : e.Answer} (hlast : last.label = .act j e r)
    {call : Call (Ask jt Response) Ask.Answer (Outcome Response) Request}
    (hcall : cfg.calls[j]? = some call) (hclient : call.request.client d = some client)
    (hquiet : j ≠ i → actsOf j tr₁ = [])
    (hturned : ∀ x ∈ actsOf j before, Turned x) :
    Turned ⟨e, r⟩ ∧ Locked client start deadline last.post := by
  replace hrun := FrontRun.regrouped hrun
  have hsem := hrun.effect (List.mem_append_right _ (List.mem_cons_self ..)) hlast
  obtain ⟨request, rest, hfound, hissues⟩ := FrontRun.issued hrun hlast
  obtain rfl := Option.some.inj (hcall.symm.trans hfound)
  cases request with
  | manage call => cases hclient
  | http incoming =>
      obtain ⟨own, hown, hof⟩ := Option.map_eq_some_iff.mp hclient
      have hnot : ¬ Admitted (incoming.facts d) (actsOf j (tr₁ ++ ev :: before)) := by
        intro hadmitted
        by_cases hji : j = i
        · subst hji
          refine hadmitted.uncounted ip (some ()) ?_
          exact mem_actsOf (List.mem_append_right _ (List.mem_cons_self ..)) hlabel
        · obtain ⟨info, hmem⟩ := hadmitted.checked own hown
          have hother : actsOf j [ev] = [] := by simp [actsOf, hlabel, Ne.symm hji]
          rw [← List.singleton_append, actsOf_append, actsOf_append, hquiet hji, hother] at hmem
          rcases hturned _ hmem with ⟨ip', exceeded, heq⟩ | ⟨event, heq⟩
          · cases heq
          · cases heq
      rcases Issues.turned hissues hnot with ⟨ip', rfl, -, hip⟩ | ⟨event, rfl⟩
      · obtain rfl := Option.some.inj (hown.symm.trans hip)
        subst hof
        obtain ⟨⟨exceeded, rfl⟩, hpost⟩ := hlocked.checked henabled hdeadline hidle hsem
        exact ⟨.inl ⟨own, exceeded, rfl⟩, hpost⟩
      · refine ⟨.inr ⟨event, rfl⟩, hlocked.congr ?_ ?_⟩
        · exact (Server.stepped hsem).clock.ge
        · exact (Server.stepped hsem).failures (Option.some_ne_none client).symm

/-- Any event of a lockout leaves the client locked out. -/
theorem Locked.event (hrun : FrontRun d w s₀ (tr₁ ++ ev :: (before ++ last :: after)) cfg)
    (hlabel : ev.label = .act i (.recordAuthFailure ip) (some ()))
    (hlocked : Locked client start deadline last.pre)
    (henabled : last.pre.limiter.config.enabled = true) (hdeadline : last.pre.now < deadline)
    (hidle : last.pre.now ≤ start + failureIdleTimeout)
    (hheld : last.label = .env → last.post.limiter.authFailures.slots client =
      last.pre.limiter.authFailures.slots client)
    (hquiet : ∀ j call, j ≠ i → cfg.calls[j]? = some call → call.request.client d = some client →
      actsOf j tr₁ = [] ∨ actsOf j (before ++ last :: after) = [])
    (hturned : ∀ j call, cfg.calls[j]? = some call → call.request.client d = some client →
      ∀ x ∈ actsOf j before, Turned x) :
    Locked client start deadline last.post ∧
      ∀ j e r call, last.label = .act j e r → cfg.calls[j]? = some call →
        call.request.client d = some client → Turned ⟨e, r⟩ := by
  have hmem : last ∈ tr₁ ++ ev :: (before ++ last :: after) := by simp
  have hact : ∀ j e r call, last.label = .act j e r → cfg.calls[j]? = some call →
      call.request.client d = some client →
        Turned ⟨e, r⟩ ∧ Locked client start deadline last.post := by
    intro j e r call hlast hcall hclient
    refine hlocked.act hrun hlabel henabled hdeadline hidle hlast hcall hclient (fun hji => ?_)
      (hturned j call hcall hclient)
    refine (hquiet j call hji hcall hclient).resolve_right fun hnone => ?_
    have hlater : last ∈ before ++ last :: after := List.mem_append_right _ (List.mem_cons_self ..)
    have hdid := mem_actsOf hlater hlast
    rw [hnone] at hdid
    cases hdid
  refine ⟨?_, fun j e r call hlast hcall hclient => (hact j e r call hlast hcall hclient).1⟩
  rcases hrun.event_cases hmem with ⟨q, -, hpost⟩ | ⟨j, e, r, hlast, hsem⟩ | ⟨henv, hstep⟩
  · rw [hpost]
    exact hlocked
  · by_cases hfails : e.fails = some client
    · obtain ⟨request, rest, hcall, hissues⟩ := FrontRun.issued (FrontRun.regrouped hrun) hlast
      exact (hact j e r _ hlast hcall (hissues.client hfails)).2
    · exact hlocked.congr (Server.stepped hsem).clock.ge ((Server.stepped hsem).failures hfails)
  · exact hlocked.congr hstep.now (hheld henv)

/-- A client stays locked out for as long as its ban, or an hour. -/
theorem locked_run {config : RateLimitConfig} (hstart : Configured config s₀)
    (henabled : config.enabled = true)
    (hrun : FrontRun d w s₀ (tr₁ ++ ev :: (before ++ after)) cfg)
    (hlabel : ev.label = .act i (.recordAuthFailure ip) (some ()))
    (hlocked : Locked client start deadline ev.post)
    (hheld : ∀ ev' ∈ before, ev'.label = .env → ev'.post.limiter.authFailures.slots client =
      ev'.pre.limiter.authFailures.slots client)
    (hquiet : ∀ j call, j ≠ i → cfg.calls[j]? = some call → call.request.client d = some client →
      actsOf j tr₁ = [] ∨ actsOf j (before ++ after) = [])
    {c : FrontConfig jt Response} (hreached : FrontRun d w s₀ (tr₁ ++ ev :: before) c)
    (hdeadline : c.state.now < deadline) (hidle : c.state.now ≤ start + failureIdleTimeout) :
    Locked client start deadline c.state ∧
      ∀ j call, cfg.calls[j]? = some call → call.request.client d = some client →
        ∀ x ∈ actsOf j before, Turned x := by
  induction before using List.reverseRecOn generalizing after c with
  | nil =>
      obtain ⟨-, -, -, hpost⟩ := hreached.last
      exact ⟨hpost ▸ hlocked, fun j call _ _ x hx => absurd hx List.not_mem_nil⟩
  | append_singleton before last ih =>
      rw [← List.cons_append, ← List.append_assoc] at hreached
      obtain ⟨c₁, hreached₁, hpre, hpost⟩ := Run.last hreached
      rw [List.append_assoc, List.singleton_append] at hrun hquiet
      have hnow : c₁.state.now ≤ c.state.now := by
        rw [← hpre, ← hpost]
        rcases hreached.event_cases (List.mem_append_right _ (List.mem_singleton_self _)) with
          ⟨q, -, hsame⟩ | ⟨j, e, r, hlast, hsem⟩ | ⟨henv, hstep⟩
        · rw [hsame]
        · exact (Server.stepped hsem).clock.ge
        · exact hstep.now
      obtain ⟨hlocked₁, hturned⟩ := ih hrun
        (fun ev' hev' => hheld ev' (List.mem_append_left _ hev')) hquiet hreached₁
        (hnow.trans_lt hdeadline) (hnow.trans hidle)
      have hconfig := (FrontRun.configured hstart hreached₁).1.1
      rw [← hpre] at hlocked₁ hconfig hnow
      obtain ⟨hkept, hact⟩ := hlocked₁.event hrun hlabel (by rw [hconfig, henabled])
        (hnow.trans_lt hdeadline) (hnow.trans hidle)
        (hheld last (List.mem_append_right _ (List.mem_singleton_self _))) hquiet hturned
      rw [hpost] at hkept
      refine ⟨hkept, fun j call hcall hclient x hx => ?_⟩
      rw [actsOf_append] at hx
      rcases List.mem_append.mp hx with hold | hnew
      · exact hturned j call hcall hclient x hold
      · obtain ⟨ev', hev', hlast⟩ := exists_of_mem_actsOf hnew
        rw [List.mem_singleton.mp hev'] at hlast
        exact hact j x.1 x.2 call hlast hcall hclient

end

/-- A client that earns a ban, with no other request of its own under way and its failures not
evicted, gets no further than the limiter until the ban ends, or the hour after which an idle
client is forgotten: neither is its credential looked at nor a handler called. -/
theorem banned_unserved (d : Deployment jt) (w : Surroundings) (config : RateLimitConfig)
    (keys : List StoredApiKey) (clock : Nat) (wall : Int) (tr₁ tr₂ : List (FrontEvent jt Response))
    (ev : FrontEvent jt Response) (cfg : FrontConfig jt Response)
    (hrun : FrontRun d w (.start config keys clock wall) (tr₁ ++ ev :: tr₂) cfg) (i : Nat)
    (ip : IpAddr) (hlabel : ev.label = .act i (.recordAuthFailure ip) (some ()))
    (hreached : RateLimiter.LimitReached ev.post.limiter (.of ip))
    (hheld : ∀ ev' ∈ tr₂, ev'.label = .env → ev'.post.limiter.authFailures.slots (.of ip) =
      ev'.pre.limiter.authFailures.slots (.of ip))
    (hquiet : ∀ j call, j ≠ i → cfg.calls[j]? = some call → call.request.client d = some (.of ip) →
      actsOf j tr₁ = [] ∨ actsOf j tr₂ = [])
    (ev' : FrontEvent jt Response) (hev' : ev' ∈ tr₂)
    (hbanned : ev'.pre.now < ev.pre.now + min config.authFailBanDuration failureIdleTimeout)
    (j : Nat) (e : Ask jt Response) (r : e.Answer) (hact : ev'.label = .act j e r)
    (call : Call (Ask jt Response) Ask.Answer (Outcome Response) Request)
    (hcall : cfg.calls[j]? = some call) (hclient : call.request.client d = some (.of ip)) :
    Turned ⟨e, r⟩ := by
  have hstart : Configured config (.start config keys clock wall : Server jt) :=
    ⟨rfl, fun _ _ => rfl⟩
  have hmem : ev ∈ tr₁ ++ ev :: tr₂ := List.mem_append_right _ (List.mem_cons_self ..)
  have hsem := hrun.effect hmem hlabel
  obtain ⟨hconfig, hoff⟩ := (FrontRun.configured hstart hrun).2 ev hmem
  have henabled : config.enabled = true := by
    cases hdisabled : config.enabled with
    | true => rfl
    | false =>
        obtain ⟨slot, hslot, -⟩ := hreached
        have hnone : ev.post.limiter.authFailures.slots (.of ip) = none := by
          rw [hsem.2]
          exact RateLimiter.slots_step_of_disabled (by rw [hconfig, hdisabled]) (hoff hdisabled)
            _ _ _
        cases hnone.symm.trans hslot
  have hlocked := locked_of_failure (by rw [hconfig, henabled]) hsem hreached
  rw [hconfig] at hlocked
  obtain ⟨before, after, rfl⟩ := List.append_of_mem hev'
  obtain ⟨c, c', hreached', -, hpre, -⟩ := Run.reaches (FrontRun.regrouped hrun)
  have hdeadline : ev'.pre.now < ev.pre.now + config.authFailBanDuration :=
    hbanned.trans_le (Nat.add_le_add_left (Nat.min_le_left ..) _)
  have hidle : ev'.pre.now ≤ ev.pre.now + failureIdleTimeout :=
    (hbanned.trans_le (Nat.add_le_add_left (Nat.min_le_right ..) _)).le
  obtain ⟨hstill, hturned⟩ := locked_run hstart henabled hrun hlabel hlocked
    (fun ev'' hev'' => hheld ev'' (List.mem_append_left _ hev'')) hquiet hreached'
    (hpre ▸ hdeadline) (hpre ▸ hidle)
  rw [← hpre] at hstill
  have hconfigured := (FrontRun.configured hstart hreached').1.1
  exact (hstill.event hrun hlabel (by rw [hpre, hconfigured, henabled]) hdeadline hidle
    (hheld ev' hev') hquiet hturned).2 j e r call hact hcall hclient

/-- A key nobody has bans the client, and its next request is turned away. -/
def bannedRun : List (FrontEvent Jsonwebtoken.plain Text) × FrontConfig Jsonwebtoken.plain Text :=
  frontRunOf (.start (requestWith "rb_0123456780".toList) :: .start (requestWith ciKeyText) ::
    List.replicate 4 (.step 0) ++ [.step 1, .step 1])

def isEnv (ev : FrontEvent Jsonwebtoken.plain Text) : Bool :=
  match ev.label with
  | .env => true
  | _ => false

theorem banned_unserved_ci :
    ∃ (ev : FrontEvent Jsonwebtoken.plain Text) (r : Except RateLimitExceeded RateLimitInfo),
      ev ∈ bannedRun.1 ∧ ev.label = .act 1 (.checkIpLimit RateLimiter.exampleIp) r ∧
      Turned (⟨.checkIpLimit RateLimiter.exampleIp, r⟩ :
        Σ e : Ask Jsonwebtoken.plain Text, e.Answer) := by
  obtain ⟨ev, last, ev', rest, r, call, htr, hlater, hfailed, hreached, hchecked, hnow, hearly,
      hcall, hclient, hlength⟩ :
      ∃ (ev last ev' : FrontEvent Jsonwebtoken.plain Text)
        (rest : List (FrontEvent Jsonwebtoken.plain Text))
        (r : Except RateLimitExceeded RateLimitInfo)
        (call : Call (Ask Jsonwebtoken.plain Text) Ask.Answer (Outcome Text) Request),
        bannedRun.1 = bannedRun.1.take 4 ++ ev :: bannedRun.1.drop 5 ∧
        bannedRun.1.drop 5 = last :: ev' :: rest ∧
        ev.label = .act 0 (.recordAuthFailure RateLimiter.exampleIp) (some ()) ∧
        RateLimiter.LimitReached ev.post.limiter (.of RateLimiter.exampleIp) ∧
        ev'.label = .act 1 (.checkIpLimit RateLimiter.exampleIp) r ∧
        ev'.pre.now = ev.pre.now ∧
        actsOf 1 (bannedRun.1.take 4) = [] ∧
        bannedRun.2.calls[1]? = some call ∧
        call.request.client keyDeployment = some (.of RateLimiter.exampleIp) ∧
        bannedRun.2.calls.length = 2 := by
    with_unfolding_all
      exact ⟨_, _, _, _, _, _, rfl, rfl, rfl, ⟨_, rfl, by decide⟩, rfl, rfl, rfl, rfl, rfl, rfl⟩
  have hinside : (bannedRun.1.drop 5).all (fun ev => !isEnv ev) = true := by decide +kernel
  have hmem : ev' ∈ bannedRun.1.drop 5 := by simp [hlater]
  have hrun : FrontRun keyDeployment keySurroundings _ bannedRun.1 bannedRun.2 := frontRunOf_run _
  rw [htr] at hrun
  refine ⟨ev', r, List.mem_of_mem_drop hmem, hchecked,
    banned_unserved keyDeployment keySurroundings _ _ _ _ _ _ ev _ hrun 0 _ hfailed hreached ?_ ?_
      ev' hmem ?_ 1 (.checkIpLimit RateLimiter.exampleIp) r hchecked call hcall hclient⟩
  · intro ev'' hev'' henv
    have hother := List.all_eq_true.mp hinside ev'' hev''
    rw [isEnv, henv] at hother
    cases hother
  · intro j call' hj hcall' _
    have hlt := (List.getElem?_eq_some_iff.mp hcall').1
    obtain rfl : j = 1 := by omega
    exact .inl hearly
  · rw [hnow]
    exact Nat.lt_add_of_pos_right (by decide)

/-! ## What a refusal tells -/

/-- The failures a request has had counted. -/
def counted (h : Asked jt Response) : List IpAddr :=
  h.filterMap fun x =>
    match x.1 with
    | .recordAuthFailure ip => some ip
    | _ => none

/-- The records a request has handed to the audit sink. -/
def recorded (h : Asked jt Response) : List AuthRecord :=
  h.filterMap fun x =>
    match x.1 with
    | .record event => some event
    | _ => none

/-- No handler has run. -/
def Unserved (h : Asked jt Response) : Prop :=
  ∀ identity facts response, ⟨.next identity facts, response⟩ ∉ h

/-- The answer to every refused request. -/
def refusal : AuthErrorResponse := AuthError.unauthenticated.intoResponse

/-- Why a request was refused, and what was counted and recorded of it. -/
inductive Refused (d : Deployment jt) (incoming : Incoming) (h : Asked jt Response) :
    AuthError → Prop
  /-- It carried no key. -/
  | absent (hkey : extractKey incoming.passed = none) (hcounted : counted h = [])
      (hrecorded : recorded h = []) : Refused d incoming h .unauthenticated
  /-- It carried one that did not verify. -/
  | rejected {e : AuthError} (hkey : extractKey incoming.passed ≠ none)
      (hcounted : counted h = (incoming.facts d).sourceIp.toList)
      (hrecorded : recorded h = [(AuthRecord.authentication "unknown".toList false
        (incoming.facts d)).withReason e.display]) : Refused d incoming h e
  /-- It carried one that ran out after it had verified. -/
  | ranOut {identity : Identity} {now : Int}
      (hvouched : Vouched d incoming.passed h.evidence identity) (hnow : ⟨.utcNow, now⟩ ∈ h)
      (hexpired : identity.isExpired now = true) (hcounted : counted h = [])
      (hrecorded : recorded h = [(AuthRecord.authentication identity.authMethod.label false
        (incoming.facts d)).withReason "credential expired".toList]) :
      Refused d incoming h .tokenExpired

/-- A credential that is rejected is answered as a missing one. -/
theorem AuthError.intoResponse_of_rejected {e : AuthError} (h : e.credentialWasRejected = true) :
    e.intoResponse = refusal := by
  cases e with
  | invalidCredentials message | invalidToken message | malformedToken message | tokenExpired
  | expiredCredentials | apiKeyNotFound | apiKeyDisabled => rfl
  | _ => cases h

section

variable {d : Deployment jt} {incoming : Incoming} {h : Asked jt Response}

/-- Nothing was counted or recorded, and no handler has run. -/
structure Bare (h : Asked jt Response) : Prop where
  counted : counted h = []
  recorded : recorded h = []
  unserved : Unserved h

theorem counted_append (h h' : Asked jt Response) : counted (h ++ h') = counted h ++ counted h' :=
  List.filterMap_append

theorem recorded_append (h h' : Asked jt Response) :
    recorded (h ++ h') = recorded h ++ recorded h' :=
  List.filterMap_append

theorem Unserved.append (hunserved : Unserved h) {x : Σ e : Ask jt Response, e.Answer}
    (hx : ∀ identity facts response, x ≠ ⟨.next identity facts, response⟩) :
    Unserved (h ++ [x]) := by
  intro identity facts response hmem
  rcases List.mem_append.mp hmem with hold | hlast
  · exact hunserved identity facts response hold
  · exact hx identity facts response (List.mem_singleton.mp hlast).symm

/-- An effect that is seen neither by the limiter's failures, nor by the trail, nor by a handler. -/
def Ask.Bare : Ask jt Response → Prop
  | .recordAuthFailure _ | .record _ | .next .. => False
  | _ => True

theorem Bare.append (hbare : Bare h) {e : Ask jt Response} (he : e.Bare) (r : e.Answer) :
    Bare (h ++ [⟨e, r⟩]) := by
  refine ⟨?_, ?_, hbare.unserved.append ?_⟩
  · rw [counted_append, hbare.counted]
    cases e with
    | recordAuthFailure ip => cases he
    | _ => rfl
  · rw [recorded_append, hbare.recorded]
    cases e with
    | record event => cases he
    | _ => rfl
  · rintro identity facts response heq
    cases heq
    cases he

theorem Consulted.bare {e : Ask jt Response} (he : Consulted e) : e.Bare := by
  cases e with
  | recordAuthFailure ip | record event | next identity facts => cases he
  | _ => trivial

/-- With API keys configured, authenticating leaves no trace, and fails as the request is. -/
theorem authenticate_bare {jwtConfig : Option JwtAuthenticator}
    (hmechanisms : d.mechanisms = mechanisms false jwtConfig true) (hbare : Bare h) :
    Prog.Traced (fun _ _ => True) (fun h' r => Bare h' ∧ Fails (AsPresented incoming.passed) r ∧
        Finds (fun h' => Vouched d incoming.passed h'.evidence) h' r) h
      (d.authenticate incoming.passed : Authn jt Response Identity).run := by
  have hmeets : Prog.Meets Consulted (fun _ => True)
      (d.authenticate incoming.passed : Authn jt Response Identity).run := authenticate_meets _
  have hkept := hmeets.keeps hbare fun h' x hprior hx => hprior.append (Consulted.bare hx) x.2
  have hfails : Prog.Traced (fun _ _ => True) (fun _ r => Fails (AsPresented incoming.passed) r) h
      (d.authenticate incoming.passed : Authn jt Response Identity).run :=
    Prog.Meets.traced (authenticate_fails hmechanisms) (fun _ _ _ => trivial) fun _ _ hr => hr
  exact Prog.Traced.mono (hkept.and (hfails.and (authenticate_traced h))) (fun _ _ _ => trivial)
    fun h' r hr => ⟨hr.1.1, hr.2.1, hr.2.2⟩

/-- What is known of a request that was refused. -/
def Ends (d : Deployment jt) (incoming : Incoming) (h : Asked jt Response)
    (outcome : Outcome Response) : Prop :=
  ∀ e, outcome = .refused e → e.intoResponse = refusal ∧ Unserved h ∧ Refused d incoming h e

theorem accepted_ends {identity : Identity} (hbare : Bare h)
    (hvouched : Vouched d incoming.passed h.evidence identity) :
    Prog.Traced (fun _ _ => True) (Ends d incoming) h
      (accepted (incoming.facts d) identity : Asking jt Response (Outcome Response)) := by
  have hcleared : Prog.Traced (fun _ _ => True) (fun h' _ => Bare h' ∧
      Vouched d incoming.passed (Asked.evidence h') identity) h
      (clearFailures (incoming.facts d) : Asking jt Response Unit) := by
    rw [clearFailures]
    cases (incoming.facts d).sourceIp with
    | none => exact ⟨hbare, hvouched⟩
    | some ip =>
        exact ⟨trivial, fun r => ⟨hbare.append (e := .recordAuthSuccess ip) trivial r,
          hvouched.mono (Asked.evidence_append ..)⟩⟩
  refine Prog.Traced.bind hcleared ?_
  rintro h' _ ⟨hbare, hvouched⟩
  refine acted trivial fun now => ?_
  cases hexpired : identity.isExpired now with
  | true =>
      have hread := hbare.append (e := .utcNow) trivial now
      refine acted trivial fun answer e he => ?_
      cases he
      refine ⟨rfl, hread.unserved.append (by rintro identity facts response heq; cases heq), ?_⟩
      refine .ranOut (hvouched.mono ?_) (by simp) hexpired ?_ ?_
      · rw [List.append_assoc]
        exact Asked.evidence_append ..
      · rw [counted_append, hread.counted]
        rfl
      · rw [recorded_append, hread.recorded]
        rfl
  | false =>
      refine acted trivial fun _ => acted trivial fun answer => ?_
      cases answer with
      | error exceeded => exact acted trivial fun _ e he => by cases he
      | ok info =>
          refine acted trivial fun response => ?_
          rw [limitHeaders]
          cases (incoming.facts d).sourceIp with
          | none => exact fun e he => by cases he
          | some ip => exact acted trivial fun _ e he => by cases he

theorem rejected_ends {e : AuthError} (hbare : Bare h) (he : AsPresented incoming.passed e) :
    Prog.Traced (fun _ _ => True) (Ends d incoming) h
      (rejected (incoming.facts d) e : Asking jt Response (Outcome Response)) := by
  rw [AsPresented] at he
  split at he
  next hkey =>
    subst he
    rintro e he
    cases he
    exact ⟨rfl, hbare.unserved, .absent hkey hbare.counted hbare.recorded⟩
  next hkey =>
    rw [rejected, if_pos he]
    have hcount : Prog.Traced (fun _ _ => True) (fun h' _ => Unserved h' ∧
        counted h' = (incoming.facts d).sourceIp.toList ∧ recorded h' = []) h
        (countFailure (incoming.facts d) : Asking jt Response (Option Unit)) := by
      rw [countFailure]
      cases (incoming.facts d).sourceIp with
      | none => exact ⟨hbare.unserved, hbare.counted, hbare.recorded⟩
      | some ip =>
          refine ⟨trivial, fun r => ⟨hbare.unserved.append ?_, ?_, ?_⟩⟩
          · rintro identity facts response heq
            cases heq
          · rw [counted_append, hbare.counted]
            rfl
          · rw [recorded_append, hbare.recorded]
            rfl
    refine Prog.Traced.bind hcount ?_
    rintro h' r ⟨hunserved, hcounted, hrecorded⟩
    cases r with
    | none => exact fun e' he' => by cases he'
    | some _ =>
        refine acted trivial fun answer e' he' => ?_
        cases he'
        refine ⟨AuthError.intoResponse_of_rejected he, hunserved.append ?_, .rejected hkey ?_ ?_⟩
        · rintro identity facts response heq
          cases heq
        · rw [counted_append, hcounted]
          exact List.append_nil _
        · rw [recorded_append, hrecorded]
          rfl

theorem authMiddleware_ends {jwtConfig : Option JwtAuthenticator}
    (hmechanisms : d.mechanisms = mechanisms false jwtConfig true) (incoming : Incoming) :
    Prog.Traced (fun _ _ => True) (Ends d incoming) []
      (authMiddleware d incoming : Asking jt Response (Outcome Response)) := by
  have hadmitted : ∀ {h : Asked jt Response}, Bare h →
      Prog.Traced (fun _ _ => True) (Ends d incoming) h
        (admitted d incoming : Asking jt Response (Outcome Response)) := by
    intro h hbare
    refine Prog.Traced.bind (authenticate_bare hmechanisms hbare) ?_
    rintro h' r ⟨hbare, hfails, hfinds⟩
    cases r with
    | ok identity => exact accepted_ends hbare (hfinds identity rfl)
    | error e => exact rejected_ends hbare (hfails e rfl)
  have hnil : Bare ([] : Asked jt Response) := ⟨rfl, rfl, fun _ _ _ => List.not_mem_nil⟩
  rw [authMiddleware]
  cases (incoming.facts d).sourceIp with
  | none => exact hadmitted hnil
  | some ip =>
      refine acted trivial fun answer => ?_
      cases answer with
      | error exceeded => exact acted trivial fun _ e he => by cases he
      | ok info => exact hadmitted (hnil.append (e := .checkIpLimit ip) trivial _)

end

/-- With API keys configured, every request of a run that is refused is answered alike, whichever
check of whichever mechanism failed, and no handler has run for it. Its client's failures are
counted and a record is handed to the audit sink exactly where it carried a key, other than where
an accepted credential ran out in between, which is recorded and not counted. -/
theorem refused_alike (d : Deployment jt) (jwtConfig : Option JwtAuthenticator)
    (hmechanisms : d.mechanisms = mechanisms false jwtConfig true) (w : Surroundings)
    (s₀ : Server jt) (tr : List (FrontEvent jt Response)) (cfg : FrontConfig jt Response)
    (hrun : FrontRun d w s₀ tr cfg)
    (i : Nat) (incoming : Incoming) (e : AuthError)
    (hcall : cfg.calls[i]? = some ⟨.http incoming, .done (.refused e)⟩) :
    e.intoResponse = refusal ∧ Unserved (actsOf i tr) ∧ Refused d incoming (actsOf i tr) e := by
  have hended := (authMiddleware_ends hmechanisms incoming).of_follows (hrun.follows hcall)
  exact hended e rfl

/-- A request with a key nobody has. -/
def refusedRun : List (FrontEvent Jsonwebtoken.plain Text) × FrontConfig Jsonwebtoken.plain Text :=
  frontRunOf (.start (requestWith "rb_0123456780".toList) :: List.replicate 4 (.step 0))

theorem refused_alike_unknown : ∃ incoming,
    requestWith "rb_0123456780".toList = .http incoming ∧
      AuthError.apiKeyNotFound.intoResponse = refusal ∧ Unserved (actsOf 0 refusedRun.1) ∧
      Refused keyDeployment incoming (actsOf 0 refusedRun.1) .apiKeyNotFound :=
  ⟨_, rfl, refused_alike keyDeployment none rfl keySurroundings _ _ _ (frontRunOf_run _) 0 _ _
    (by with_unfolding_all rfl)⟩

end Rustberg.Auth.Middleware
