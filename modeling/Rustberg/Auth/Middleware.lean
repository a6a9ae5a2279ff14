import Rustberg.Auth.Authn

/-!
# The authentication middleware

`auth_middleware` of `auth/middleware.rs`, over the limiter, the key store,
the signing keys and the audit trail, any number of requests interleaved
with each other and with a host's calls on the key store. In every run:

- what reaches a handler was let in by the limiter, is vouched for by a
  configured mechanism, and its record was handed to the audit sink
  (`served_authenticated`);
- a key that was disabled or deleted vouches for nobody who looks it up
  later (`revoked_key_refused`).
-/

namespace Rustberg.Auth.Middleware

open Process Net V1

variable {jt : Jsonwebtoken} {Response : Type}

/-! ## Request ids -/

/-- `REQUEST_ID_HEADER` -/
def requestIdHeader : Text := "x-request-id".toList

/-- `MAX_REQUEST_ID_LEN` -/
def maxRequestIdLen : Nat := 128

def isUsableRequestId (id : Text) : Bool :=
  let id := id.trim
  !id.isEmpty && decide (id.len ≤ maxRequestIdLen) &&
    id.all fun c => c.isAlphanum || c == '-' || c == '_' || c == '.' || c == ':'

def sanitizeRequestId (id : Text) : Option Text :=
  if isUsableRequestId id then some id.trim else none

/-- `strip_unusable_request_id`: none, or one that is usable, stays. -/
def stripUnusableRequestId (headers : HeaderMap) : HeaderMap :=
  match headers.filter fun line => line.1 = requestIdHeader with
  | [] => headers
  | [line] =>
      if (headerStr line.2).any isUsableRequestId then headers
      else headers.filter fun line => line.1 ≠ requestIdHeader
  | _ => headers.filter fun line => line.1 ≠ requestIdHeader

/-- `SetRequestIdLayer`: an id is minted where there is none. -/
def setRequestId (minted : Text) (headers : HeaderMap) : HeaderMap :=
  if (headers.lookup requestIdHeader).isSome then headers
  else headers ++ [(requestIdHeader, minted)]

/-! ## Requests -/

/-- A request as it arrives, and the id that is minted for it. -/
structure Incoming where
  peer : Option IpAddr
  headers : HeaderMap
  minted : Text

/-- The headers the middleware reads. -/
def Incoming.passed (incoming : Incoming) : HeaderMap :=
  setRequestId incoming.minted (stripUnusableRequestId incoming.headers)

def Incoming.facts (d : Deployment jt) (incoming : Incoming) : Facts where
  sourceIp := extractClientIp incoming.peer incoming.passed d.remoteIp
  requestId := (headerText incoming.passed requestIdHeader).bind sanitizeRequestId

/-- A request, or a call a host makes on the key store. -/
inductive Request where
  | http (incoming : Incoming)
  | manage (call : InMemoryApiKeyStore.Call)

inductive Outcome (Response : Type) where
  /-- `429` -/
  | limited (exceeded : RateLimitExceeded)
  | refused (e : AuthError)
  | served (response : Response) (info : Option RateLimitInfo)
  /-- The deadline of a ban does not fit the clock. -/
  | panicked
  | managed (answer : Except Text Unit)

/-! ## The middleware -/

/-- The name of a method in a record. -/
def AuthMethod.label : AuthMethod → Text
  | .apiKey => "api_key".toList
  | .bearer => "jwt".toList
  | .none => "anonymous".toList
  | .external => "host".toList
  | .internal => "other".toList

def act (e : Ask jt Response) : Asking jt Response e.Answer := Prog.call e

def recordLossy (event : AuthRecord) : Asking jt Response Unit := act (.record event)

def clearFailures (facts : Facts) : Asking jt Response Unit :=
  match facts.sourceIp with
  | some ip => act (.recordAuthSuccess ip)
  | none => pure ()

def countFailure (facts : Facts) : Asking jt Response (Option Unit) :=
  match facts.sourceIp with
  | some ip => act (.recordAuthFailure ip)
  | none => pure (some ())

/-- What the response's headers say of the client's limit. -/
def limitHeaders (facts : Facts) : Asking jt Response (Option RateLimitInfo) :=
  match facts.sourceIp with
  | some ip => act (.peekIpLimit ip)
  | none => pure none

def accepted (facts : Facts) (identity : Identity) : Asking jt Response (Outcome Response) := do
  clearFailures facts
  let now ← act .utcNow
  if identity.isExpired now then do
    recordLossy ((AuthRecord.authentication identity.authMethod.label false facts).withReason
      "credential expired".toList)
    return .refused .tokenExpired
  else do
    recordLossy ((AuthRecord.authentication identity.authMethod.label true facts).withPrincipal
      identity.toPrincipal)
    match ← act (.checkTenantLimit identity.tenantId) with
    | Except.error exceeded => do
        recordLossy
          ((AuthRecord.rateLimit "tenant".toList facts).withPrincipal identity.toPrincipal)
        return .limited exceeded
    | Except.ok _ => do
        let response ← act (.next identity facts)
        let info ← limitHeaders facts
        return .served response info

def rejected (facts : Facts) (e : AuthError) : Asking jt Response (Outcome Response) :=
  if e.credentialWasRejected then do
    match ← countFailure facts with
    | none => return .panicked
    | some _ => do
        recordLossy ((AuthRecord.authentication "unknown".toList false facts).withReason e.display)
        return .refused e
  else return .refused e

/-- Within the client's limit. -/
def admitted (d : Deployment jt) (incoming : Incoming) : Asking jt Response (Outcome Response) := do
  match ← (d.authenticate incoming.passed).run with
  | .ok identity => accepted (incoming.facts d) identity
  | .error e => rejected (incoming.facts d) e

def authMiddleware (d : Deployment jt) (incoming : Incoming) :
    Asking jt Response (Outcome Response) :=
  match (incoming.facts d).sourceIp with
  | none => admitted d incoming
  | some ip => do
      match ← act (.checkIpLimit ip) with
      | Except.error exceeded => do
          recordLossy (.rateLimit "ip".toList (incoming.facts d))
          return .limited exceeded
      | Except.ok _ => admitted d incoming

def Request.program (d : Deployment jt) : Request → Asking jt Response (Outcome Response)
  | .http incoming => authMiddleware d incoming
  | .manage call => do
      let answer ← act (.manage call)
      return .managed answer

/-! ## The server -/

/-- What the requests share. The caches of signing keys have the clock the
limiter reads; `wall` is the time a credential's expiry is compared with. -/
structure Server (jt : Jsonwebtoken) where
  limiter : RateLimiter
  store : InMemoryApiKeyStore
  keys : Authenticator jt
  wall : Int
  /-- The records handed to the audit sink, oldest first. The sink may lose them. -/
  trail : List AuthRecord

/-- What of the surroundings stays as it is: how long a key set is cached, and
the last instant of the clock. -/
structure Surroundings where
  ttl : Nat
  latest : Nat

namespace Server

def now (s : Server jt) : Nat := s.keys.clock

/-- One atomic step. What a provider, a host's authenticator and a handler
answer is theirs. -/
def Sem (w : Surroundings) : (e : Ask jt Response) → Server jt → e.Answer → Server jt → Prop
  | .utcNow, s, r, s' => r = s.wall ∧ s' = s
  | .getByPrefix keyPrefix, s, r, s' => r = s.store.getByPrefix keyPrefix ∧ s' = s
  | .recordUsage id, s, r, s' =>
      r = (s.store.recordUsage s.wall id).map (fun _ => ()) ∧
        s' = { s with store := s.store.step (.recordUsage s.wall id) }
  | .keys access, s, r, s' => ∃ fetched keys, (r, keys) = s.keys.handle w.ttl fetched access ∧
      s' = { s with keys }
  | .explicit _, s, _, s' => s' = s
  | .checkIpLimit ip, s, r, s' => r = (s.limiter.checkIpLimit s.now ip).1 ∧
      s' = { s with limiter := s.limiter.step w.latest s.now (.checkIpLimit ip) }
  | .checkTenantLimit tenantId, s, r, s' => r = (s.limiter.checkTenantLimit s.now tenantId).1 ∧
      s' = { s with limiter := s.limiter.step w.latest s.now (.checkTenantLimit tenantId) }
  | .peekIpLimit ip, s, r, s' => r = (s.limiter.peekIpLimit s.now ip).1 ∧
      s' = { s with limiter := s.limiter.step w.latest s.now (.peekIpLimit ip) }
  | .recordAuthSuccess ip, s, _, s' =>
      s' = { s with limiter := s.limiter.step w.latest s.now (.recordAuthSuccess ip) }
  | .recordAuthFailure ip, s, r, s' => r = (s.limiter.recordAuthFailure w.latest s.now ip).1 ∧
      s' = { s with limiter := s.limiter.step w.latest s.now (.recordAuthFailure ip) }
  | .record event, s, _, s' => s' = { s with trail := s.trail ++ [event] }
  | .next .., s, _, s' => s' = s
  | .manage call, s, r, s' => r = (call.answer s.store).map (fun _ => ()) ∧
      s' = { s with store := s.store.step call }

/-- Time passes, or a cache of the limiter evicts an entry. -/
inductive Env (w : Surroundings) (s : Server jt) : Server jt → Prop
  | passes (clock : Nat) (wall : Int) (hclock : s.keys.clock ≤ clock) :
      Env w s { s with keys := { s.keys with clock }, wall }
  | evictIp (client : ClientBucket) :
      Env w s { s with limiter := s.limiter.step w.latest s.now (.evictIp client) }
  | evictTenant (tenantId : Text) :
      Env w s { s with limiter := s.limiter.step w.latest s.now (.evictTenant tenantId) }
  | evictFailures (client : ClientBucket) :
      Env w s { s with limiter := s.limiter.step w.latest s.now (.evictFailures client) }

/-! ### What a step changes -/

end Server

/-- The call on the limiter an effect is. -/
def Ask.limiterCall : Ask jt Response → Option LimiterCall
  | .checkIpLimit ip => some (.checkIpLimit ip)
  | .checkTenantLimit tenantId => some (.checkTenantLimit tenantId)
  | .peekIpLimit ip => some (.peekIpLimit ip)
  | .recordAuthSuccess ip => some (.recordAuthSuccess ip)
  | .recordAuthFailure ip => some (.recordAuthFailure ip)
  | _ => none

/-- The call on the key store an effect is. -/
def Ask.storeCall (wall : Int) : Ask jt Response → Option InMemoryApiKeyStore.Call
  | .recordUsage id => some (.recordUsage wall id)
  | .manage call => some call
  | _ => none

namespace Server

/-- What a step leaves, part by part. -/
structure Stepped (w : Surroundings) (e : Ask jt Response) (s s' : Server jt) : Prop where
  limiter : s'.limiter = e.limiterCall.elim s.limiter (s.limiter.step w.latest s.now)
  store : s'.store = (e.storeCall s.wall).elim s.store s.store.step
  keys : (∀ access, e ≠ .keys access) → s'.keys = s.keys
  clock : s'.now = s.now
  fetched : s.keys.fetched ⊆ s'.keys.fetched
  trail : s.trail <+: s'.trail

variable {w : Surroundings} {e : Ask jt Response} {s s' : Server jt} {r : e.Answer}

theorem stepped (hsem : Sem w e s r s') : Stepped w e s s' := by
  cases e with
  | keys access =>
      obtain ⟨fetched, keys, hhandle, rfl⟩ := hsem
      obtain ⟨hclock, hfetched⟩ := handle_grows hhandle
      exact ⟨rfl, rfl, fun hne => absurd rfl (hne access), hclock, hfetched, List.prefix_rfl⟩
  | utcNow | getByPrefix keyPrefix | recordUsage id | checkIpLimit ip | checkTenantLimit tenantId
  | peekIpLimit ip | recordAuthFailure ip | manage call =>
      obtain ⟨-, rfl⟩ := hsem
      exact ⟨rfl, rfl, fun _ => rfl, rfl, List.Subset.refl _, List.prefix_rfl⟩
  | explicit headers | recordAuthSuccess ip | next identity facts =>
      obtain rfl := hsem
      exact ⟨rfl, rfl, fun _ => rfl, rfl, List.Subset.refl _, List.prefix_rfl⟩
  | record event =>
      obtain rfl := hsem
      exact ⟨rfl, rfl, fun _ => rfl, rfl, List.Subset.refl _, List.prefix_append ..⟩

/-- At startup: the configured keys, and nothing cached or recorded. -/
def start (config : RateLimitConfig) (keys : List StoredApiKey) (clock : Nat) (wall : Int) :
    Server jt where
  limiter := .new config
  store := .withKeys keys
  keys := .new clock
  wall := wall
  trail := []

end Server

abbrev FrontEvent (jt : Jsonwebtoken) (Response : Type) :=
  Process.Event (Ask jt Response) Ask.Answer (Server jt) Request

abbrev FrontConfig (jt : Jsonwebtoken) (Response : Type) :=
  Config (Ask jt Response) Ask.Answer (Outcome Response) (Server jt) Request

/-- A run of any requests and calls on the key store. -/
abbrev FrontRun (d : Deployment jt) (w : Surroundings) (s₀ : Server jt)
    (tr : List (FrontEvent jt Response)) (cfg : FrontConfig jt Response) : Prop :=
  Run (Request.program d) (Server.Sem w) (Server.Env w) ⟨s₀, []⟩ tr cfg

/-! ## What a request goes through -/

/-- The limiter has let the request in, and no failure of it is counted. -/
structure Admitted (facts : Facts) (h : Asked jt Response) : Prop where
  checked : ∀ ip, facts.sourceIp = some ip → ∃ info, ⟨.checkIpLimit ip, .ok info⟩ ∈ h
  uncounted : ∀ ip r, ⟨.recordAuthFailure ip, r⟩ ∉ h

/-- A principal a handler may be called for. -/
structure Passed (d : Deployment jt) (incoming : Incoming) (h : Asked jt Response)
    (identity : Identity) (facts : Facts) : Prop where
  facts_eq : facts = incoming.facts d
  vouched : Vouched d incoming.passed h.evidence identity
  unexpired : ∃ now, ⟨.utcNow, now⟩ ∈ h ∧ identity.isExpired now = false
  recorded :
    ⟨.record ((AuthRecord.authentication identity.authMethod.label true facts).withPrincipal
      identity.toPrincipal), ()⟩ ∈ h
  tenant : ∃ info, ⟨.checkTenantLimit identity.tenantId, .ok info⟩ ∈ h

/-- What authenticating may ask for. -/
def Consulted : Ask jt Response → Prop
  | .utcNow | .getByPrefix _ | .recordUsage _ | .explicit _ | .keys _ => True
  | _ => False

/-- What the middleware asks for, given what the request has seen. -/
def Issues (d : Deployment jt) (incoming : Incoming) (h : Asked jt Response) :
    Ask jt Response → Prop
  | .checkIpLimit ip => h = [] ∧ (incoming.facts d).sourceIp = some ip
  | .record _ => True
  | .manage _ => False
  | .checkTenantLimit _ | .peekIpLimit _ => Admitted (incoming.facts d) h
  | .recordAuthSuccess ip | .recordAuthFailure ip =>
      Admitted (incoming.facts d) h ∧ (incoming.facts d).sourceIp = some ip
  | .next identity facts =>
      Admitted (incoming.facts d) h ∧ Passed d incoming h identity facts
  | e => Admitted (incoming.facts d) h ∧ Consults h e

theorem Admitted.append {facts : Facts} {h : Asked jt Response} (hadmitted : Admitted facts h)
    {x : Σ e : Ask jt Response, e.Answer} (hx : ∀ ip r, x ≠ ⟨.recordAuthFailure ip, r⟩) :
    Admitted facts (h ++ [x]) where
  checked ip hip := (hadmitted.checked ip hip).imp fun _ => List.mem_append_left _
  uncounted ip r hmem := by
    rcases List.mem_append.mp hmem with hold | hlast
    · exact hadmitted.uncounted ip r hold
    · exact hx ip r (List.mem_singleton.mp hlast).symm

theorem Consults.consulted {h : Asked jt Response} {e : Ask jt Response} (he : Consults h e) :
    Consulted e := by
  cases e with
  | utcNow | getByPrefix keyPrefix | recordUsage id | explicit headers | keys access => trivial
  | _ => exact he

theorem Consulted.issues {d : Deployment jt} {incoming : Incoming} {h : Asked jt Response}
    {e : Ask jt Response} (hadmitted : Admitted (incoming.facts d) h) (he : Consults h e) :
    Issues d incoming h e := by
  cases e with
  | utcNow | getByPrefix keyPrefix | recordUsage id | explicit headers | keys access =>
      exact ⟨hadmitted, he⟩
  | _ => exact he.elim

section

variable {d : Deployment jt} {incoming : Incoming} {h : Asked jt Response}

theorem acted {P : Asked jt Response → Ask jt Response → Prop} {α : Type}
    {Q : Asked jt Response → α → Prop} {e : Ask jt Response} {f : e.Answer → Asking jt Response α}
    (he : P h e) (hf : ∀ r, Prog.Traced P Q (h ++ [⟨e, r⟩]) (f r)) :
    Prog.Traced P Q h (act e >>= f) := ⟨he, hf⟩

theorem authenticate_meets (headers : HeaderMap) :
    Prog.Meets Consulted (fun _ => True)
      (d.authenticate headers : Authn jt Response Identity).run := by
  have htraced : Prog.Traced Consults _ []
      (d.authenticate headers : Authn jt Response Identity).run :=
    authenticate_traced []
  exact Prog.Traced.meets (Prog.Traced.mono htraced (fun _ _ he => he.consulted) fun _ _ hQ => hQ)

theorem authenticate_issues (hadmitted : Admitted (incoming.facts d) h) :
    Prog.Traced (Issues d incoming) (fun h' r => Admitted (incoming.facts d) h' ∧
        Finds (fun h' => Vouched d incoming.passed h'.evidence) h' r) h
      (d.authenticate incoming.passed : Authn jt Response Identity).run := by
  have hmeets : Prog.Meets Consulted (fun _ => True)
      (d.authenticate incoming.passed : Authn jt Response Identity).run := authenticate_meets _
  have hkept := hmeets.keeps hadmitted fun h' x hprior hx =>
    hprior.append (by rintro ip r rfl; exact hx)
  exact Prog.Traced.mono (hkept.and (authenticate_traced h))
    (fun h' e he => Consulted.issues he.1.1 he.2) fun h' r hr => ⟨hr.1.1, hr.2⟩

theorem limitHeaders_issues {facts : Facts} (hadmitted : Admitted (incoming.facts d) h)
    (info : Option RateLimitInfo → Outcome Response) :
    Prog.Traced (Issues d incoming) (fun _ _ => True) h
      ((limitHeaders facts : Asking jt Response _) >>= fun r => pure (info r)) := by
  rw [limitHeaders]
  cases facts.sourceIp with
  | none => trivial
  | some ip => exact ⟨hadmitted, fun _ => trivial⟩

theorem accepted_issues {identity : Identity} (hadmitted : Admitted (incoming.facts d) h)
    (hvouched : Vouched d incoming.passed h.evidence identity) :
    Prog.Traced (Issues d incoming) (fun _ _ => True) h
      (accepted (incoming.facts d) identity : Asking jt Response (Outcome Response)) := by
  have hcleared : Prog.Traced (Issues d incoming) (fun h' _ => Admitted (incoming.facts d) h' ∧
      Vouched d incoming.passed (Asked.evidence h') identity) h
      (clearFailures (incoming.facts d) : Asking jt Response Unit) := by
    rw [clearFailures]
    cases hip : (incoming.facts d).sourceIp with
    | none => exact ⟨hadmitted, hvouched⟩
    | some ip =>
        exact ⟨⟨hadmitted, hip⟩, fun r => ⟨hadmitted.append (by rintro ip' r' heq; cases heq),
          hvouched.mono (Asked.evidence_append ..)⟩⟩
  refine Prog.Traced.bind hcleared ?_
  rintro h' _ ⟨hadmitted, hvouched⟩
  refine acted ⟨hadmitted, trivial⟩ fun now => ?_
  cases hexpired : identity.isExpired now with
  | true => exact acted trivial fun _ => trivial
  | false =>
      have hread := hadmitted.append (x := ⟨.utcNow, now⟩) (by rintro ip r heq; cases heq)
      refine acted trivial fun recorded => ?_
      have hrecorded := hread.append (x := ⟨.record _, recorded⟩) (by rintro ip r heq; cases heq)
      refine acted hrecorded fun answer => ?_
      cases answer with
      | error exceeded => exact acted trivial fun _ => trivial
      | ok info =>
          have hlate := hrecorded.append (x := ⟨.checkTenantLimit identity.tenantId, .ok info⟩)
            (by rintro ip r heq; cases heq)
          refine acted ⟨hlate, rfl, ?_, ⟨now, ?_, hexpired⟩, ?_, info, ?_⟩ fun response =>
            limitHeaders_issues (hlate.append (by rintro ip r heq; cases heq)) _
          · rw [List.append_assoc, List.append_assoc]
            exact hvouched.mono (Asked.evidence_append ..)
          all_goals simp

theorem rejected_issues (hadmitted : Admitted (incoming.facts d) h) (e : AuthError) :
    Prog.Traced (Issues d incoming) (fun _ _ => True) h
      (rejected (incoming.facts d) e : Asking jt Response (Outcome Response)) := by
  rw [rejected]
  cases e.credentialWasRejected with
  | false => trivial
  | true =>
      have hcounted : Prog.Traced (Issues d incoming) (fun _ _ => True) h
          (countFailure (incoming.facts d) : Asking jt Response (Option Unit)) := by
        rw [countFailure]
        cases hip : (incoming.facts d).sourceIp with
        | none => trivial
        | some ip => exact ⟨⟨hadmitted, hip⟩, fun _ => trivial⟩
      refine Prog.Traced.bind hcounted fun h' r _ => ?_
      cases r with
      | none => trivial
      | some _ => exact acted trivial fun _ => trivial

theorem admitted_issues (hadmitted : Admitted (incoming.facts d) h) :
    Prog.Traced (Issues d incoming) (fun _ _ => True) h
      (admitted d incoming : Asking jt Response (Outcome Response)) := by
  refine Prog.Traced.bind (authenticate_issues hadmitted) ?_
  rintro h' r ⟨hadmitted, hfinds⟩
  cases r with
  | ok identity => exact accepted_issues hadmitted (hfinds identity rfl)
  | error e => exact rejected_issues hadmitted e

theorem authMiddleware_issues (d : Deployment jt) (incoming : Incoming) :
    Prog.Traced (Issues d incoming) (fun _ _ => True) []
      (authMiddleware d incoming : Asking jt Response (Outcome Response)) := by
  rw [authMiddleware]
  cases hip : (incoming.facts d).sourceIp with
  | none =>
      refine admitted_issues ⟨fun ip heq => ?_, fun ip r => List.not_mem_nil⟩
      rw [hip] at heq
      cases heq
  | some ip =>
      refine acted ⟨rfl, hip⟩ fun answer => ?_
      cases answer with
      | error exceeded => exact acted trivial fun _ => trivial
      | ok info =>
          refine admitted_issues ⟨fun ip' heq => ?_, fun ip' r hmem => ?_⟩
          · cases hip.symm.trans heq
            exact ⟨info, List.mem_singleton_self _⟩
          · cases List.mem_singleton.mp hmem

end

/-! ## Runs -/

/-- What any request asks for, given what it has seen. -/
def Request.Issues (d : Deployment jt) : Request → Asked jt Response → Ask jt Response → Prop
  | .http incoming, h, e => Middleware.Issues d incoming h e
  | .manage call, _, e => e = .manage call

theorem Request.program_issues (d : Deployment jt) (request : Request) :
    Prog.Traced (request.Issues d) (fun _ _ => True) []
      (request.program d : Asking jt Response (Outcome Response)) := by
  cases request with
  | http incoming => exact authMiddleware_issues d incoming
  | manage call => exact acted rfl fun _ => trivial

section

variable {d : Deployment jt} {w : Surroundings} {s₀ : Server jt}
  {tr tr₁ tr₂ : List (FrontEvent jt Response)}
  {cfg : FrontConfig jt Response} {ev : FrontEvent jt Response}

theorem FrontRun.issued (hrun : FrontRun d w s₀ (tr₁ ++ ev :: tr₂) cfg) {i : Nat}
    {e : Ask jt Response} {r : e.Answer} (hlabel : ev.label = .act i e r) :
    ∃ request rest, cfg.calls[i]? = some ⟨request, rest⟩ ∧ request.Issues d (actsOf i tr₁) e := by
  obtain ⟨call, hcall, hissues⟩ := Run.issued (Request.program_issues d) hrun hlabel
  exact ⟨call.request, call.rest, hcall, hissues⟩

theorem Request.Issues.consults {request : Request} {h : Asked jt Response} {access : Access jt}
    (hissues : request.Issues d h (.keys access)) : Consults h (.keys access) := by
  cases request with
  | http incoming => exact hissues.2
  | manage call => cases hissues

/-! ### The signing keys -/

/-- The provider has answered with the key set. -/
def Fetched (s : Server jt) (jwks : Jwks) : Prop := ∃ clock, (clock, jwks) ∈ s.keys.fetched

/-- The provider has published the key under the key id. -/
def Signs (s : Server jt) (kid : Text) (key : jt.DecodingKey) : Prop :=
  ∃ jwks, Fetched s jwks ∧ jwks.select jt kid = .ok key

/-- What is cached, the provider has published. -/
structure Published (s : Server jt) : Prop where
  jwks : ∀ cached, s.keys.jwksCache = some cached → Fetched s cached.jwks
  keys : ∀ kid key, s.keys.decodingKeys[kid]? = some key → Signs s kid key

theorem Fetched.step {s s' : Server jt} {e : Ask jt Response} (hstep : Server.Stepped w e s s')
    {jwks : Jwks} (h : Fetched s jwks) : Fetched s' jwks :=
  h.imp fun _ hmem => hstep.fetched hmem

theorem Fetched.env {s s' : Server jt} (henv : Server.Env w s s') {jwks : Jwks}
    (h : Fetched s jwks) : Fetched s' jwks := by
  cases henv <;> exact h

/-- What the provider has answered a request with, or has been found cached, it has published. -/
theorem FrontRun.fetched (hrun : FrontRun d w s₀ tr cfg) (hpublished : ∀ ev ∈ tr, Published ev.pre)
    {i : Nat} {jwks : Jwks} (hsaw : SawJwks (actsOf i tr) jwks) : Fetched cfg.state jwks := by
  suffices hheld : ∃ ev ∈ tr, Fetched ev.post jwks by
    obtain ⟨ev, hev, hpost⟩ := hheld
    exact Run.stays (K := fun s => Fetched s jwks) hrun
      (fun e s r s' hsem hfetched => hfetched.step (Server.stepped hsem))
      (fun s s' henv hfetched => hfetched.env henv) hev hpost
  rcases hsaw with hmem | hmem
  · obtain ⟨ev, hev, hlabel⟩ := exists_of_mem_actsOf hmem
    obtain ⟨fetched, keys, hhandle, hpost⟩ := hrun.effect hev hlabel
    refine ⟨ev, hev, ev.pre.keys.clock, ?_⟩
    rw [hpost]
    cases hhandle
    exact List.mem_cons_self ..
  · obtain ⟨ev, hev, hlabel⟩ := exists_of_mem_actsOf hmem
    have hsem := hrun.effect hev hlabel
    refine ⟨ev, hev, Fetched.step (Server.stepped hsem) ?_⟩
    obtain ⟨fetched, keys, hhandle, -⟩ := hsem
    have hunexpired : ev.pre.keys.unexpired = some jwks := (congrArg Prod.fst hhandle).symm
    obtain ⟨cached, hcached, rfl⟩ := Option.map_eq_some_iff.mp hunexpired
    exact (hpublished ev hev).jwks cached (Option.filter_eq_some_iff.mp hcached).1

theorem Signs.step {s s' : Server jt} {e : Ask jt Response} (hstep : Server.Stepped w e s s')
    {kid : Text} {key : jt.DecodingKey} (h : Signs s kid key) : Signs s' kid key := by
  obtain ⟨jwks, hfetched, hselect⟩ := h
  exact ⟨jwks, hfetched.step hstep, hselect⟩

/-- What is cached stays published over an access to the caches, where what it puts there is. -/
theorem Published.accessed {s s' : Server jt} {access : Access jt} {r : access.Answer}
    (hpublished : Published s) (hsem : Server.Sem w (.keys access : Ask jt Response) s r s')
    (hstored : ∀ jwks, access = .store jwks → Fetched s jwks)
    (hremembered : ∀ kid key, access = .remember kid key → Signs s kid key) : Published s' := by
  have hstep := Server.stepped hsem
  obtain ⟨fetched, keys, hhandle, rfl⟩ := hsem
  obtain rfl := congrArg Prod.snd hhandle
  have hjwks : ∀ cached, s.keys.jwksCache = some cached → Fetched _ cached.jwks :=
    fun cached hcached => (hpublished.jwks cached hcached).step hstep
  have hkeys : ∀ kid key, s.keys.decodingKeys[kid]? = some key → Signs _ kid key :=
    fun kid key hkey => (hpublished.keys kid key hkey).step hstep
  cases access with
  | cachedKey kid | cachedJwks | fetch => exact ⟨hjwks, hkeys⟩
  | mayRefetch =>
      refine ⟨fun cached hcached => hjwks cached ?_, fun kid key hkey => hkeys kid key ?_⟩
      · rw [← hcached]
        dsimp only [Authenticator.handle]
        split <;> rfl
      · rw [← hkey]
        dsimp only [Authenticator.handle]
        split <;> rfl
  | purge =>
      refine ⟨hjwks, fun kid key hkey => ?_⟩
      simp [Authenticator.handle] at hkey
  | store jwks =>
      refine ⟨fun cached hcached => ?_, hkeys⟩
      cases hcached
      exact (hstored jwks rfl).step hstep
  | remember kid key =>
      refine ⟨hjwks, fun kid' key' hkey => ?_⟩
      replace hkey : (s.keys.decodingKeys.insert kid key)[kid']? = some key' := hkey
      rw [Relation.getElem?_insert] at hkey
      split at hkey
      next heq =>
        cases hkey
        cases heq
        exact (hremembered kid key rfl).step hstep
      next => exact hkeys kid' key' hkey

/-- Nothing is cached that the provider has not published. -/
theorem FrontRun.published (hstart : Published s₀) (hrun : FrontRun d w s₀ tr cfg) :
    Published cfg.state ∧ ∀ ev ∈ tr, Published ev.pre := by
  induction hrun with
  | nil => exact ⟨hstart, fun ev hev => absurd hev List.not_mem_nil⟩
  | @snoc tr c c' l hr hs ih =>
      obtain ⟨hpublished, hall⟩ := ih
      refine ⟨?_, fun ev hev => ?_⟩
      · cases hs with
        | start q => exact hpublished
        | env s' henv => cases henv <;> exact ⟨hpublished.jwks, hpublished.keys⟩
        | act i q e k r s' hi hsem =>
            have hissues := (hr.traced hi (Request.program_issues d q)).1
            by_cases hkeys : ∃ access, e = .keys access
            · obtain ⟨access, rfl⟩ := hkeys
              refine hpublished.accessed hsem ?_ ?_
              · rintro jwks rfl
                exact FrontRun.fetched hr hall (.inl hissues.consults)
              · rintro kid key rfl
                obtain ⟨jwks, hsaw, hselect⟩ := hissues.consults
                exact ⟨jwks, FrontRun.fetched hr hall hsaw, hselect⟩
            · have hstep := Server.stepped hsem
              have hsame := hstep.keys fun access heq => hkeys ⟨access, heq⟩
              refine ⟨fun cached hcached => ?_, fun kid key hkey => ?_⟩
              · rw [hsame] at hcached
                exact (hpublished.jwks cached hcached).step hstep
              · rw [hsame] at hkey
                exact (hpublished.keys kid key hkey).step hstep
      · rcases List.mem_append.mp hev with hold | hlast
        · exact hall ev hold
        · rw [List.mem_singleton.mp hlast]
          exact hpublished

/-! ### The key store -/

def Keyed (s : Server jt) : Prop := Index.Keyed s.store.keysById (·.id)

/-- Every key is stored under its own id. -/
theorem FrontRun.keyed (hstart : Keyed s₀) (hrun : FrontRun d w s₀ tr cfg) :
    Keyed cfg.state ∧ ∀ ev ∈ tr, Keyed ev.pre := by
  refine Run.always hrun hstart (fun e s r s' hsem hkeyed => ?_) fun s s' henv hkeyed => ?_
  · rw [Keyed, (Server.stepped hsem).store]
    cases e.storeCall s.wall with
    | none => exact hkeyed
    | some call => exact InMemoryApiKeyStore.keyed_step call hkeyed
  · cases henv <;> exact hkeyed

theorem keyed_start (config : RateLimitConfig) (keys : List StoredApiKey) (clock : Nat)
    (wall : Int) : Keyed (.start config keys clock wall : Server jt) := by
  rw [Keyed, Server.start, InMemoryApiKeyStore.withKeys_eq_run]
  exact InMemoryApiKeyStore.keyed_run _

theorem published_start (config : RateLimitConfig) (keys : List StoredApiKey) (clock : Nat)
    (wall : Int) : Published (.start config keys clock wall : Server jt) where
  jwks cached hcached := by cases hcached
  keys kid key hkey := by simp [Server.start, Authenticator.new] at hkey

/-- A key that is answered is stored, under its id. -/
theorem Keyed.getById {s : Server jt} (h : Keyed s) {keyPrefix : Text} {key : StoredApiKey}
    (hkey : key ∈ s.store.getByPrefix keyPrefix) : s.store.getById key.id = some key := by
  obtain ⟨id, -, hid⟩ := Index.mem_answer.mp hkey
  obtain rfl : key.id = id := h id key hid
  exact hid

/-! ## A server with two keys -/

/-- API keys only, each stored as its own digits. -/
def keyDeployment : Deployment Jsonwebtoken.plain where
  tokens := ⟨fun _ => .error [], fun _ _ _ _ => .error []⟩
  sha256 := id
  unicode := .plain
  remoteIp := .direct
  mechanisms := mechanisms false none true

def keySurroundings : Surroundings where
  ttl := fromSecs 300
  latest := RateLimiter.latestUnix

/-- The steps of a server whose provider is out, and whose handlers answer `ok`. -/
def Server.handle : (e : Ask Jsonwebtoken.plain Text) → Server Jsonwebtoken.plain →
    e.Answer × Server Jsonwebtoken.plain
  | .utcNow, s => (s.wall, s)
  | .getByPrefix keyPrefix, s => (s.store.getByPrefix keyPrefix, s)
  | .recordUsage id, s => ((s.store.recordUsage s.wall id).map fun _ => (),
      { s with store := s.store.step (.recordUsage s.wall id) })
  | .keys access, s =>
      let (r, keys) := s.keys.handle keySurroundings.ttl (.error (.external [])) access
      (r, { s with keys })
  | .explicit _, s => (.error .unauthenticated, s)
  | .checkIpLimit ip, s => ((s.limiter.checkIpLimit s.now ip).1,
      { s with limiter := s.limiter.step keySurroundings.latest s.now (.checkIpLimit ip) })
  | .checkTenantLimit tenantId, s => ((s.limiter.checkTenantLimit s.now tenantId).1,
      { s with
        limiter := s.limiter.step keySurroundings.latest s.now (.checkTenantLimit tenantId) })
  | .peekIpLimit ip, s => ((s.limiter.peekIpLimit s.now ip).1,
      { s with limiter := s.limiter.step keySurroundings.latest s.now (.peekIpLimit ip) })
  | .recordAuthSuccess ip, s => ((),
      { s with limiter := s.limiter.step keySurroundings.latest s.now (.recordAuthSuccess ip) })
  | .recordAuthFailure ip, s => ((s.limiter.recordAuthFailure keySurroundings.latest s.now ip).1,
      { s with limiter := s.limiter.step keySurroundings.latest s.now (.recordAuthFailure ip) })
  | .record event, s => ((), { s with trail := s.trail ++ [event] })
  | .next .., s => ("ok".toList, s)
  | .manage call, s =>
      ((call.answer s.store).map fun _ => (), { s with store := s.store.step call })

theorem Server.handle_sem (e : Ask Jsonwebtoken.plain Text) (s : Server Jsonwebtoken.plain) :
    Sem keySurroundings e s (handle e s).1 (handle e s).2 := by
  cases e with
  | utcNow | getByPrefix keyPrefix | recordUsage id | checkIpLimit ip | checkTenantLimit tenantId
  | peekIpLimit ip | recordAuthFailure ip | manage call => exact ⟨rfl, rfl⟩
  | explicit headers | recordAuthSuccess ip | record event | next identity facts => rfl
  | keys access => exact ⟨_, _, rfl, rfl⟩

def ciKeyText : Text := "rb_0123456789".toList

def deployKeyText : Text := "rb_abcdefghij".toList

/-- A key as it is configured under a name. -/
def keyNamed (name keyText : Text) : StoredApiKey where
  name := name
  tenantId := "acme".toList
  roles := []
  id := name
  keyPrefix := (extractKeyPrefix keyText).getD []
  keyHash := hashApiKey id keyText
  enabled := true
  createdAt := 0
  expiresAt := none
  lastUsedAt := none
  usageCount := 0
  description := none

def twoKeys : List StoredApiKey :=
  [keyNamed "ci".toList ciKeyText, keyNamed "deploy".toList deployKeyText]

/-- A request that carries a key. -/
def requestWith (keyText : Text) : Request :=
  .http ⟨some RateLimiter.exampleIp, [(apiKeyHeader, keyText)], "1".toList⟩

/-- A run of a server that bans for five minutes after one failure. -/
def frontRunOf (ms : List (Move Request)) :
    List (FrontEvent Jsonwebtoken.plain Text) × FrontConfig Jsonwebtoken.plain Text :=
  Config.moves (Request.program keyDeployment) Server.handle
    ⟨.start (.fromFileConfig (RateLimiter.lockout 300)) twoKeys 0 0, []⟩ ms

theorem frontRunOf_run (ms : List (Move Request)) :
    FrontRun keyDeployment keySurroundings
      (.start (.fromFileConfig (RateLimiter.lockout 300)) twoKeys 0 0)
      (frontRunOf ms).1 (frontRunOf ms).2 :=
  Run.nil.moves Server.handle_sem ms

/-! ## What reaches a handler -/

/-- Call `i` did `e` in the state `s`, and was answered `r`. -/
def Did (tr : List (FrontEvent jt Response)) (i : Nat) (e : Ask jt Response) (r : e.Answer)
    (s : Server jt) : Prop := ∃ ev ∈ tr, ev.label = .act i e r ∧ ev.pre = s

/-- What call `i` may go by: what it was answered, what the provider has
published, and the keys that were stored when it looked them up. -/
def heldBy (tr : List (FrontEvent jt Response)) (i : Nat) (s : Server jt) :
    Evidence jt Response where
  saw e r := ∃ s', Did tr i e r s'
  signs := Signs s
  lists keyPrefix key := ∃ candidates s', Did tr i (.getByPrefix keyPrefix) candidates s' ∧
    key ∈ s'.store.getByPrefix keyPrefix ∧ s'.store.getById key.id = some key

/-- A request that was let in, if its client has an address, and vouched for, and whose record
was handed to the audit sink, in a state `s` of a run. -/
structure Served (d : Deployment jt) (incoming : Incoming) (tr : List (FrontEvent jt Response))
    (i : Nat) (s : Server jt) (identity : Identity) (facts : Facts) : Prop where
  facts_eq : facts = incoming.facts d
  admitted : ∀ ip, facts.sourceIp = some ip → ∃ info s', Did tr i (.checkIpLimit ip) (.ok info) s' ∧
    (s'.limiter.config.enabled = true → s'.limiter.ban s'.now (.of ip) = none)
  vouched : Vouched d incoming.passed (heldBy tr i s) identity
  unexpired : ∃ now s', Did tr i .utcNow now s' ∧ identity.isExpired now = false
  recorded : (AuthRecord.authentication identity.authMethod.label true facts).withPrincipal
    identity.toPrincipal ∈ s.trail
  tenant : ∃ info s', Did tr i (.checkTenantLimit identity.tenantId) (.ok info) s'

theorem did_of_mem {i : Nat} {e : Ask jt Response} {r : e.Answer} (hmem : ⟨e, r⟩ ∈ actsOf i tr) :
    ∃ s, Did tr i e r s := by
  obtain ⟨ev, hev, hlabel⟩ := exists_of_mem_actsOf hmem
  exact ⟨ev.pre, ev, hev, hlabel, rfl⟩

/-- What a request has seen itself, it may go by. -/
theorem FrontRun.within (hpublished : Published s₀) (hkeyed : Keyed s₀)
    (hrun : FrontRun d w s₀ tr cfg) (i : Nat) :
    (Asked.evidence (actsOf i tr)).Within (heldBy tr i cfg.state) where
  saw e r hmem := did_of_mem hmem
  signs kid key hsaw := by
    obtain ⟨-, hall⟩ := FrontRun.published hpublished hrun
    rcases hsaw with hmem | ⟨jwks, hjwks, hselect⟩
    · obtain ⟨ev, hev, hlabel⟩ := exists_of_mem_actsOf hmem
      have hsem := hrun.effect hev hlabel
      have hsigns : Signs ev.post kid key := by
        refine Signs.step (Server.stepped hsem) ((hall ev hev).keys kid key ?_)
        obtain ⟨fetched, keys, hhandle, -⟩ := hsem
        exact (congrArg Prod.fst hhandle).symm
      exact Run.stays (K := fun s => Signs s kid key) hrun
        (fun e s r s' hsem h => h.step (Server.stepped hsem))
        (fun s s' henv h => h.imp fun jwks hjwks => ⟨hjwks.1.env henv, hjwks.2⟩) hev hsigns
    · exact ⟨jwks, FrontRun.fetched hrun hall hjwks, hselect⟩
  lists keyPrefix key hlisted := by
    obtain ⟨candidates, hmem, hkey⟩ := hlisted
    obtain ⟨ev, hev, hlabel⟩ := exists_of_mem_actsOf hmem
    obtain ⟨rfl, -⟩ := hrun.effect hev hlabel
    exact ⟨_, ev.pre, ⟨ev, hev, hlabel, rfl⟩, hkey,
      ((FrontRun.keyed hkeyed hrun).2 ev hev).getById hkey⟩

theorem FrontRun.passes (hrun : FrontRun d w s₀ (tr₁ ++ ev :: tr₂) cfg) {i : Nat}
    {identity : Identity} {facts : Facts} {response : Response}
    (hlabel : ev.label = .act i (.next identity facts) response) :
    ∃ incoming rest, cfg.calls[i]? = some ⟨.http incoming, rest⟩ ∧
      Admitted (incoming.facts d) (actsOf i tr₁) ∧
        Passed d incoming (actsOf i tr₁) identity facts := by
  obtain ⟨request, rest, hcall, hissues⟩ := FrontRun.issued hrun hlabel
  cases request with
  | http incoming => exact ⟨incoming, rest, hcall, hissues.1, hissues.2⟩
  | manage call => cases hissues

theorem vouched_of_run (hpublished : Published s₀) (hkeyed : Keyed s₀)
    (hrun : FrontRun d w s₀ (tr₁ ++ ev :: tr₂) cfg) {i : Nat} {incoming : Incoming}
    {identity : Identity} {facts : Facts}
    (hpassed : Passed d incoming (actsOf i tr₁) identity facts) :
    Vouched d incoming.passed (heldBy tr₁ i ev.pre) identity := by
  obtain ⟨c₁, c₂, hrun₁, -, hpre, -⟩ := Run.reaches hrun
  rw [hpre]
  exact hpassed.vouched.mono (FrontRun.within hpublished hkeyed hrun₁ i)

/-- In every run, what reaches a handler was let in by the limiter while no ban was in force, where
its client has an address; is vouched for by a configured mechanism, or is the anonymous principal
where none is configured; had not run out; has its record handed to the audit sink; and is within
its tenant's limit. -/
theorem served_authenticated (d : Deployment jt) (w : Surroundings) (config : RateLimitConfig)
    (keys : List StoredApiKey) (clock : Nat) (wall : Int) (tr₁ tr₂ : List (FrontEvent jt Response))
    (ev : FrontEvent jt Response) (cfg : FrontConfig jt Response)
    (hrun : FrontRun d w (.start config keys clock wall) (tr₁ ++ ev :: tr₂) cfg) (i : Nat)
    (identity : Identity) (facts : Facts) (response : Response)
    (hlabel : ev.label = .act i (.next identity facts) response) :
    ∃ incoming rest, cfg.calls[i]? = some ⟨.http incoming, rest⟩ ∧
      Served d incoming tr₁ i ev.pre identity facts := by
  obtain ⟨incoming, rest, hcall, hadmitted, hpassed⟩ := FrontRun.passes hrun hlabel
  obtain ⟨c₁, c₂, hrun₁, -, hpre, -⟩ := Run.reaches hrun
  refine ⟨incoming, rest, hcall, hpassed.facts_eq, fun ip hip => ?_, ?_, ?_, ?_, ?_⟩
  · rw [hpassed.facts_eq] at hip
    obtain ⟨info, hmem⟩ := hadmitted.checked ip hip
    obtain ⟨ev', hev', hlabel'⟩ := exists_of_mem_actsOf hmem
    refine ⟨info, ev'.pre, ⟨ev', hev', hlabel', rfl⟩, fun henabled => ?_⟩
    obtain ⟨hanswer, -⟩ := hrun₁.effect hev' hlabel'
    cases hban : ev'.pre.limiter.ban ev'.pre.now (.of ip) with
    | none => rfl
    | some deadline =>
        rw [RateLimiter.checkIpLimit_of_ban henabled hban] at hanswer
        cases hanswer
  · exact vouched_of_run (published_start ..) (keyed_start config keys clock wall) hrun hpassed
  · obtain ⟨now, hmem, hunexpired⟩ := hpassed.unexpired
    obtain ⟨s, hdid⟩ := did_of_mem hmem
    exact ⟨now, s, hdid, hunexpired⟩
  · obtain ⟨ev', hev', hlabel'⟩ := exists_of_mem_actsOf hpassed.recorded
    have hpost := hrun₁.effect hev' hlabel'
    rw [hpre]
    refine Run.stays (K := fun s => _ ∈ s.trail) hrun₁
      (fun e s r s' hsem hmem => (Server.stepped hsem).trail.subset hmem)
      (fun s s' henv hmem => ?_) hev' ?_
    · cases henv <;> exact hmem
    · rw [hpost]
      exact List.mem_append_right _ (List.mem_singleton_self _)
  · obtain ⟨info, hmem⟩ := hpassed.tenant
    obtain ⟨s, hdid⟩ := did_of_mem hmem
    exact ⟨info, s, hdid⟩

/-- A request with a configured key, up to the handler. -/
def servedRun : List (FrontEvent Jsonwebtoken.plain Text) × FrontConfig Jsonwebtoken.plain Text :=
  frontRunOf (.start (requestWith ciKeyText) :: List.replicate 9 (.step 0))

theorem served_authenticated_ci :
    ∃ (ev : FrontEvent Jsonwebtoken.plain Text) (identity : Identity) (facts : Facts)
      (incoming : Incoming) (rest : Asking Jsonwebtoken.plain Text (Outcome Text)),
    ev.label = .act 0 (.next identity facts) "ok".toList ∧
      servedRun.2.calls[0]? = some ⟨.http incoming, rest⟩ ∧
      Served keyDeployment incoming (servedRun.1.take 9) 0 ev.pre identity facts := by
  obtain ⟨ev, identity, facts, htr, hlabel⟩ : ∃ (ev : FrontEvent Jsonwebtoken.plain Text)
      (identity : Identity) (facts : Facts), servedRun.1 = servedRun.1.take 9 ++ [ev] ∧
        ev.label = .act 0 (.next identity facts) "ok".toList := by
    with_unfolding_all exact ⟨_, _, _, rfl, rfl⟩
  have hrun : FrontRun keyDeployment keySurroundings _ servedRun.1 servedRun.2 := frontRunOf_run _
  rw [htr] at hrun
  obtain ⟨incoming, rest, hcall, hserved⟩ := served_authenticated keyDeployment keySurroundings
    _ _ _ _ _ _ ev _ hrun 0 identity facts _ hlabel
  exact ⟨ev, identity, facts, incoming, rest, hlabel, hcall, hserved⟩

/-! ## Revoked keys -/

/-- A call after which the key may be enabled. -/
def Restores (id : Text) : InMemoryApiKeyStore.Call → Prop
  | .store key | .update key => key.id = id ∧ key.enabled = true
  | .enable id' => id' = id
  | _ => False

/-- No enabled key is stored under the id. -/
def Revoked (store : InMemoryApiKeyStore) (id : Text) : Prop :=
  ∀ key, store.getById id = some key → key.enabled = false

theorem revoked_insert {keys : Relation StoredApiKey} {id id' : Text} {key : StoredApiKey}
    (h : ∀ key, keys[id]? = some key → key.enabled = false)
    (hkey : id' = id → key.enabled = false) :
    ∀ key', (keys.insert id' key)[id]? = some key' → key'.enabled = false := by
  intro key' hfound
  rw [Relation.getElem?_insert] at hfound
  split at hfound
  next heq =>
    cases hfound
    exact hkey heq
  next => exact h key' hfound

theorem Revoked.step {store : InMemoryApiKeyStore} {id : Text} (h : Revoked store id)
    {call : InMemoryApiKeyStore.Call} (hkept : ¬ Restores id call) :
    Revoked (store.step call) id := by
  cases call with
  | store key =>
      refine revoked_insert h fun heq => ?_
      cases henabled : key.enabled with
      | false => rfl
      | true => exact absurd ⟨heq, henabled⟩ hkept
  | update key =>
      simp only [InMemoryApiKeyStore.step, InMemoryApiKeyStore.Call.answer,
        InMemoryApiKeyStore.update]
      cases store.keysById[key.id]? with
      | none => exact h
      | some old =>
          refine revoked_insert h fun heq => ?_
          cases henabled : key.enabled with
          | false => rfl
          | true => exact absurd ⟨heq, henabled⟩ hkept
  | delete id' =>
      simp only [InMemoryApiKeyStore.step, InMemoryApiKeyStore.Call.answer,
        InMemoryApiKeyStore.delete]
      cases store.keysById[id']? with
      | none => exact h
      | some old =>
          intro key hfound
          replace hfound : (store.keysById.erase id')[id]? = some key := hfound
          rw [Relation.getElem?_erase] at hfound
          split at hfound
          · cases hfound
          · exact h key hfound
  | recordUsage now id' =>
      simp only [InMemoryApiKeyStore.step, InMemoryApiKeyStore.Call.answer,
        InMemoryApiKeyStore.recordUsage]
      cases store.usageCounters[id']? with
      | none => exact h
      | some counter =>
          cases hold : store.keysById[id']? with
          | none => exact h
          | some old => exact revoked_insert h fun heq => h old (heq ▸ hold)
  | disable id' =>
      simp only [InMemoryApiKeyStore.step, InMemoryApiKeyStore.Call.answer,
        InMemoryApiKeyStore.disable, InMemoryApiKeyStore.setEnabled]
      cases store.keysById[id']? with
      | none => exact h
      | some old => exact revoked_insert h fun _ => rfl
  | enable id' =>
      simp only [InMemoryApiKeyStore.step, InMemoryApiKeyStore.Call.answer,
        InMemoryApiKeyStore.enable, InMemoryApiKeyStore.setEnabled]
      cases store.keysById[id']? with
      | none => exact h
      | some old => exact revoked_insert h fun heq => absurd heq hkept

theorem revoked_of_call (store : InMemoryApiKeyStore) {id : Text} {call : InMemoryApiKeyStore.Call}
    (hcall : call = .disable id ∨ call = .delete id) : Revoked (store.step call) id := by
  rcases hcall with rfl | rfl
  · intro key hkey
    simp only [InMemoryApiKeyStore.step, InMemoryApiKeyStore.Call.answer,
      InMemoryApiKeyStore.disable, InMemoryApiKeyStore.setEnabled] at hkey
    cases hold : store.keysById[id]? with
    | none =>
        rw [hold] at hkey
        cases hold.symm.trans hkey
    | some old =>
        rw [hold] at hkey
        replace hkey :
            (store.keysById.insert id { old with enabled := false })[id]? = some key := hkey
        rw [Relation.getElem?_insert, if_pos rfl] at hkey
        cases hkey
        rfl
  · intro key hkey
    cases (InMemoryApiKeyStore.keysById_delete store id).symm.trans hkey

/-- As `Vouched`, and more is known of an enabled key. -/
theorem Vouched.restrict {headers : HeaderMap} {g : Evidence jt Response} {P : StoredApiKey → Prop}
    (hlists : ∀ keyPrefix key, g.lists keyPrefix key → key.enabled = true → P key)
    {identity : Identity} (h : Vouched d headers g identity) :
    Vouched d headers { g with lists := fun keyPrefix key => g.lists keyPrefix key ∧ P key }
      identity := by
  cases h with
  | anonymous hnone => exact .anonymous hnone
  | explicit hmechanism hanswer => exact .explicit hmechanism hanswer
  | token hmechanism htoken hsize hheader hkid halg hkey hnow hclaims hidentity =>
      exact .token hmechanism htoken hsize hheader hkid halg hkey hnow hclaims hidentity
  | apiKey hmechanism hraw hformat hshown hlisted hverified henabled hnow hunexpired =>
      exact .apiKey hmechanism hraw hformat hshown ⟨hlisted, hlists _ _ hlisted henabled⟩ hverified
        henabled hnow hunexpired

theorem Revoked.event (hrun : FrontRun d w s₀ tr cfg) (hev : ev ∈ tr) {id : Text}
    (h : Revoked ev.pre.store id)
    (hkept : ∀ i call r, ev.label = .act i (.manage call) r → ¬ Restores id call) :
    Revoked ev.post.store id := by
  rcases hrun.event_cases hev with ⟨q, -, hpost⟩ | ⟨i, e, r, hlabel, hsem⟩ | ⟨-, henv⟩
  · rw [hpost]
    exact h
  · rw [(Server.stepped hsem).store]
    cases e with
    | recordUsage id' => exact h.step fun hrestores => hrestores
    | manage call => exact h.step (hkept i call r hlabel)
    | _ => exact h
  · generalize ev.post = s' at henv ⊢
    cases henv <;> exact h

/-- A key that was disabled or deleted, and not restored since, vouches for no request that looks
its key up later: whoever such a request is served as, another key or another mechanism vouches. -/
theorem revoked_key_refused (d : Deployment jt) (w : Surroundings) (config : RateLimitConfig)
    (keys : List StoredApiKey) (clock : Nat) (wall : Int)
    (tr₁ tr₂ tr₃ : List (FrontEvent jt Response)) (revoke ev : FrontEvent jt Response)
    (cfg : FrontConfig jt Response)
    (hrun : FrontRun d w (.start config keys clock wall) (tr₁ ++ revoke :: tr₂ ++ ev :: tr₃) cfg)
    (id : Text) (j : Nat) (call : InMemoryApiKeyStore.Call) (answer : Except Text Unit)
    (hrevoke : revoke.label = .act j (.manage call) answer)
    (hcall : call = .disable id ∨ call = .delete id)
    (hkept : ∀ ev' ∈ tr₂, ∀ k call' r, ev'.label = .act k (.manage call') r → ¬ Restores id call')
    (i : Nat) (hlater : ∀ keyPrefix candidates s, ¬ Did tr₁ i (.getByPrefix keyPrefix) candidates s)
    (identity : Identity) (facts : Facts) (response : Response)
    (hlabel : ev.label = .act i (.next identity facts) response) :
    ∃ incoming rest, cfg.calls[i]? = some ⟨.http incoming, rest⟩ ∧
      Vouched d incoming.passed
        { heldBy (tr₁ ++ revoke :: tr₂) i ev.pre with
          lists := fun keyPrefix key =>
            (heldBy (tr₁ ++ revoke :: tr₂) i ev.pre).lists keyPrefix key ∧ key.id ≠ id }
        identity := by
  obtain ⟨incoming, rest, hcfg, -, hpassed⟩ := FrontRun.passes hrun hlabel
  have hvouched :=
    vouched_of_run (published_start ..) (keyed_start config keys clock wall) hrun hpassed
  refine ⟨incoming, rest, hcfg, hvouched.restrict ?_⟩
  rintro keyPrefix key ⟨candidates, s, ⟨ev', hev', hlabel', rfl⟩, -, hstored⟩ henabled rfl
  obtain ⟨c₁, c₂, hrun₁, -, -, -⟩ := Run.reaches hrun
  have hpost : Revoked revoke.post.store key.id := by
    have hsem := hrun₁.effect (List.mem_append_right _ (List.mem_cons_self ..)) hrevoke
    rw [(Server.stepped hsem).store]
    exact revoked_of_call _ hcall
  have hmem : ∀ ev'' ∈ tr₂, ev'' ∈ tr₁ ++ revoke :: tr₂ := fun ev'' h =>
    List.mem_append_right _ (List.mem_cons_of_mem _ h)
  obtain ⟨-, hall⟩ := Run.since (K := fun s => Revoked s.store key.id) hrun₁ hpost
    fun ev'' hev'' h => Revoked.event hrun₁ (hmem ev'' hev'') h (hkept ev'' hev'')
  rcases List.mem_append.mp hev' with hold | hnew
  · exact hlater keyPrefix candidates ev'.pre ⟨ev', hold, hlabel', rfl⟩
  · rcases List.mem_cons.mp hnew with rfl | hnew
    · rw [hlabel'] at hrevoke
      cases hrevoke
    · have hdisabled := hall ev' hnew key hstored
      rw [henabled] at hdisabled
      cases hdisabled

end

def manages (ev : FrontEvent Jsonwebtoken.plain Text) : Bool :=
  match ev.label with
  | .act _ (.manage _) _ => true
  | _ => false

/-- One key is disabled, and a request is served with the other. -/
def revokedRun : List (FrontEvent Jsonwebtoken.plain Text) × FrontConfig Jsonwebtoken.plain Text :=
  frontRunOf (.start (.manage (.disable "ci".toList)) :: .step 0 ::
    .start (requestWith deployKeyText) :: List.replicate 9 (.step 1))

theorem revoked_key_refused_deploy :
    ∃ (ev : FrontEvent Jsonwebtoken.plain Text) (identity : Identity) (facts : Facts)
      (incoming : Incoming) (rest : Asking Jsonwebtoken.plain Text (Outcome Text)),
    ev.label = .act 1 (.next identity facts) "ok".toList ∧
      revokedRun.2.calls[1]? = some ⟨.http incoming, rest⟩ ∧
      Vouched keyDeployment incoming.passed
        { heldBy (revokedRun.1.take 11) 1 ev.pre with
          lists := fun keyPrefix key =>
            (heldBy (revokedRun.1.take 11) 1 ev.pre).lists keyPrefix key ∧ key.id ≠ "ci".toList }
        identity := by
  obtain ⟨first, revoke, ev, identity, facts, htr, htake, hstart, hrevoke, hlabel⟩ :
      ∃ (first revoke ev : FrontEvent Jsonwebtoken.plain Text) (identity : Identity)
          (facts : Facts),
        revokedRun.1 = [first] ++ revoke :: (revokedRun.1.take 11).drop 2 ++ [ev] ∧
        revokedRun.1.take 11 = [first] ++ revoke :: (revokedRun.1.take 11).drop 2 ∧
        first.label = .start (.manage (.disable "ci".toList)) ∧
        revoke.label = .act 0 (.manage (.disable "ci".toList)) (.ok ()) ∧
        ev.label = .act 1 (.next identity facts) "ok".toList := by
    with_unfolding_all exact ⟨_, _, _, _, _, rfl, rfl, rfl, rfl, rfl⟩
  have hothers : ((revokedRun.1.take 11).drop 2).all (fun ev => !manages ev) = true := by
    decide +kernel
  have hrun : FrontRun keyDeployment keySurroundings _ revokedRun.1 revokedRun.2 := frontRunOf_run _
  rw [htr] at hrun
  have hrefused := revoked_key_refused keyDeployment keySurroundings _ _ _ _ _ _ _ revoke ev _ hrun
    "ci".toList 0 _ _ hrevoke (.inl rfl) (fun ev' hev' k call' r hmanage => ?_) 1 ?_ identity facts
    _ hlabel
  · obtain ⟨incoming, rest, hcall, hvouched⟩ := hrefused
    rw [← htake] at hvouched
    exact ⟨ev, identity, facts, incoming, rest, hlabel, hcall, hvouched⟩
  · have hother := List.all_eq_true.mp hothers ev' hev'
    rw [manages, hmanage] at hother
    cases hother
  · rintro keyPrefix candidates s ⟨ev', hev', hlookup, -⟩
    rw [List.mem_singleton.mp hev', hstart] at hlookup
    cases hlookup

end Rustberg.Auth.Middleware
