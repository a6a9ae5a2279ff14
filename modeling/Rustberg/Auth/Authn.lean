import Rustberg.Auth.Bans
import Rustberg.Auth.ClientIp
import Rustberg.Auth.KeyStore
import Rustberg.Auth.SigningKeys
import Rustberg.Base.Layers

/-!
# Authenticators

Who a request is from: `auth/authn.rs`, and what it calls of
`auth/jwt_authn.rs` and `auth/error.rs`, as programs over the key store,
the identity provider's key sets and the clock. `chain` tries the
configured mechanisms in order and answers the last error that is not the
absence of a credential.
-/

namespace Rustberg

/-- `Display` -/
def AppError.display : AppError → Text
  | .unauthenticated => "Authentication required".toList
  | .invalidCredentials => "Invalid credentials".toList
  | .rateLimited => "Rate limit exceeded".toList
  | .noSuchNamespace name => "Namespace does not exist: ".toList ++ name
  | .noSuchTable name => "Table does not exist: ".toList ++ name
  | .noSuchView name => "View does not exist: ".toList ++ name
  | .noSuchReference name => "Reference does not exist: ".toList ++ name
  | .namespaceAlreadyExists name => "Namespace already exists: ".toList ++ name
  | .tableAlreadyExists name => "Table already exists: ".toList ++ name
  | .viewAlreadyExists name => "View already exists: ".toList ++ name
  | .namespaceNotEmpty name => "Namespace not empty: ".toList ++ name
  | .internal message => "Internal server error: ".toList ++ message
  | .storageError message => "Storage error: ".toList ++ message
  | .serviceUnavailable message => "Service unavailable: ".toList ++ message
  | .badRequest message | .forbidden message | .noSuchSnapshot message | .noSuchPlan message
  | .noSuchPlanTask message | .notSupported message | .commitConflict message
  | .«protected» message | .unprocessableEntity message => message

namespace Auth

/-- A key that has run out at `now`. -/
def StoredApiKey.isExpired (key : StoredApiKey) (now : Int) : Bool := key.expiresAt.any (· < now)

namespace Middleware

open Process Net V1

/-! ## Errors -/

inductive AuthError where
  | unauthenticated
  | invalidCredentials (message : Text)
  | tokenExpired
  | malformedToken (message : Text)
  | forbidden (message : Text)
  | resourceNotFound (message : Text)
  | apiKeyNotFound
  | apiKeyDisabled
  | expiredCredentials
  | rateLimitExceeded
  | storageError (message : Text)
  | external (message : Text)
  | invalidToken (message : Text)
  | configuration (message : Text)
  | internal (message : Text)
  deriving DecidableEq

namespace AuthError

/-- As a lookup of a signing key raises it. -/
def ofLookup : Auth.AuthError → AuthError
  | .external message => .external message
  | .invalidToken message => .invalidToken message

def statusCode : AuthError → Nat
  | .unauthenticated | .invalidCredentials _ | .tokenExpired | .malformedToken _ | .apiKeyNotFound
  | .apiKeyDisabled | .expiredCredentials | .invalidToken _ => 401
  | .forbidden _ => 403
  | .resourceNotFound _ => 404
  | .rateLimitExceeded => 429
  | .storageError _ | .external _ | .configuration _ | .internal _ => 500

/-- A credential was presented, and did not verify. -/
def credentialWasRejected : AuthError → Bool
  | .invalidCredentials _ | .invalidToken _ | .malformedToken _ | .tokenExpired
  | .expiredCredentials | .apiKeyNotFound | .apiKeyDisabled => true
  | .unauthenticated | .forbidden _ | .resourceNotFound _ | .rateLimitExceeded | .storageError _
  | .external _ | .configuration _ | .internal _ => false

def errorType : AuthError → Text
  | .unauthenticated | .invalidCredentials _ | .tokenExpired | .malformedToken _ | .apiKeyNotFound
  | .apiKeyDisabled | .expiredCredentials | .invalidToken _ => "NotAuthorizedException".toList
  | .forbidden _ => "ForbiddenException".toList
  | .resourceNotFound _ => "NotFoundException".toList
  | .rateLimitExceeded => "TooManyRequestsException".toList
  | .storageError _ | .external _ | .configuration _ | .internal _ => "InternalServerError".toList

def sanitizedMessage : AuthError → Text
  | .unauthenticated | .invalidCredentials _ | .tokenExpired | .malformedToken _ | .apiKeyNotFound
  | .apiKeyDisabled | .expiredCredentials | .invalidToken _ =>
      ("This request needs a valid credential: an `X-API-Key` header, or a bearer token this " ++
        "catalog's identity provider issued. The server log and the audit trail name which " ++
        "check failed.").toList
  | .rateLimitExceeded => "Rate limit exceeded".toList
  | .forbidden _ => "Access denied".toList
  | .resourceNotFound _ => "Resource not found".toList
  | .storageError _ | .external _ | .configuration _ | .internal _ =>
      "An internal error occurred. Check the server log for the cause.".toList

/-- `Display`: what the audit record says. -/
def display : AuthError → Text
  | .unauthenticated => "Authentication required".toList
  | .invalidCredentials message => "Invalid credentials: ".toList ++ message
  | .tokenExpired => "Token expired".toList
  | .malformedToken message => "Malformed token: ".toList ++ message
  | .forbidden message => "Access denied: ".toList ++ message
  | .resourceNotFound message => "Resource not found: ".toList ++ message
  | .apiKeyNotFound => "API key not found or revoked".toList
  | .apiKeyDisabled => "API key is disabled".toList
  | .expiredCredentials => "Credentials expired".toList
  | .rateLimitExceeded => "Rate limit exceeded".toList
  | .storageError message => "Storage error: ".toList ++ message
  | .external message => "External service error: ".toList ++ message
  | .invalidToken message => "Invalid token: ".toList ++ message
  | .configuration message => "Configuration error: ".toList ++ message
  | .internal message => "Internal authentication error: ".toList ++ message

end AuthError

/-- What a caller is answered: the body, and the challenge of a `401`. -/
structure AuthErrorResponse where
  code : Nat
  message : Text
  errorType : Text
  wwwAuthenticate : Option Text
  deriving DecidableEq

/-- `WWW_AUTHENTICATE_CHALLENGE` -/
def challenge : Text := "Bearer realm=\"rustberg\"".toList

def AuthError.intoResponse (e : AuthError) : AuthErrorResponse where
  code := e.statusCode
  message := e.sanitizedMessage
  errorType := e.errorType
  wwwAuthenticate := if e.statusCode = 401 then some challenge else none

/-! ## Principals -/

inductive AuthMethod where
  | none
  | apiKey
  | bearer
  | internal
  | external
  deriving DecidableEq

/-- A principal as its builder makes it: how it is displayed, how it was
authenticated, and until when. A time is the number of its instant. -/
structure Identity extends Principal where
  name : Text
  expiresAt : Option Int
  authMethod : AuthMethod
  deriving DecidableEq

def Identity.isExpired (identity : Identity) (now : Int) : Bool := identity.expiresAt.any (· < now)

/-- `Principal::anonymous` -/
def Identity.anonymous : Identity where
  toPrincipal := .anonymous
  name := "Anonymous User".toList
  expiresAt := Option.none
  authMethod := .none

def keyToIdentity (key : StoredApiKey) : Identity where
  toPrincipal := keyToPrincipal key.toApiKey
  name := key.name
  expiresAt := key.expiresAt
  authMethod := .apiKey

/-- The request facts a handler's decisions and records read. -/
structure Facts where
  sourceIp : Option IpAddr
  requestId : Option Text
  deriving DecidableEq

/-! ## Records -/

inductive AuditOutcome where
  | success
  | denied
  | rateLimited
  deriving DecidableEq

inductive AuditAction where
  | authenticate
  | rateLimit
  deriving DecidableEq

structure AuthRecord where
  action : AuditAction
  outcome : AuditOutcome
  operation : Text
  principal : Option (Text × PrincipalType)
  tenantId : Option Text
  clientIp : Option IpAddr
  requestId : Option Text
  /-- The detail under `reason`. -/
  reason : Option Text
  deriving DecidableEq

namespace AuthRecord

/-- `AuditEvent::authentication`, with the request's facts. -/
def authentication (method : Text) (accepted : Bool) (facts : Facts) : AuthRecord where
  action := .authenticate
  outcome := if accepted then .success else .denied
  operation := method
  principal := none
  tenantId := none
  clientIp := facts.sourceIp
  requestId := facts.requestId
  reason := none

/-- `AuditEvent::rate_limit`, with the request's facts. -/
def rateLimit (scope : Text) (facts : Facts) : AuthRecord where
  action := .rateLimit
  outcome := .rateLimited
  operation := scope
  principal := none
  tenantId := none
  clientIp := facts.sourceIp
  requestId := facts.requestId
  reason := none

/-- `with_principal` and `with_tenant_id` -/
def withPrincipal (event : AuthRecord) (principal : Principal) : AuthRecord :=
  { event with
    principal := some (principal.id, principal.principalType)
    tenantId := some principal.tenantId }

def withReason (event : AuthRecord) (reason : Text) : AuthRecord :=
  { event with reason := some reason }

end AuthRecord

/-! ## What authenticating asks for -/

/-- One atomic step: on the clock, the key store, the caches of signing keys,
the limiter or the trail, or a call into code that is handed in. -/
inductive Ask (jt : Jsonwebtoken) (Response : Type) where
  /-- `Utc::now` -/
  | utcNow
  | getByPrefix (keyPrefix : Text)
  | recordUsage (id : Text)
  | keys (access : Access jt)
  /-- The authenticator a host supplies. -/
  | explicit (headers : HeaderMap)
  | checkIpLimit (ip : IpAddr)
  | checkTenantLimit (tenantId : Text)
  | peekIpLimit (ip : IpAddr)
  | recordAuthSuccess (ip : IpAddr)
  | recordAuthFailure (ip : IpAddr)
  /-- `Auditor::record_lossy` -/
  | record (event : AuthRecord)
  /-- The rest of the stack. -/
  | next (identity : Identity) (facts : Facts)
  /-- A call a host makes on the key store. -/
  | manage (call : InMemoryApiKeyStore.Call)

variable {jt : Jsonwebtoken} {Response : Type}

abbrev Ask.Answer : Ask jt Response → Type
  | .utcNow => Int
  | .getByPrefix _ => List StoredApiKey
  | .recordUsage _ => Except Text Unit
  | .keys access => access.Answer
  | .explicit _ => Except AuthError Identity
  | .checkIpLimit _ => Except RateLimitExceeded RateLimitInfo
  | .checkTenantLimit _ => Except RateLimitExceeded RateLimitInfo
  | .peekIpLimit _ => Option RateLimitInfo
  | .recordAuthSuccess _ => Unit
  -- Nothing, where the deadline of a ban panics.
  | .recordAuthFailure _ => Option Unit
  | .record _ => Unit
  | .next .. => Response
  | .manage _ => Except Text Unit

abbrev Asking (jt : Jsonwebtoken) (Response α : Type) : Type := Prog (Ask jt Response) Ask.Answer α

abbrev Authn (jt : Jsonwebtoken) (Response α : Type) : Type :=
  ExceptT AuthError (Prog (Ask jt Response) Ask.Answer) α

def ask (e : Ask jt Response) : Authn jt Response e.Answer :=
  ExceptT.mk (.perform e fun r => .done (.ok r))

def ofExcept {ε α : Type} (x : Except ε α) (f : ε → AuthError) : Authn jt Response α :=
  ExceptT.mk (.done (x.mapError f))

def ofOption {α : Type} (x : Option α) (e : AuthError) : Authn jt Response α :=
  ExceptT.mk (.done (match x with
    | some a => .ok a
    | none => .error e))

/-- An early return. -/
def refuseIf (refused : Bool) (e : AuthError) : Authn jt Response Unit :=
  ExceptT.mk (.done (if refused then .error e else .ok ()))

/-! ## Headers -/

def apiKeyHeader : Text := "x-api-key".toList

def authorizationHeader : Text := "authorization".toList

/-- The first value of a header, where it is text. -/
def headerText (headers : HeaderMap) (name : Text) : Option Text :=
  (headers.lookup name).bind headerStr

/-- What follows the scheme, where it is `Bearer`. -/
def bearer (value : Text) : Option Text :=
  (Text.splitOnce ' ' value).bind fun (scheme, token) =>
    if Text.toAsciiLowercase scheme = "bearer".toList then some token.trim else none

def extractKey (headers : HeaderMap) : Option Text :=
  (headerText headers apiKeyHeader).or ((headerText headers authorizationHeader).bind bearer)

def extractToken (headers : HeaderMap) : Option Text :=
  ((headerText headers authorizationHeader).bind bearer).filter (· ≠ [])

/-! ## API keys -/

/-- `KEY_PREFIX_LEN` -/
def keyPrefixLen : Nat := 8

def extractKeyPrefix (key : Text) : Option Text :=
  (Text.stripPrefix key apiKeyPrefix).bind fun material =>
    if keyPrefixLen ≤ material.len then some (material.take keyPrefixLen) else none

def hashApiKey (sha256 : List UInt8 → List UInt8) (key : Text) : Text :=
  "sha256:".toList ++ Hex.digits (sha256 (Utf8.bytes key))

def verifyApiKey (sha256 : List UInt8 → List UInt8) (key hash : Text) : Bool :=
  hashApiKey sha256 key == hash

/-! ## Tokens -/

/-- `jsonwebtoken::Algorithm` -/
inductive Algorithm where
  | HS256
  | HS384
  | HS512
  | ES256
  | ES384
  | RS256
  | RS384
  | RS512
  | PS256
  | PS384
  | PS512
  | EdDSA
  deriving DecidableEq, Repr

/-- `Debug` -/
def Algorithm.debug : Algorithm → Text
  | .HS256 => "HS256".toList
  | .HS384 => "HS384".toList
  | .HS512 => "HS512".toList
  | .ES256 => "ES256".toList
  | .ES384 => "ES384".toList
  | .RS256 => "RS256".toList
  | .RS384 => "RS384".toList
  | .RS512 => "RS512".toList
  | .PS256 => "PS256".toList
  | .PS384 => "PS384".toList
  | .PS512 => "PS512".toList
  | .EdDSA => "EdDSA".toList

structure TokenHeader where
  alg : Algorithm
  kid : Option Text

/-- `jsonwebtoken::Validation`, the fields that are set. -/
structure Validation where
  algorithms : List Algorithm
  issuer : Text
  audiences : List Text
  requiredSpecClaims : List Text
  validateNbf : Bool

/-- What the `jsonwebtoken` crate makes of a token. -/
structure Tokens (jt : Jsonwebtoken) where
  decodeHeader : Text → Except Text TokenHeader
  /-- `decode`, at a time. -/
  decode : Int → Text → jt.DecodingKey → Validation → Except Text Claims

structure JwtAuthenticator extends JwtConfig where
  issuer : Text
  audiences : List Text
  allowedAlgorithms : List Algorithm

def JwtAuthenticator.validation (a : JwtAuthenticator) : Validation where
  algorithms := a.allowedAlgorithms
  issuer := a.issuer
  audiences := a.audiences
  requiredSpecClaims := ["exp".toList, "iss".toList, "aud".toList, "sub".toList]
  validateNbf := true

/-- `MAX_TOKEN_SIZE` -/
def maxTokenSize : Nat := 16 * 1024

/-! ## Mechanisms -/

inductive Mechanism where
  | explicit
  | jwt (a : JwtAuthenticator)
  | apiKey

/-- What authenticating reads of a deployment. -/
structure Deployment (jt : Jsonwebtoken) where
  tokens : Tokens jt
  sha256 : List UInt8 → List UInt8
  unicode : UnicodeData
  remoteIp : RemoteIp
  mechanisms : List Mechanism

/-- The mechanisms that were configured, in the order they are tried. -/
def mechanisms (explicit : Bool) (jwtConfig : Option JwtAuthenticator) (apiKeys : Bool) :
    List Mechanism :=
  (if explicit then [.explicit] else []) ++ (jwtConfig.map .jwt).toList ++
    (if apiKeys then [.apiKey] else [])

def claimsToIdentity (u : UnicodeData) (a : JwtAuthenticator) (claims : Claims) :
    Except AppError Identity :=
  (claimsToPrincipal u a.toJwtConfig claims).map fun principal =>
    { toPrincipal := principal
      name := ((claims.stringAt "name".toList).or (claims.stringAt "email".toList)).getD claims.sub
      expiresAt := none
      authMethod := .bearer }

def getKey (kid : Text) : Authn jt Response jt.DecodingKey :=
  ExceptT.mk do
    let answer ← Prog.through (fun access => Prog.call (.keys access)) (getDecodingKey kid).run
    pure (answer.mapError AuthError.ofLookup)

def validateToken (tokens : Tokens jt) (a : JwtAuthenticator) (token : Text) :
    Authn jt Response Claims := do
  refuseIf (maxTokenSize < token.len) (.invalidToken
    ("Token exceeds maximum size of ".toList ++ Text.decimal maxTokenSize ++ " bytes".toList))
  let header ← ofExcept (tokens.decodeHeader token) fun e =>
    .invalidToken ("Failed to decode header: ".toList ++ e)
  let kid ← ofOption header.kid (.invalidToken "Missing key ID in token".toList)
  refuseIf (header.alg ∉ a.allowedAlgorithms) (.invalidToken
    ("Token is signed with ".toList ++ header.alg.debug ++
      ", which this catalog does not accept. Allowed: [".toList ++
      Text.join ", ".toList (a.allowedAlgorithms.map Algorithm.debug) ++ "].".toList))
  let key ← getKey kid
  let now ← ask .utcNow
  ofExcept (tokens.decode now token key a.validation) fun e =>
    .invalidToken ("Token validation failed: ".toList ++ e)

/-- `JwtAuthenticator::authenticate` -/
def JwtAuthenticator.authenticate (d : Deployment jt) (headers : HeaderMap)
    (a : JwtAuthenticator) : Authn jt Response Identity := do
  let token ← ofOption (extractToken headers) .unauthenticated
  let claims ← validateToken d.tokens a token
  ofExcept (claimsToIdentity d.unicode a claims) fun e => .invalidToken e.display

/-- `ApiKeyAuthenticator::authenticate` -/
def authenticateApiKey (d : Deployment jt) (headers : HeaderMap) : Authn jt Response Identity := do
  let rawKey ← ofOption (extractKey headers) .unauthenticated
  refuseIf (rawKey = []) (.invalidCredentials "Empty API key".toList)
  ofExcept (validateKeyFormat rawKey) .invalidCredentials
  let keyPrefix ← ofOption (extractKeyPrefix rawKey)
    (.invalidCredentials "Invalid key format".toList)
  let candidates ← ask (.getByPrefix keyPrefix)
  let key ← ofOption (candidates.find? fun key => verifyApiKey d.sha256 rawKey key.keyHash)
    .apiKeyNotFound
  refuseIf (!key.enabled) .apiKeyDisabled
  let now ← ask .utcNow
  refuseIf (key.isExpired now) .tokenExpired
  let _ ← ask (.recordUsage key.id)
  return keyToIdentity key

def Mechanism.authenticate (d : Deployment jt) (headers : HeaderMap) :
    Mechanism → Authn jt Response Identity
  | .explicit => do
      let answer ← ask (.explicit headers)
      ofExcept answer id
  | .jwt a => a.authenticate d headers
  | .apiKey => authenticateApiKey d headers

/-- `ChainAuthenticator::authenticate`, from the last error on. -/
def chain (d : Deployment jt) (headers : HeaderMap) :
    List Mechanism → AuthError → Authn jt Response Identity
  | [], lastError => throw lastError
  | mechanism :: rest, lastError => ExceptT.mk do
      match ← (mechanism.authenticate d headers).run with
      | .ok identity => pure (.ok identity)
      | .error .unauthenticated => (chain d headers rest lastError).run
      | .error e => (chain d headers rest e).run

/-- Nobody is asked for a credential where no mechanism was configured. -/
def Deployment.authenticate (d : Deployment jt) (headers : HeaderMap) :
    Authn jt Response Identity :=
  match d.mechanisms with
  | [] => pure .anonymous
  | [mechanism] => mechanism.authenticate d headers
  | mechanisms => chain d headers mechanisms .unauthenticated

/-- A mechanism alone is a chain of one. -/
theorem authenticate_eq_chain {d : Deployment jt} (headers : HeaderMap) (h : d.mechanisms ≠ []) :
    (d.authenticate headers : Authn jt Response Identity) =
      chain d headers d.mechanisms .unauthenticated := by
  rw [Deployment.authenticate]
  split
  next hnone => exact absurd hnone h
  next mechanism hone =>
    rw [hone]
    refine (Prog.bind_done (mechanism.authenticate d headers).run).symm.trans ?_
    refine congrArg (Prog.bind _) (funext fun r => ?_)
    rcases r with e | identity
    · cases e <;> rfl
    · rfl
  next => rfl

/-! ## What a principal rests on -/

abbrev Asked (jt : Jsonwebtoken) (Response : Type) := Prog.History (Ask jt Response) Ask.Answer

/-- What an authenticator may go by: the answers seen, the keys signed with
under a key id, and the keys listed under a prefix. -/
structure Evidence (jt : Jsonwebtoken) (Response : Type) where
  saw : (e : Ask jt Response) → e.Answer → Prop
  signs : Text → jt.DecodingKey → Prop
  lists : Text → StoredApiKey → Prop

/-- Less is gone by. -/
structure Evidence.Within (g g' : Evidence jt Response) : Prop where
  saw : ∀ e r, g.saw e r → g'.saw e r
  signs : ∀ kid key, g.signs kid key → g'.signs kid key
  lists : ∀ keyPrefix key, g.lists keyPrefix key → g'.lists keyPrefix key

/-- A principal that a configured mechanism vouches for: a host's own, the
subject of a token of the provider that has verified, or the holder of a
listed key that is enabled and has not run out. -/
inductive Vouched (d : Deployment jt) (headers : HeaderMap) (g : Evidence jt Response) :
    Identity → Prop
  | anonymous (hnone : d.mechanisms = []) : Vouched d headers g .anonymous
  | explicit {identity : Identity} (hmechanism : .explicit ∈ d.mechanisms)
      (hanswer : g.saw (.explicit headers) (.ok identity)) : Vouched d headers g identity
  | token {a : JwtAuthenticator} {token kid : Text} {header : TokenHeader} {key : jt.DecodingKey}
      {now : Int} {claims : Claims} {identity : Identity} (hmechanism : .jwt a ∈ d.mechanisms)
      (htoken : extractToken headers = some token) (hsize : token.len ≤ maxTokenSize)
      (hheader : d.tokens.decodeHeader token = .ok header) (hkid : header.kid = some kid)
      (halg : header.alg ∈ a.allowedAlgorithms) (hkey : g.signs kid key) (hnow : g.saw .utcNow now)
      (hclaims : d.tokens.decode now token key a.validation = .ok claims)
      (hidentity : claimsToIdentity d.unicode a claims = .ok identity) :
      Vouched d headers g identity
  | apiKey {rawKey keyPrefix : Text} {key : StoredApiKey} {now : Int}
      (hmechanism : .apiKey ∈ d.mechanisms) (hraw : extractKey headers = some rawKey)
      (hformat : validateKeyFormat rawKey = .ok ())
      (hshown : extractKeyPrefix rawKey = some keyPrefix) (hlisted : g.lists keyPrefix key)
      (hverified : verifyApiKey d.sha256 rawKey key.keyHash = true)
      (henabled : key.enabled = true) (hnow : g.saw .utcNow now)
      (hunexpired : key.isExpired now = false) : Vouched d headers g (keyToIdentity key)

theorem Vouched.mono {d : Deployment jt} {headers : HeaderMap} {g g' : Evidence jt Response}
    (hle : g.Within g') {identity : Identity} (h : Vouched d headers g identity) :
    Vouched d headers g' identity := by
  cases h with
  | anonymous hnone => exact .anonymous hnone
  | explicit hmechanism hanswer => exact .explicit hmechanism (hle.saw _ _ hanswer)
  | token hmechanism htoken hsize hheader hkid halg hkey hnow hclaims hidentity =>
      exact .token hmechanism htoken hsize hheader hkid halg (hle.signs _ _ hkey)
        (hle.saw _ _ hnow) hclaims hidentity
  | apiKey hmechanism hraw hformat hshown hlisted hverified henabled hnow hunexpired =>
      exact .apiKey hmechanism hraw hformat hshown (hle.lists _ _ hlisted) hverified henabled
        (hle.saw _ _ hnow) hunexpired

/-- A key set that was seen: as the provider answered it, or as it was cached. -/
def SawJwks (h : Asked jt Response) (jwks : Jwks) : Prop :=
  ⟨.keys .fetch, .ok jwks⟩ ∈ h ∨ ⟨.keys .cachedJwks, some jwks⟩ ∈ h

/-- A decoding key that was seen, or selected from a key set that was. -/
def SawKey (h : Asked jt Response) (kid : Text) (key : jt.DecodingKey) : Prop :=
  ⟨.keys (.cachedKey kid), some key⟩ ∈ h ∨ ∃ jwks, SawJwks h jwks ∧ jwks.select jt kid = .ok key

/-- What a request has seen itself. -/
def Asked.evidence (h : Asked jt Response) : Evidence jt Response where
  saw e r := ⟨e, r⟩ ∈ h
  signs := SawKey h
  lists keyPrefix key := ∃ candidates, ⟨.getByPrefix keyPrefix, candidates⟩ ∈ h ∧ key ∈ candidates

theorem SawJwks.append {h : Asked jt Response} {jwks : Jwks} (hsaw : SawJwks h jwks)
    (h' : Asked jt Response) : SawJwks (h ++ h') jwks :=
  hsaw.imp (List.mem_append_left _) (List.mem_append_left _)

theorem Asked.evidence_append (h h' : Asked jt Response) :
    (h : Asked jt Response).evidence.Within (Asked.evidence (h ++ h')) where
  saw _ _ hmem := List.mem_append_left _ hmem
  signs _ _ hsigns := by
    rcases hsigns with hcached | ⟨jwks, hsaw, hselect⟩
    · exact .inl (List.mem_append_left _ hcached)
    · exact .inr ⟨jwks, hsaw.append h', hselect⟩
  lists _ _ hlisted := hlisted.imp fun _ hfound => ⟨List.mem_append_left _ hfound.1, hfound.2⟩

/-! ## What authenticating goes through -/

/-- What an authenticator asks for, given what the request has seen. -/
def Consults (h : Asked jt Response) : Ask jt Response → Prop
  | .keys (.store jwks) => ⟨.keys .fetch, .ok jwks⟩ ∈ h
  | .keys (.remember kid key) => ∃ jwks, SawJwks h jwks ∧ jwks.select jt kid = .ok key
  | .utcNow | .getByPrefix _ | .recordUsage _ | .explicit _ | .keys _ => True
  | _ => False

theorem Consults.shift {h : Asked jt Response} {e : Ask jt Response} (he : Consults h e)
    (h₀ : Asked jt Response) : Consults (h₀ ++ h) e := by
  cases e with
  | keys access =>
      cases access with
      | store jwks => exact List.mem_append_right _ he
      | remember kid key =>
          obtain ⟨jwks, hsaw, hselect⟩ := he
          exact ⟨jwks, hsaw.imp (List.mem_append_right _) (List.mem_append_right _), hselect⟩
      | _ => trivial
  | _ => exact he

/-- A key set in hand was fetched, or found cached. -/
theorem mem_of_inHand {h : Seen jt} {jwks : Jwks} {stored : Bool}
    (hheld : inHand h = some (jwks, stored)) :
    ⟨.fetch, .ok jwks⟩ ∈ h ∨ ⟨.cachedJwks, some jwks⟩ ∈ h ∧ stored = true := by
  induction h using List.reverseRecOn generalizing stored with
  | nil => cases hheld
  | append_singleton h x ih =>
      rw [inHand_snoc] at hheld
      have hkept : ∀ {stored : Bool}, inHand h = some (jwks, stored) →
          ⟨.fetch, .ok jwks⟩ ∈ h ++ [x] ∨ ⟨.cachedJwks, some jwks⟩ ∈ h ++ [x] ∧ stored = true :=
        fun hprior =>
          (ih hprior).imp (List.mem_append_left _) (And.imp_left (List.mem_append_left _))
      obtain ⟨access, r⟩ := x
      cases access with
      | cachedKey kid | purge | mayRefetch | remember kid key => exact hkept hheld
      | cachedJwks =>
          cases r with
          | none => exact hkept hheld
          | some found =>
              cases hheld
              exact .inr ⟨List.mem_append_right _ (List.mem_singleton_self _), rfl⟩
      | fetch =>
          cases r with
          | error e => cases hheld
          | ok fetched =>
              cases hheld
              exact .inl (List.mem_append_right _ (List.mem_singleton_self _))
      | store jwks' =>
          obtain ⟨⟨held, stored'⟩, hprior, heq⟩ := Option.map_eq_some_iff.mp hheld
          cases heq
          exact (hkept hprior).imp_right fun hfound => ⟨hfound.1, rfl⟩

/-- A key that is answered was cached, or selected from a key set in hand. -/
theorem getDecodingKey_saw (kid : Text) :
    Prog.Traced (KeyIssues kid) (fun h r => ∀ key, r = .ok key →
        ⟨.cachedKey kid, some key⟩ ∈ h ∨
          ∃ jwks h', inHand h' = some (jwks, true) ∧ h' <+: h ∧ jwks.select jt kid = .ok key) []
      (getDecodingKey kid : Lookup jt jt.DecodingKey).run := by
  refine Prog.Traced.mono (getDecodingKey_traced kid).followed (fun _ _ hP => hP) ?_
  rintro h r ⟨hanswers, h₁, rfl, hfollows⟩ key hr
  rcases hanswers key hr with hcached | ⟨h', hremember⟩
  · exact .inl (by rw [hcached]; exact List.mem_singleton_self _)
  · subst hremember
    obtain ⟨-, jwks, hheld, hselect⟩ := (getDecodingKey_traced kid).issued hfollows
    exact .inr ⟨jwks, h', hheld, List.prefix_append .., hselect⟩

/-- The accesses of a lookup, as the request performs them. -/
theorem carries_keys {h : Seen jt} {h' : Asked jt Response}
    (hc : Prog.Carries (fun access => Prog.call (.keys access)) h h') :
    h' = h.map fun x => ⟨.keys x.1, x.2⟩ := by
  induction hc with
  | nil => rfl
  | @snoc h h' h₁ e r hc hf ih =>
      cases h₁ with
      | nil => cases hf
      | cons x h₁ =>
          obtain ⟨r', rfl, hdone⟩ := hf
          obtain ⟨rfl, hr⟩ := Prog.follows_done.mp hdone
          cases hr
          rw [ih, List.map_append]
          rfl

theorem sawJwks_of_inHand {h h' : Seen jt} {jwks : Jwks} {stored : Bool}
    (hheld : inHand h = some (jwks, stored)) (hle : h <+: h') :
    SawJwks (h'.map fun x => (⟨.keys x.1, x.2⟩ : Σ e : Ask jt Response, e.Answer)) jwks := by
  have hmem : ∀ {x : Σ e : Access jt, e.Answer}, x ∈ h →
      (⟨.keys x.1, x.2⟩ : Σ e : Ask jt Response, e.Answer) ∈ h'.map fun x => ⟨.keys x.1, x.2⟩ :=
    fun hx => List.mem_map_of_mem (hle.subset hx)
  exact (mem_of_inHand hheld).imp hmem fun hfound => hmem hfound.1

theorem getKey_traced (kid : Text) (h : Asked jt Response) :
    Prog.Traced Consults (fun h' r => ∀ key, r = .ok key → SawKey h' kid key) h
      (getKey kid : Authn jt Response jt.DecodingKey).run := by
  have hcarried : Prog.Traced Consults (fun h' r => ∀ key, r = .ok key → SawKey h' kid key)
      ([] : Asked jt Response)
      (Prog.through (fun access => Prog.call (.keys access)) (getDecodingKey kid).run) := by
    refine Prog.Traced.through (getDecodingKey_saw kid) .nil ?_ ?_
    · intro seen h' access hc hissues
      rw [carries_keys hc]
      refine ⟨?_, fun _ => trivial⟩
      cases access with
      | store jwks =>
          rcases mem_of_inHand hissues with hfetched | ⟨-, hstored⟩
          · exact List.mem_map_of_mem hfetched
          · cases hstored
      | remember kid' key =>
          obtain ⟨rfl, jwks, hheld, hselect⟩ := hissues
          exact ⟨jwks, sawJwks_of_inHand hheld List.prefix_rfl, hselect⟩
      | _ => trivial
    · intro seen h' r hc hsaw key hr
      rw [carries_keys hc]
      rcases hsaw key hr with hcached | ⟨jwks, earlier, hheld, hle, hselect⟩
      · exact .inl (List.mem_map_of_mem hcached)
      · exact .inr ⟨jwks, sawJwks_of_inHand hheld hle, hselect⟩
  have hshifted :
      Prog.Traced Consults (fun h' r => ∀ key, r = .ok key → SawKey h' kid key) (h ++ [])
      (Prog.through (fun access => Prog.call (.keys access)) (getDecodingKey kid).run) := by
    refine Prog.Traced.shift h hcarried (fun h' e he => he.shift h) fun h' r hsaw key hr => ?_
    rcases hsaw key hr with hcached | ⟨jwks, hjwks, hselect⟩
    · exact .inl (List.mem_append_right _ hcached)
    · exact .inr ⟨jwks, hjwks.imp (List.mem_append_right _) (List.mem_append_right _), hselect⟩
  rw [List.append_nil] at hshifted
  refine Prog.Traced.bind hshifted fun h' r hsaw key hr => ?_
  exact hsaw key (Except.mapError_eq_ok.mp hr)

/-! ## Rules for authenticators -/

section

variable {α β ε : Type}

/-- What holds of what an authenticator finds. -/
def Finds (Q : Asked jt Response → α → Prop) (h : Asked jt Response) (r : Except AuthError α) :
    Prop :=
  ∀ a, r = .ok a → Q h a

variable {P : Asked jt Response → Ask jt Response → Prop} {Q : Asked jt Response → β → Prop}
  {h : Asked jt Response} {f : α → Authn jt Response β}

theorem Finds.bind {Q₁ : Asked jt Response → α → Prop} {p : Authn jt Response α}
    (hp : Prog.Traced P (Finds Q₁) h p.run)
    (hf : ∀ h' a, h <+: h' → Q₁ h' a → Prog.Traced P (Finds Q) h' (f a).run) :
    Prog.Traced P (Finds Q) h (p >>= f).run :=
  Prog.Traced.bind_except hp.extends (fun _ _ _ _ hok => by cases hok) fun h' a hQ =>
    hf h' a hQ.1 (hQ.2 a rfl)

theorem Finds.asked {e : Ask jt Response} {f : e.Answer → Authn jt Response β} (he : P h e)
    (hf : ∀ r, Prog.Traced P (Finds Q) (h ++ [⟨e, r⟩]) (f r).run) :
    Prog.Traced P (Finds Q) h (ask e >>= f).run := ⟨he, hf⟩

theorem Finds.checked {x : Except ε α} {g : ε → AuthError}
    (hf : ∀ a, x = .ok a → Prog.Traced P (Finds Q) h (f a).run) :
    Prog.Traced P (Finds Q) h (ofExcept x g >>= f).run := by
  cases x with
  | ok a => exact hf a rfl
  | error e => exact fun b hok => by cases hok

theorem Finds.present {x : Option α} {e : AuthError}
    (hf : ∀ a, x = some a → Prog.Traced P (Finds Q) h (f a).run) :
    Prog.Traced P (Finds Q) h (ofOption x e >>= f).run := by
  cases x with
  | some a => exact hf a rfl
  | none => exact fun b hok => by cases hok

theorem Finds.unless {refused : Bool} {e : AuthError} {f : Unit → Authn jt Response β}
    (hf : refused = false → Prog.Traced P (Finds Q) h (f ()).run) :
    Prog.Traced P (Finds Q) h (refuseIf refused e >>= f).run := by
  cases refused with
  | false => exact hf rfl
  | true => exact fun b hok => by cases hok

/-- What holds of the errors an authenticator ends with. -/
def Fails (R : AuthError → Prop) (r : Except AuthError α) : Prop := ∀ e, r = .error e → R e

variable {R : AuthError → Prop}

theorem Fails.bind {p : Authn jt Response α} (hp : Prog.Meets (fun _ => True) (Fails R) p.run)
    (hf : ∀ a, Prog.Meets (fun _ => True) (Fails R) (f a).run) :
    Prog.Meets (fun _ => True) (Fails R) (p >>= f).run := by
  refine Prog.Meets.bind hp fun r hr => ?_
  cases r with
  | ok a => exact hf a
  | error e => exact fun e' he => by cases he; exact hr e rfl

theorem Fails.asked {e : Ask jt Response} {f : e.Answer → Authn jt Response β}
    (hf : ∀ r, Prog.Meets (fun _ => True) (Fails R) (f r).run) :
    Prog.Meets (fun _ => True) (Fails R) (ask e >>= f).run := ⟨trivial, hf⟩

theorem Fails.checked {x : Except ε α} {g : ε → AuthError} (hg : ∀ e, R (g e)) :
    Prog.Meets (fun _ => True) (Fails R) (ofExcept x g : Authn jt Response α).run := by
  cases x with
  | ok a => exact fun e he => by cases he
  | error e => exact fun e' he => by cases he; exact hg e

theorem Fails.present {x : Option α} {e : AuthError} (he : R e) :
    Prog.Meets (fun _ => True) (Fails R) (ofOption x e : Authn jt Response α).run := by
  cases x with
  | some a => exact fun e' he' => by cases he'
  | none => exact fun e' he' => by cases he'; exact he

theorem Fails.unless {refused : Bool} {e : AuthError} (he : R e) :
    Prog.Meets (fun _ => True) (Fails R) (refuseIf refused e : Authn jt Response Unit).run := by
  cases refused with
  | false => exact fun e' he' => by cases he'
  | true => exact fun e' he' => by cases he'; exact he

end

/-! ## Who is vouched for -/

section

variable {d : Deployment jt} {headers : HeaderMap}

theorem authenticateApiKey_traced (hmechanism : .apiKey ∈ d.mechanisms) (h : Asked jt Response) :
    Prog.Traced Consults (Finds fun h' => Vouched d headers h'.evidence) h
      (authenticateApiKey d headers : Authn jt Response Identity).run := by
  refine Finds.present fun rawKey hraw => Finds.unless fun _ => Finds.checked fun _ hformat =>
    Finds.present fun keyPrefix hshown => Finds.asked trivial fun candidates =>
      Finds.present fun key hfound => Finds.unless fun hdisabled => Finds.asked trivial fun now =>
        Finds.unless fun hunexpired => Finds.asked trivial fun used => ?_
  intro identity hidentity
  cases hidentity
  have hverified : verifyApiKey d.sha256 rawKey key.keyHash = true := by
    simpa using List.find?_some hfound
  have hread : ∀ h' : Asked jt Response, (⟨.utcNow, now⟩ : Σ e : Ask jt Response, e.Answer) ∈
      h' ++ [⟨.utcNow, now⟩] ++ [⟨.recordUsage key.id, used⟩] := by simp
  exact .apiKey hmechanism hraw hformat hshown
    ⟨candidates, by simp, List.mem_of_find?_eq_some hfound⟩ hverified (by simpa using hdisabled)
    (hread _) hunexpired

theorem validateToken_traced {a : JwtAuthenticator} {token : Text}
    (hmechanism : .jwt a ∈ d.mechanisms) (htoken : extractToken headers = some token)
    (h : Asked jt Response) :
    Prog.Traced Consults (Finds fun h' claims => ∀ identity,
        claimsToIdentity d.unicode a claims = .ok identity →
          Vouched d headers h'.evidence identity) h
      (validateToken d.tokens a token : Authn jt Response Claims).run := by
  refine Finds.unless fun hsize => Finds.checked fun header hheader =>
    Finds.present fun kid hkid => Finds.unless fun halg =>
      Finds.bind (getKey_traced kid h) fun h' key _ hkey => Finds.asked trivial fun now => ?_
  intro claims hclaims identity hidentity
  have hread : (⟨.utcNow, now⟩ : Σ e : Ask jt Response, e.Answer) ∈ h' ++ [⟨.utcNow, now⟩] :=
    List.mem_append_right _ (List.mem_singleton_self _)
  exact .token hmechanism htoken (by simpa using hsize) hheader hkid (by simpa using halg)
    ((Asked.evidence_append h' _).signs kid key hkey) hread (Except.mapError_eq_ok.mp hclaims)
    hidentity

theorem JwtAuthenticator.authenticate_traced {a : JwtAuthenticator}
    (hmechanism : .jwt a ∈ d.mechanisms) (h : Asked jt Response) :
    Prog.Traced Consults (Finds fun h' => Vouched d headers h'.evidence) h
      (a.authenticate d headers : Authn jt Response Identity).run := by
  refine Finds.present fun token htoken =>
    Finds.bind (validateToken_traced hmechanism htoken h) fun h' claims _ hvouched => ?_
  intro identity hidentity
  exact hvouched identity (Except.mapError_eq_ok.mp hidentity)

theorem Mechanism.authenticate_traced {mechanism : Mechanism}
    (hmechanism : mechanism ∈ d.mechanisms) (h : Asked jt Response) :
    Prog.Traced Consults (Finds fun h' => Vouched d headers h'.evidence) h
      (mechanism.authenticate d headers : Authn jt Response Identity).run := by
  cases mechanism with
  | explicit =>
      refine Finds.asked trivial fun answer identity hidentity => .explicit hmechanism ?_
      cases Except.mapError_eq_ok.mp hidentity
      show _ ∈ _
      simp
  | jwt a => exact a.authenticate_traced hmechanism h
  | apiKey => exact authenticateApiKey_traced hmechanism h

theorem chain_traced {rest : List Mechanism} (hrest : rest ⊆ d.mechanisms) (lastError : AuthError)
    (h : Asked jt Response) :
    Prog.Traced Consults (Finds fun h' => Vouched d headers h'.evidence) h
      (chain d headers rest lastError : Authn jt Response Identity).run := by
  induction rest generalizing lastError h with
  | nil => exact fun identity hidentity => by cases hidentity
  | cons mechanism rest ih =>
      obtain ⟨hmechanism, hrest⟩ := List.cons_subset.mp hrest
      refine Prog.Traced.bind (Mechanism.authenticate_traced hmechanism h) fun h' r hr => ?_
      cases r with
      | ok identity => exact fun identity' hidentity => by cases hidentity; exact hr identity rfl
      | error e => cases e <;> exact ih hrest _ h'

theorem authenticate_traced (h : Asked jt Response) :
    Prog.Traced Consults (Finds fun h' => Vouched d headers h'.evidence) h
      (d.authenticate headers : Authn jt Response Identity).run := by
  by_cases hnone : d.mechanisms = []
  · rw [Deployment.authenticate, hnone]
    exact fun identity hidentity => by cases hidentity; exact .anonymous hnone
  · rw [authenticate_eq_chain headers hnone]
    exact chain_traced (List.Subset.refl _) _ h

end

/-! ## Why a request is refused -/

section

variable {d : Deployment jt} {headers : HeaderMap}

/-- A request that carries no key is unauthenticated, any other is rejected. -/
def AsPresented (headers : HeaderMap) (e : AuthError) : Prop :=
  if extractKey headers = none then e = .unauthenticated else e.credentialWasRejected = true

theorem extractKey_of_token {token : Text} (h : extractToken headers = some token) :
    ∃ rawKey, extractKey headers = some rawKey := by
  obtain ⟨hbearer, -⟩ := Option.filter_eq_some_iff.mp h
  rw [extractKey, hbearer]
  cases headerText headers apiKeyHeader with
  | none => exact ⟨token, rfl⟩
  | some key => exact ⟨key, rfl⟩

theorem authenticateApiKey_fails :
    Prog.Meets (fun _ => True) (Fails (AsPresented headers))
      (authenticateApiKey d headers : Authn jt Response Identity).run := by
  rw [authenticateApiKey]
  cases hkey : extractKey headers with
  | none =>
      intro e he
      cases he
      rw [AsPresented, if_pos hkey]
  | some rawKey =>
      have hrejected : ∀ {e : AuthError},
          e.credentialWasRejected = true → AsPresented headers e := by
        intro e he
        rwa [AsPresented, if_neg (by rw [hkey]; exact Option.some_ne_none _)]
      have hsome : Prog.Meets (fun _ => True) (Fails (AsPresented headers))
          (ofOption (some rawKey) .unauthenticated : Authn jt Response Text).run :=
        fun e he => by cases he
      refine Fails.bind hsome fun _ => Fails.bind (Fails.unless (hrejected rfl)) fun _ =>
        Fails.bind (Fails.checked fun _ => hrejected rfl) fun _ =>
          Fails.bind (Fails.present (hrejected rfl)) fun keyPrefix => Fails.asked fun candidates =>
            Fails.bind (Fails.present (hrejected rfl)) fun key =>
              Fails.bind (Fails.unless (hrejected rfl)) fun _ => Fails.asked fun now =>
                Fails.bind (Fails.unless (hrejected rfl)) fun _ => Fails.asked fun used => ?_
      exact fun e he => by cases he

theorem JwtAuthenticator.authenticate_fails (a : JwtAuthenticator) :
    Prog.Meets (fun _ => True) (Fails fun e => extractToken headers = none → e = .unauthenticated)
      (a.authenticate d headers : Authn jt Response Identity).run := by
  rw [JwtAuthenticator.authenticate]
  cases htoken : extractToken headers with
  | none => exact fun e he _ => by cases he; rfl
  | some token => exact Prog.Meets.mono (Prog.Meets.all _) fun _ _ e _ hnone => by cases hnone

/-- With API keys configured, a request is refused for the key it carries or
the lack of one, whatever the identity provider answers. -/
theorem authenticate_fails {jwtConfig : Option JwtAuthenticator}
    (hmechanisms : d.mechanisms = mechanisms false jwtConfig true) :
    Prog.Meets (fun _ => True) (Fails (AsPresented headers))
      (d.authenticate headers : Authn jt Response Identity).run := by
  have hkeys : ∀ lastError, (extractKey headers = none → lastError = .unauthenticated) →
      Prog.Meets (fun _ => True) (Fails (AsPresented headers))
        (chain d headers [.apiKey] lastError : Authn jt Response Identity).run := by
    intro lastError hlast
    refine Prog.Meets.bind authenticateApiKey_fails fun r hr => ?_
    cases r with
    | ok identity => exact fun e he => by cases he
    | error e =>
        have he := hr e rfl
        cases e
        case unauthenticated =>
          intro e heq
          cases heq
          rw [AsPresented]
          by_cases hnone : extractKey headers = none
          · rw [if_pos hnone]
            exact hlast hnone
          · rw [AsPresented, if_neg hnone] at he
            cases he
        all_goals exact fun e' he' => by cases he'; exact he
  have hsome : d.mechanisms ≠ [] := by
    rw [hmechanisms]
    cases jwtConfig <;> exact List.cons_ne_nil _ _
  rw [authenticate_eq_chain headers hsome, hmechanisms]
  cases jwtConfig with
  | none => exact hkeys _ fun _ => rfl
  | some a =>
      refine Prog.Meets.bind (a.authenticate_fails) fun r hr => ?_
      cases r with
      | ok identity => exact fun e he => by cases he
      | error e =>
          have htoken : extractKey headers = none → e = .unauthenticated := by
            intro hnone
            refine hr e rfl (Option.eq_none_iff_forall_ne_some.mpr fun token hsome => ?_)
            obtain ⟨rawKey, hkey⟩ := extractKey_of_token hsome
            rw [hnone] at hkey
            cases hkey
          cases e <;> exact hkeys _ htoken

end

end Middleware

end Auth

end Rustberg
