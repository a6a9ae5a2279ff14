import Rustberg.Credentials.Providers
import Rustberg.V1.Addressing
import Rustberg.V1.Granted

/-!
# Signing storage requests

The sign endpoint (`catalog/v1/sign.rs`) and the SigV4 signer behind it
(`credentials/signer.rs`). A request that is signed has been resolved and
confined to its table, under a `Read` that carries no obligation
(`signRequest_traced`). What the signature covers besides the URI is what the
client says it will send: its `Host` header among the rest
(`signed_host_exact`).
-/

namespace Rustberg.V1

open Process Auth Api

variable {ib : Iceberg} {d : Crates ib}

/-! ## The signer -/

structure SignRequest where
  method : Text
  uri : Text
  region : Text
  headers : HeaderMultiMap
  body : Option Text

structure SignedRequest where
  uri : Text
  headers : HeaderMultiMap

inductive SigningError where
  | notConfigured
  | unsignable (reason : Text)
  | failed (reason : Text)

/-- `aws_sigv4::http_request::SignableRequest`; no body is an unsigned payload. -/
structure SignableRequest where
  method : Text
  uri : Text
  headers : List (Text × Text)
  body : Option Text

/-- The credential chain and `aws_sigv4`. -/
structure AwsSigV4 where
  Params : Type
  /-- Signing parameters, under the server's own credentials. -/
  params : (region : Text) → Except Text Params
  /-- `SignableRequest::new` -/
  signable : SignableRequest → Except Text Unit
  /-- The headers to add. -/
  sign : SignableRequest → Params → Except Text (List (Text × Text))

/-- `UNSIGNED_HEADERS` -/
def unsignedHeaders : List String :=
  ["range", "x-amz-date", "amz-sdk-invocation-id", "amz-sdk-retry", "authorization",
    "x-amz-content-sha256", "x-amz-security-token"]

def signedHeaders (headers : HeaderMultiMap) : List (Text × Text) :=
  (headers.filter fun header =>
      Text.toAsciiLowercase header.1 ∉ unsignedHeaders.map String.toList).flatMap fun header =>
    header.2.map fun value => (header.1, value)

def SignRequest.signable (request : SignRequest) : SignableRequest :=
  ⟨request.method, request.uri, signedHeaders request.headers, request.body⟩

/-- `impl RequestSigner for AwsSigV4Signer` -/
def AwsSigV4.signRequest (aws : AwsSigV4) (request : SignRequest) :
    Except SigningError SignedRequest := do
  let params ← (aws.params request.region).mapError .failed
  (aws.signable request.signable).mapError .unsignable
  let headers ← (aws.sign request.signable params).mapError .failed
  return ⟨request.uri, headers.map fun header => (header.1, [header.2])⟩

/-! ## The endpoint -/

/-- What the endpoint is configured with. -/
structure Signing where
  config : SigningEndpointConfig
  /-- `Url::parse` -/
  parse : Text → Except Text Url
  allowedPrefixes : List Text
  /-- The signer's answer. -/
  sign : SignRequest → Except SigningError SignedRequest

structure RemoteSignResponse where
  uri : Text
  headers : HeaderMultiMap
  cacheControl : Text
  deriving DecidableEq

/-- `MAX_BODY`, in bytes. -/
def maxBody : Nat := 64 * 1024

def SignedOp.verb : SignedOp → Text
  | .read => "read".toList
  | .write => "write".toList

/-- Locations named individually before the record falls back to a count. -/
def namedLocations : Nat := 8

def signEvent (authorized : Authorized) (operation : SignedOp) (addressed : Addressed)
    (allowed : Bool) : SignEvent where
  operation := operation.verb
  resource := authorized.context.resource.path
  allowed := allowed
  principalId := authorized.context.principal.id
  tenantId := authorized.context.principal.tenantId
  clientIp := authorized.context.request.sourceIp
  requestId := authorized.context.request.requestId
  locations :=
    if namedLocations < addressed.locations.length then
      Text.join [' '] (addressed.locations.take namedLocations) ++ " (and ".toList ++
        Text.decimal (addressed.locations.length - namedLocations) ++ " more)".toList
    else Text.join [' '] addressed.locations
  locationCount := Text.decimal addressed.locations.length

/-- Only a minted write signature fails when it cannot be recorded. -/
def recordSignature (app : AppState) (authorized : Authorized) (operation : SignedOp)
    (addressed : Addressed) (allowed : Bool) : Served d Unit := do
  let event := .requestSign (signEvent authorized operation addressed allowed)
  if operation = .write ∧ allowed = true then
    match ← app.record event with
    | .ok () => return ()
    | .error _ => check (.error (.serviceUnavailable
        "The audit trail is unavailable, so no signature was issued.".toList))
  else AppState.recordLossy event

/-- A refusal, recorded with what was refused. -/
def refuseSignature {α : Type} (app : AppState) (authorized : Authorized) (operation : SignedOp)
    (addressed : Addressed) (error : AppError) : Served d α := do
  recordSignature app authorized operation addressed false
  check (.error error)

def Signing.checkRequest (app : AppState) (payload : RemoteSignRequest) : Except AppError Unit :=
  if !app.signingEnabled then
    .error (.notSupported ("This catalog does not offer remote signing. Request " ++
      "`vended-credentials` instead, or configure [credentials.signing].").toList)
  else match payload.provider.filter fun provider => !equalsIgnoreCase provider "s3".toList with
  | some provider => .error (.badRequest
      ("Remote signing is implemented for the 's3' provider only, not '".toList ++ provider ++
        "'.".toList))
  | none =>
      if payload.body.any fun body => maxBody < Text.len body then
        .error (.badRequest ("Request body to sign is larger than ".toList ++
          Text.decimal maxBody ++ " bytes.".toList))
      else .ok ()

/-- The region to sign for: the client's, or the configured fallback. -/
def pickRegion (requested : Text) (config : SigningEndpointConfig) : Text :=
  if Text.trim requested ≠ [] then requested else config.fallbackRegion.getD "us-east-1".toList

def signingFailure : SigningError → AppError
  | .notConfigured => .notSupported
      "This catalog does not offer remote signing for this storage service.".toList
  | .unsignable reason => .badRequest reason
  | .failed _ => .serviceUnavailable
      "The request could not be signed. Retrying is reasonable.".toList

def SignedOp.cacheControl : SignedOp → Text
  | .read => "private".toList
  | .write => "no-cache".toList

def methodOf (payload : RemoteSignRequest) : Text :=
  (Text.trim payload.method).map Char.toUpper

/-- What the signer is handed: the URI as it was checked, the headers as they came. -/
def toSign (signing : Signing) (payload : RemoteSignRequest) (addressed : Addressed) :
    SignRequest :=
  ⟨methodOf payload, addressed.uri, pickRegion payload.region signing.config, payload.headers,
    payload.body⟩

/-- Whether the caller may have this request signed at all. -/
def authorizeSignature (app : AppState) (authorized : Authorized) (table : TableIdent)
    (operation : SignedOp) (addressed : Addressed) : Served d Unit := do
  if !authorized.obligations.isEmpty then
    refuseSignature app authorized operation addressed (.forbidden
      ("Policy attaches restrictions to this table (".toList ++ describe authorized.obligations ++
        ("), and a signed request cannot express them. Signing is withheld rather than granting " ++
          "access wider than policy allows.").toList))
  else if operation = .write then
    match ← alsoPermits app authorized .update with
    | true => return ()
    | false =>
        refuseSignature app authorized operation addressed
          (.forbidden ("Not permitted to write table '".toList ++ table.display ++ ['\'']))

/-- The table's location, where this server signs for the storage it is on. -/
def signedLocation (app : AppState) (signing : Signing) (authorized : Authorized)
    (table : TableIdent) (operation : SignedOp) (addressed : Addressed) : Served d Text := do
  let loaded ← call (.loadTable table)
  let location := ib.location loaded.metadata
  let managed ← AppState.managesStorageFor table.namespc location
  if !managed || !isVendable signing.allowedPrefixes location then
    refuseSignature app authorized operation addressed (.forbidden
      "This catalog does not sign requests for the storage this table lives in.".toList)
  else return location

def confined (app : AppState) (authorized : Authorized) (operation : SignedOp)
    (addressed : Addressed) (location : Text) : Served d Unit :=
  match confine addressed location with
  | .ok () => return ()
  | .error refused => refuseSignature app authorized operation addressed refused

def signRequest (app : AppState) (signing : Signing) (principal : Principal)
    (request : RequestContext) (table : TableIdent) (payload : RemoteSignRequest) :
    Served d RemoteSignResponse := do
  check (Signing.checkRequest app payload)
  let authorized ← authorize app principal request table.namespc (.table table.name) .read
  let (addressed, operation) ←
    check (resolve signing.parse (methodOf payload) payload signing.config)
  authorizeSignature app authorized table operation addressed
  let location ← signedLocation app signing authorized table operation addressed
  confined app authorized operation addressed location
  let signed ← check ((signing.sign (toSign signing payload addressed)).mapError signingFailure)
  recordSignature app authorized operation addressed true
  return ⟨signed.uri, signed.headers, operation.cacheControl⟩

/-! ## What is signed -/

section

variable {app : AppState} {signing : Signing} {principal : Principal} {request : RequestContext}
  {table : TableIdent} {payload : RemoteSignRequest}

/-- What a signed request has gone through. -/
structure Signed (app : AppState) (signing : Signing) (principal : Principal)
    (request : RequestContext) (table : TableIdent) (payload : RemoteSignRequest) (h : Past d)
    (response : RemoteSignResponse) (addressed : Addressed) : Prop where
  granted : ∃ authorized, Granted app principal request table.namespc (.table table.name) .read h
    authorized ∧ authorized.obligations.isEmpty = true
  resolved : ∃ operation,
    resolve signing.parse (methodOf payload) payload signing.config = .ok (addressed, operation)
  confined : ∃ loaded, ⟨.store (.loadTable table), .ok loaded⟩ ∈ h ∧
    confine addressed (ib.location loaded.metadata) = .ok ()
  signed : signing.sign (toSign signing payload addressed) = .ok ⟨response.uri, response.headers⟩

/-- A program goes on from what the request has seen. -/
theorem goes_on {α : Type} (p : Prog (Call d) Call.Answer α) (h : Past d) :
    Prog.Traced (fun _ _ => True) (fun h' _ => h <+: h') h p :=
  Prog.Traced.mono (Prog.Traced.extends (Q := fun _ _ => True)
    ((Prog.Meets.all p).traced (fun _ _ _ => trivial) fun _ _ _ => trivial)) (fun _ _ hP => hP)
    fun _ _ hQ => hQ.1

theorem done_traced {α : Type} (h : Past d) (a : α) :
    Prog.Traced (fun _ _ => True) (fun h' a' => h = h' ∧ a' = a) h
      (.done a : Prog (Call d) Call.Answer α) := ⟨rfl, rfl⟩

theorem refuseSignature_traced {α : Type} (authorized : Authorized) (operation : SignedOp)
    (addressed : Addressed) (error : AppError) (h : Past d) :
    Prog.Traced (fun _ _ => True) (fun _ r => ∀ a, r ≠ .ok a) h
      (refuseSignature app authorized operation addressed error : Served d α).run :=
  Prog.Traced.bind_except (goes_on _ h) (fun _ _ _ _ hok => by cases hok)
    fun _ _ _ _ hok => by cases hok

theorem authorizeSignature_traced (authorized : Authorized) (operation : SignedOp)
    (addressed : Addressed) (h : Past d) :
    Prog.Traced (fun _ _ => True)
      (fun h' r => h <+: h' ∧ (r = .ok () → authorized.obligations.isEmpty = true)) h
      (authorizeSignature app authorized table operation addressed : Served d Unit).run := by
  refine Prog.Traced.extends ?_
  unfold authorizeSignature
  cases hempty : authorized.obligations.isEmpty with
  | false =>
      exact Prog.Traced.mono (refuseSignature_traced ..) (fun _ _ hP => hP)
        fun _ r hrefused hok => absurd hok (hrefused ())
  | true =>
      exact Prog.Traced.mono (goes_on _ h) (fun _ _ hP => hP) fun _ _ _ _ => rfl

theorem signedLocation_traced (authorized : Authorized) (operation : SignedOp)
    (addressed : Addressed) (h : Past d) :
    Prog.Traced (fun _ _ => True)
      (fun h' r => h <+: h' ∧ ∀ location, r = .ok location → ∃ loaded,
        ⟨.store (.loadTable table), .ok loaded⟩ ∈ h' ∧ location = ib.location loaded.metadata) h
      (signedLocation app signing authorized table operation addressed : Served d Text).run := by
  refine Prog.Traced.extends ⟨trivial, fun answer => ?_⟩
  cases answer with
  | error e => exact fun location hok => by cases hok
  | ok loaded =>
      have hseen : (⟨.store (.loadTable table), .ok loaded⟩ : Σ e : Call d, e.Answer) ∈
          h ++ [⟨.store (.loadTable table), .ok loaded⟩] :=
        List.mem_append_right h (List.mem_singleton_self _)
      refine Prog.Traced.bind_except (goes_on _ _) (fun _ _ _ _ hok => by cases hok)
        fun h' managed hle => ?_
      cases hrefuse :
        !managed || !isVendable signing.allowedPrefixes (ib.location loaded.metadata) with
      | true =>
          rw [if_pos rfl]
          exact Prog.Traced.mono (refuseSignature_traced ..) (fun _ _ hP => hP)
            fun _ r hrefused location hok => absurd hok (hrefused location)
      | false =>
          rw [if_neg (by simp)]
          intro location hok
          cases hok
          exact ⟨loaded, hle.subset hseen, rfl⟩

theorem confined_traced (authorized : Authorized) (operation : SignedOp) (addressed : Addressed)
    (location : Text) (h : Past d) :
    Prog.Traced (fun _ _ => True)
      (fun h' r => h <+: h' ∧ (r = .ok () → confine addressed location = .ok ())) h
      (confined app authorized operation addressed location : Served d Unit).run := by
  refine Prog.Traced.extends ?_
  unfold confined
  split
  · next hconfine => exact fun _ => hconfine
  · exact Prog.Traced.mono (refuseSignature_traced ..) (fun _ _ hP => hP)
      fun _ r hrefused hok => absurd hok (hrefused ())

/-- A request that is signed was permitted without obligation, resolved, and
confined to the table's location. -/
theorem signRequest_traced (h : Past d) :
    Prog.Traced (fun _ _ => True) (fun h' r => ∀ response, r = .ok response →
        ∃ addressed, Signed app signing principal request table payload h' response addressed) h
      (signRequest app signing principal request table payload : Served d _).run := by
  refine Prog.Traced.bind_except (goes_on _ h) (fun _ _ _ _ hok => by cases hok) fun h₁ _ _ => ?_
  refine Prog.Traced.bind_except (authorize_traced trivial (fun _ _ => trivial) principal
    request (.table table.name) .read)
    (fun _ _ _ _ hok => by cases hok) fun h₂ authorized hgranted => ?_
  cases hresolve : resolve signing.parse (methodOf payload) payload signing.config with
  | error e => exact fun response hok => by cases hok
  | ok resolved =>
      obtain ⟨addressed, operation⟩ := resolved
      refine Prog.Traced.bind_except (done_traced h₂ _) (fun _ _ _ _ hok => by cases hok) ?_
      rintro _ _ ⟨rfl, hdone⟩
      cases hdone
      refine Prog.Traced.bind_except (authorizeSignature_traced authorized operation addressed h₂)
        (fun _ _ _ _ hok => by cases hok) fun h₃ _ ⟨hle₃, hempty⟩ => ?_
      refine Prog.Traced.bind_except (signedLocation_traced authorized operation addressed h₃)
        (fun _ _ _ _ hok => by cases hok) fun h₄ location ⟨hle₄, hlocation⟩ => ?_
      obtain ⟨loaded, hloaded, rfl⟩ := hlocation location rfl
      refine Prog.Traced.bind_except (confined_traced authorized operation addressed _ h₄)
        (fun _ _ _ _ hok => by cases hok) fun h₅ _ ⟨hle₅, hconfined⟩ => ?_
      cases hsigned : signing.sign (toSign signing payload addressed) with
      | error e => exact fun response hok => by cases hok
      | ok signed =>
          refine Prog.Traced.bind_except (done_traced h₅ _) (fun _ _ _ _ hok => by cases hok) ?_
          rintro _ _ ⟨rfl, hdone⟩
          cases hdone
          refine Prog.Traced.bind_except (goes_on _ h₅) (fun _ _ _ _ hok => by cases hok)
            fun h₆ _ hle₆ response hok => ?_
          cases hok
          refine ⟨addressed, ⟨authorized, ?_, hempty rfl⟩, ⟨operation, hresolve⟩,
            ⟨loaded, (hle₅.trans hle₆).subset hloaded, hconfined rfl⟩, hsigned⟩
          exact (hgranted authorized rfl).mono (hle₃.trans (hle₄.trans (hle₅.trans hle₆)))

end

/-! ## The host the signature covers -/

/-- A name in any case. -/
def isHost (name : Text) : Bool := equalsIgnoreCase name "host".toList

/-- The `Host` headers among those that are signed. -/
def hostLines (headers : List (Text × Text)) : List Text :=
  (headers.filter fun header => isHost header.1).map Prod.snd

/-- `aws_sigv4` signs a `Host` header as it is given, and else the URI's authority. -/
def coveredHost (authority : Text → Text) (request : SignableRequest) : Text :=
  match hostLines request.headers with
  | [] => authority request.uri
  | lines => Text.join [','] lines

/-- The `Host` headers a client says it will send. -/
def clientHosts (headers : HeaderMultiMap) : List Text :=
  (headers.filter fun header => isHost header.1).flatMap Prod.snd

/-- `Host` is not among the headers left out. -/
theorem signed_of_isHost {name : Text} (h : isHost name = true) :
    Text.toAsciiLowercase name ∉ unsignedHeaders.map String.toList := by
  have hlower : Text.toAsciiLowercase name = "host".toList := of_decide_eq_true h
  rw [hlower]
  simp only [unsignedHeaders, List.map_cons, List.map_nil]
  rw [String.toList_ofList, String.toList_ofList, String.toList_ofList, String.toList_ofList,
    String.toList_ofList, String.toList_ofList, String.toList_ofList, String.toList_ofList]
  decide

theorem hostLines_append (headers headers' : List (Text × Text)) :
    hostLines (headers ++ headers') = hostLines headers ++ hostLines headers' := by
  rw [hostLines, List.filter_append, List.map_append]
  rfl

theorem hostLines_values (name : Text) (values : List Text) :
    hostLines (values.map fun value => (name, value)) = if isHost name then values else [] := by
  induction values with
  | nil => simp [hostLines]
  | cons value values ih =>
      rw [List.map_cons, ← List.singleton_append, hostLines_append, ih]
      by_cases hhost : isHost name = true
      · simp [hostLines, hhost]
      · simp [hostLines, hhost]

theorem hostLines_signedHeaders (headers : HeaderMultiMap) :
    hostLines (signedHeaders headers) = clientHosts headers := by
  induction headers with
  | nil => rfl
  | cons header headers ih =>
      obtain ⟨name, values⟩ := header
      unfold signedHeaders clientHosts at ih ⊢
      let named : Text × List Text → Bool := fun header => isHost header.1
      by_cases hhost : isHost name = true
      · rw [List.filter_cons_of_pos (by simpa using signed_of_isHost hhost),
          List.filter_cons_of_pos (p := named) hhost, List.flatMap_cons, List.flatMap_cons,
          hostLines_append, ih, hostLines_values, if_pos hhost]
      · rw [List.filter_cons_of_neg (p := named) hhost, ← ih]
        by_cases hkept : Text.toAsciiLowercase name ∈ unsignedHeaders.map String.toList
        · rw [List.filter_cons_of_neg (by simpa using hkept)]
        · rw [List.filter_cons_of_pos (by simpa using hkept), List.flatMap_cons, hostLines_append,
            hostLines_values, if_neg hhost, List.nil_append]

theorem coveredHost_iff {authority : Text → Text} {request : SignableRequest} :
    coveredHost authority request = authority request.uri ↔
      hostLines request.headers = [] ∨
        Text.join [','] (hostLines request.headers) = authority request.uri := by
  unfold coveredHost
  cases hostLines request.headers with
  | nil => simp
  | cons line lines => simp

theorem AwsSigV4.signRequest_ok {aws : AwsSigV4} {request : SignRequest} {signed : SignedRequest}
    (h : aws.signRequest request = .ok signed) : signed.uri = request.uri ∧
      ∃ params headers, aws.sign request.signable params = .ok headers ∧
        signed.headers = headers.map fun header => (header.1, [header.2]) := by
  obtain ⟨params, -, h⟩ := Except.bind_eq_ok.mp h
  obtain ⟨⟨⟩, -, h⟩ := Except.bind_eq_ok.mp h
  obtain ⟨headers, hheaders, h⟩ := Except.bind_eq_ok.mp h
  cases h
  exact ⟨rfl, params, headers, Except.mapError_eq_ok.mp hheaders, rfl⟩

/-- What is signed for a client is the request on the URI that was checked, with the
client's headers, and the host it covers is that URI's where the client names no
other. -/
theorem signed_host_exact (app : AppState) (config : SigningEndpointConfig)
    (parse : Text → Except Text Url) (allowedPrefixes : List Text) (aws : AwsSigV4)
    (authority : Text → Text) (principal : Principal) (request : RequestContext)
    (table : TableIdent) (payload : RemoteSignRequest) (h : Past d) (response : RemoteSignResponse)
    (hsigned : Prog.Follows (signRequest app ⟨config, parse, allowedPrefixes, aws.signRequest⟩
      principal request table payload : Served d _).run h (.done (.ok response))) :
    ∃ url location params headers,
      let signable : SignableRequest :=
        ⟨methodOf payload, url.asStr, signedHeaders payload.headers, payload.body⟩
      parse payload.uri = .ok url ∧ splitBucketAndKey url config = .ok location ∧
        aws.sign signable params = .ok headers ∧ response.uri = url.asStr ∧
        response.headers = headers.map (fun header => (header.1, [header.2])) ∧
        (coveredHost authority signable = authority url.asStr ↔
          clientHosts payload.headers = [] ∨
            Text.join [','] (clientHosts payload.headers) = authority url.asStr) := by
  obtain ⟨addressed, -, ⟨operation, hresolve⟩, -, hsign⟩ :=
    (signRequest_traced []).of_follows hsigned response rfl
  obtain ⟨url, bucket, key, source, hparse, hsplit, -, hkind⟩ := resolve_ok hresolve
  have huri : addressed.uri = url.asStr := by
    rcases resolveKind_ok hkind with
      ⟨_, -, rfl⟩ | ⟨_, -, -, rfl⟩ | ⟨_, -, -, rfl⟩ | ⟨-, rfl⟩ <;> rfl
  obtain ⟨hresponse, params, headers, hheaders, hadded⟩ := aws.signRequest_ok hsign
  have hsignable : (toSign ⟨config, parse, allowedPrefixes, aws.signRequest⟩ payload
      addressed).signable =
        ⟨methodOf payload, url.asStr, signedHeaders payload.headers, payload.body⟩ := by
    rw [toSign, huri]
    rfl
  rw [hsignable] at hheaders
  refine ⟨url, (bucket, key), params, headers, hparse, hsplit, hheaders, hresponse.trans huri,
    hadded, ?_⟩
  rw [coveredHost_iff, hostLines_signedHeaders]

/-! ## A server that signs -/

def plainCrates : Crates .plain where
  Credential := Unit
  ReadRestrictions := Unit
  OtherViewUpdate := Unit
  creationProperties _ := ∅
  properties _ := ∅
  viewProperties _ := ∅
  pruned metadata := .ok metadata
  readRestrictions _ _ := .ok none
  sha256 bytes := bytes
  print _ := []

def lake : TableIdent := ⟨["db".toList], "events".toList⟩

/-- A catalog of one tenant, with the table at `s3://lake/db/events`. -/
def lakeAnswer : (e : Call plainCrates) → e.Answer
  | .store (.getNamespace ns) => .ok ⟨ns, setOwner ∅ "acme".toList⟩
  | .store (.loadTable table) => .ok ⟨table, "s3://lake/db/events".toList, []⟩
  | .store (.warehouseFor _) => .ok (some "s3://lake".toList)
  | .store _ => .error ⟨.featureUnsupported, []⟩
  | .write _ => .ok ()
  | .vendCredentials _ => .ok []

/-- Everybody may do everything. -/
def lakeApp : AppState :=
  ⟨⟨fun _ => .allow, none⟩, true, "s3://lake".toList, .table, true, fun _ => true⟩

def lakeUser : Principal := ⟨"ann".toList, .user, "acme".toList, []⟩

/-- A path-style request for a file of the table. -/
def lakeUrl : Url where
  scheme := "https".toList
  hostStr := some "s3.eu-west-1.amazonaws.com".toList
  path := "/lake/db/events/0.parquet".toList
  queryPairs := []
  fragment := none
  asStr := "https://s3.eu-west-1.amazonaws.com/lake/db/events/0.parquet".toList

/-- Its long texts may be spelled out before a request for it is evaluated. -/
theorem lakeUrl_congr {host path asStr : Text}
    (hhost : "s3.eu-west-1.amazonaws.com".toList = host)
    (hpath : "/lake/db/events/0.parquet".toList = path)
    (hasStr : "https://s3.eu-west-1.amazonaws.com/lake/db/events/0.parquet".toList = asStr) :
    lakeUrl = ⟨"https".toList, some host, path, [], none, asStr⟩ := by
  rw [← hhost, ← hpath, ← hasStr]
  rfl

def lakeSigner : AwsSigV4 :=
  ⟨Unit, fun _ => .ok (), fun _ => .ok (), fun _ _ =>
    .ok [("authorization".toList, "AWS4-HMAC-SHA256".toList)]⟩

def lakeSigning : Signing where
  config := ⟨none, none, none⟩
  parse uri :=
    if uri = lakeUrl.asStr then .ok lakeUrl else .error "relative URL without a base".toList
  allowedPrefixes := ["s3://lake".toList]
  sign := lakeSigner.signRequest

def lakePayload (method : String) (headers : HeaderMultiMap) : RemoteSignRequest :=
  ⟨"eu-west-1".toList, lakeUrl.asStr, method.toList, headers, none, none⟩

def lakeResponse (operation : SignedOp) : RemoteSignResponse :=
  ⟨lakeUrl.asStr, [("authorization".toList, ["AWS4-HMAC-SHA256".toList])], operation.cacheControl⟩

def lakeServed (payload : RemoteSignRequest) : Served plainCrates RemoteSignResponse :=
  signRequest lakeApp lakeSigning lakeUser ⟨none, none, []⟩ lake payload

/-- The request is answered as `lakeAnswer` answers its calls. -/
theorem lake_follows {payload : RemoteSignRequest} {response : RemoteSignResponse}
    (h : ((lakeServed payload).run.run (fun e s => (lakeAnswer e, s)) ()).1 = .ok response) :
    ∃ h, Prog.Follows (lakeServed payload).run h (.done (.ok response)) := by
  have hexec : Prog.Exec (fun _ _ _ _ => True) (lakeServed payload).run ()
      ((lakeServed payload).run.run (fun e s => (lakeAnswer e, s)) ()).1 () :=
    Prog.exec_run (fun _ _ => trivial) (lakeServed payload).run ()
  obtain ⟨history, hfollows, -⟩ := hexec
  rw [h] at hfollows
  exact ⟨history, hfollows⟩

/-- What stands between the scheme and the path. -/
def authorityOf (uri : Text) : Text :=
  ((Text.stripPrefix uri "https://".toList).getD []).takeWhile (· ≠ '/')

theorem lake_signed : ∃ h, Prog.Follows (lakeServed (lakePayload "GET" [])).run h
    (.done (.ok (lakeResponse .read))) := by
  have hurl := lakeUrl_congr String.toList_ofList String.toList_ofList String.toList_ofList
  apply lake_follows
  unfold lakeServed lakeSigning lakePayload lakeResponse
  rw [hurl]
  decide

theorem lake_host : ∃ url : Url, lakeResponse .read = ⟨url.asStr,
      [("authorization".toList, ["AWS4-HMAC-SHA256".toList])], "private".toList⟩ ∧
    coveredHost authorityOf ⟨"GET".toList, url.asStr, [], none⟩ = authorityOf url.asStr := by
  obtain ⟨h, hfollows⟩ := lake_signed
  obtain ⟨url, location, params, headers, hparse, -, -, huri, -, hhost⟩ := signed_host_exact lakeApp
    ⟨none, none, none⟩ lakeSigning.parse ["s3://lake".toList] lakeSigner authorityOf lakeUser
    ⟨none, none, []⟩ lake (lakePayload "GET" []) h (lakeResponse .read) hfollows
  exact ⟨url, by rw [← huri]; rfl, hhost.mpr (Or.inl rfl)⟩

/-- Another bucket's host, named in a header. -/
def otherHost : HeaderMultiMap := [("Host".toList, ["payroll.s3.eu-west-1.amazonaws.com".toList])]

/-- The request is signed, and the signature covers the other host. -/
theorem lake_otherHost :
    (∃ h, Prog.Follows (lakeServed (lakePayload "GET" otherHost)).run h
      (.done (.ok (lakeResponse .read)))) ∧
    coveredHost authorityOf ⟨"GET".toList, lakeUrl.asStr, signedHeaders otherHost, none⟩ =
      "payroll.s3.eu-west-1.amazonaws.com".toList ∧
    authorityOf lakeUrl.asStr = "s3.eu-west-1.amazonaws.com".toList := by
  have hurl := lakeUrl_congr String.toList_ofList String.toList_ofList String.toList_ofList
  refine ⟨lake_follows ?_, ?_, ?_⟩
  · unfold lakeServed lakeSigning lakePayload lakeResponse otherHost
    rw [hurl, String.toList_ofList]
    decide
  · unfold otherHost
    rw [hurl, String.toList_ofList]
    decide
  · rw [hurl]
    decide

end Rustberg.V1
