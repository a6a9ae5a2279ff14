import Rustberg.Api.Guard
import Rustberg.Api.Pagination
import Rustberg.Catalog.Federated
import Rustberg.LocationBound

/-!
# Requests to the whole catalog

`Api.Handler` reaches the namespaces of a catalog. What serves a request in
`catalog/v1` reaches all of `CatalogStore`, writes to the audit sink and
asks the credential provider: a `Served` is a program over these three.
What ends it early is a `Stop`, which tells a refusal of the authorizer
from every other error.

The guard is the one of `Api.Guard`, each record now a write to the sink:
what it answers is still `decideOn`.
-/

namespace Rustberg.V1

open Process Auth Api

/-- What the handlers use of other crates, and the types of what they only pass on. -/
structure Crates (ib : Iceberg) where
  Credential : Type
  ReadRestrictions : Type
  /-- The payload of a view update that does not move the view. -/
  OtherViewUpdate : Type
  creationProperties : ib.CreationRest → Properties
  properties : ib.Metadata → Properties
  viewProperties : ib.ViewMetadata → Properties
  /-- `apply_scope` at `refs`. -/
  pruned : ib.Metadata → Except AppError ib.Metadata
  /-- `restrictions::for_table` -/
  readRestrictions : ib.Metadata → Obligations → Except AppError (Option ReadRestrictions)
  sha256 : List UInt8 → List UInt8
  /-- `serde_json::to_string` of a value. -/
  print : Json → Text

/-! ## Effects -/

inductive AuditOutcome where
  | success
  | failure
  | denied
  deriving DecidableEq

/-- What storage access a request walked away with. -/
structure CredentialEvent where
  access : Text
  resource : Text
  outcome : AuditOutcome
  principalId : Text
  tenantId : Text
  clientIp : Option Text
  requestId : Option Text
  reason : Option Text

/-- What was signed, or what was refused. -/
structure SignEvent where
  operation : Text
  resource : Text
  allowed : Bool
  principalId : Text
  tenantId : Text
  clientIp : Option Text
  requestId : Option Text
  locations : Text
  locationCount : Text

inductive Event where
  | decision (event : AuditEvent)
  | credentialVend (event : CredentialEvent)
  | requestSign (event : SignEvent)

structure StorageCredentialRequest where
  tenantId : Text
  namespc : List Text
  tableName : Text
  tableLocation : Text
  writeAccess : Bool
  principalId : Option Text

variable {ib : Iceberg} {d : Crates ib}

/-- What serving a request asks of its surroundings. -/
inductive Call (d : Crates ib) where
  | store (call : StoreCall ib)
  /-- `AuditSink::write` -/
  | write (event : Event)
  | vendCredentials (request : StorageCredentialRequest)

abbrev Call.Answer : Call d → Type
  | store call => call.Answer
  | write _ => Except Text Unit
  | vendCredentials _ => Except Text (List d.Credential)

/-- Why a request ended early. -/
inductive Stop where
  /-- The authorizer's decision. -/
  | refused (error : AppError)
  | failed (error : AppError)
  deriving DecidableEq

/-- What the caller is answered. -/
def Stop.error : Stop → AppError
  | refused error => error
  | failed error => error

/-- A request being served. -/
abbrev Served (d : Crates ib) (α : Type) : Type := ExceptT Stop (Prog (Call d) Call.Answer) α

/-- A store call whose error is looked at. -/
def attempt (call : StoreCall ib) : Served d call.Answer :=
  ExceptT.mk (.perform (.store call) fun r => .done (.ok r))

/-- A store call whose error, mapped by kind, is the answer. -/
def call (call : StoreCall ib) : Served d call.Payload :=
  ExceptT.mk (.perform (.store call) fun r =>
    .done (r.mapError fun e => .failed (AppError.fromIceberg e)))

/-- A pure step that may fail. -/
def check {α : Type} (r : Except AppError α) : Served d α := ExceptT.mk (.done (r.mapError .failed))

/-- What the authorizer has decided. -/
def decided {α : Type} (r : Except AppError α) : Served d α :=
  ExceptT.mk (.done (r.mapError .refused))

def write (event : Event) : Served d (Except Text Unit) :=
  ExceptT.mk (.perform (.write event) fun r => .done (.ok r))

def vendCredentials (request : StorageCredentialRequest) :
    Served d (Except Text (List d.Credential)) :=
  ExceptT.mk (.perform (.vendCredentials request) fun r => .done (.ok r))

/-! ## The state of the server -/

structure AppState where
  authorizer : Authorizer
  /-- Whether a lost record refuses a mutation. -/
  failClosed : Bool
  defaultWarehouse : Text
  locationScope : LocationScope
  signingEnabled : Bool
  /-- `credential_provider.supports_location` -/
  supportsLocation : Text → Bool

namespace AppState

/-- The same policies, where every record is written. -/
def deciding (app : AppState) : Api.AppState := ⟨app.authorizer, fun _ => .ok ()⟩

/-- `Auditor::record` -/
def record (app : AppState) (event : Event) : Served d (Except Text Unit) := do
  match ← write event with
  | .ok () => return .ok ()
  | .error e => return if app.failClosed then .error e else .ok ()

/-- `Auditor::record_lossy` -/
def recordLossy (event : Event) : Served d Unit := do
  let _ ← write event

/-- The warehouse governing a namespace. -/
def warehouseFor (app : AppState) (ns : NamespaceIdent) : Served d Text := do
  match ← attempt (.warehouseFor ns) with
  | .ok (some warehouse) => return warehouse
  | _ => return app.defaultWarehouse

def locationBound (app : AppState) (ns : NamespaceIdent) (name : Text) :
    Served d LocationBound := do
  let warehouse ← app.warehouseFor ns
  match ← attempt (.namespacePrefixFor ns) with
  | .ok (some layout) => return .new app.locationScope warehouse layout name
  | _ => return .new app.locationScope warehouse (namespacePrefix warehouse ns) name

/-- Whether a location is inside the warehouse declared for the namespace. -/
def managesStorageFor (ns : NamespaceIdent) (location : Text) : Served d Bool := do
  match ← attempt (.warehouseFor ns) with
  | .ok (some warehouse) => return isWithin warehouse location
  | _ => return false

end AppState

/-! ## The guard -/

/-- Only a permitted mutation fails when it cannot be recorded. -/
def recordDecision (app : AppState) (context : AuthzContext) (outcome : AuthzOutcome) :
    Served d Unit := do
  let event := .decision (auditEvent app.deciding context outcome)
  if isMutating context.action && outcome.isAllowed then
    match ← app.record event with
    | .ok () => return ()
    | .error _ => check (.error (.serviceUnavailable
        "The audit trail is unavailable, so this change was not made.".toList))
  else AppState.recordLossy event

def resolveOwner (ns : NamespaceIdent) : Served d (Option Text) := do
  let answer ← attempt (.getNamespace ns)
  check (ownerIn (answer.map Namespace.properties))

def authorize (app : AppState) (principal : Principal) (request : RequestContext)
    (ns : NamespaceIdent) (target : Target) (action : Action) : Served d Authorized := do
  match ← resolveOwner ns with
  | some owner => do
      let context : AuthzContext := ⟨principal, target.resource owner ns, action, request⟩
      recordDecision app context (app.authorizer.decide context)
      decided (decideOn app.deciding principal request ns target action owner)
  | none => check (.error (target.notFound ns))

/-- Decides a prepared context; a denial is a `403`. -/
def authorizeContext (app : AppState) (context : AuthzContext) : Served d AuthzContext := do
  recordDecision app context (app.authorizer.decide context)
  decided (Api.authorizeContext app.deciding context)

/-- The catalog root is the caller's own tenant's. -/
def authorizeCatalog (app : AppState) (principal : Principal) (request : RequestContext)
    (action : Action) : Served d AuthzContext :=
  authorizeContext app ⟨principal, Resource.catalog principal.tenantId, action, request⟩

def authorizeNew (app : AppState) (principal : Principal) (request : RequestContext)
    (resource : Auth.Resource) (action : Action) : Served d AuthzContext :=
  authorizeContext app ⟨principal, resource, action, request⟩

/-- Whether another action is permitted on the same resource, recorded either way. -/
def alsoPermits (app : AppState) (authorized : Authorized) (action : Action) : Served d Bool := do
  let context := authorized.context.forAction action
  let outcome := app.authorizer.decide context
  recordDecision app context outcome
  return outcome.isAllowed

/-- Whether a caller may see a resource, with no record written. -/
def canSee (app : AppState) (principal : Principal) (request : RequestContext) (owner : Text)
    (ns : NamespaceIdent) (target : Target) : Bool :=
  app.authorizer.permits ⟨principal, target.resource owner ns, .read, request⟩

/-! ## Filtered pages -/

section Pages

variable {α : Type} (b64 : Base64) (visible : α → Served d (Bool × α))

/-- The rows of one batch: the page they fill, or the cursor and the items
kept after the last of them. -/
def examine (limit : Nat) (exhausted : Bool) :
    List (Entry α) → Option Text → List α →
      Served d (Except (FilteredPage α) (Option Text × List α))
  | [], cursor, kept => return .ok (cursor, kept)
  | entry :: entries, _, kept => do
      let (keep, item) ← visible entry.item
      if keep then
        if limit ≤ kept.length + 1 then
          -- The last row of an exhausted batch ends the list.
          let moreRemains := !entries.isEmpty || !exhausted
          return .error ⟨kept ++ [item],
            if moreRemains then some (encodeToken b64 entry.cursor) else none⟩
        else examine limit exhausted entries (some entry.cursor) (kept ++ [item])
      else examine limit exhausted entries (some entry.cursor) kept

/-- Batch after batch; `fetches` is how many may still be made. -/
def collectLoop (fetch : PageRequest → Served d (Page α)) (request : PageRequest) :
    (fetches : Nat) → Option Text → List α → (scanned : Nat) → Served d (FilteredPage α)
  | 0, cursor, kept, _ => return ⟨kept, (cursor <|> request.after).map (encodeToken b64)⟩
  | fetches + 1, cursor, kept, scanned => do
      let page ← fetch ⟨cursor, request.effectiveLimit⟩
      match ← examine b64 visible request.effectiveLimit page.next.isNone page.entries cursor
          kept with
      | .error full => return full
      | .ok (cursor, kept) =>
          if page.next.isNone then return ⟨kept, none⟩
          else
            match advance page cursor with
            | none => return ⟨kept, none⟩
            | some cursor =>
                if maxScan ≤ scanned + page.entries.length then
                  return ⟨kept, (cursor <|> request.after).map (encodeToken b64)⟩
                else collectLoop fetch request fetches cursor kept (scanned + page.entries.length)

def collectPage (fetch : PageRequest → Served d (Page α)) (request : PageRequest) :
    Served d (FilteredPage α) :=
  collectLoop b64 visible fetch request maxFetches request.after [] 0

end Pages

end Rustberg.V1
