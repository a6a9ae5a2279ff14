import Rustberg.Api.Namespace
import Rustberg.V1.Freshness
import Rustberg.V1.Request

/-!
# The table handlers

`catalog/v1/table.rs`. `vendTableCredentials` and `signingResponse` decide
what storage access a response carries; both go by the obligations of the
decision the handler made. Arguments that an extractor has decoded, a path
or a header, come decoded; `cached` is what the idempotency cache holds
for the request.
-/

namespace Rustberg.V1

open Process Auth Api

variable {ib : Iceberg} {d : Crates ib}

/-! ## Storage access -/

inductive Delegated (d : Crates ib) where
  | granted (credentials : List d.Credential)
  /-- Nothing vended, and that is unremarkable. -/
  | none
  | withheld (reason : Text)
  | failed (reason : Text)

inductive AccessLevel where
  | write
  /-- Follows the caller's own `Update` grant. -/
  | fromPolicy

structure CredentialTarget where
  namespc : NamespaceIdent
  tableName : Text
  location : Text
  access : AccessLevel

/-- `Obligations::describe` -/
def describe (obligations : Obligations) : Text :=
  let parts :=
    (if obligations.rowFilters = [] then []
      else [Text.decimal obligations.rowFilters.length ++ " row filter(s)".toList]) ++
    if obligations.columnMasks = [] then []
    else ["masked column(s): ".toList ++ Text.join ", ".toList (sorted obligations.columnMasks)]
  if parts = [] then "no restrictions".toList else Text.join "; ".toList parts

def credentialEvent (authorized : Authorized) (access : Text) (outcome : AuditOutcome)
    (reason : Option Text) : CredentialEvent where
  access := access
  resource := authorized.context.resource.path
  outcome := outcome
  principalId := authorized.context.principal.id
  tenantId := authorized.context.principal.tenantId
  clientIp := authorized.context.request.sourceIp
  requestId := authorized.context.request.requestId
  reason := reason

/-- A withheld credential never had a width decided. -/
def accessOf : Option Bool → Text
  | some true => "read-write".toList
  | some false => "read".toList
  | none => "none".toList

/-- Only a granted write credential fails when it cannot be recorded. -/
def recordVend (app : AppState) (authorized : Authorized) (outcome : Delegated d)
    (writeAccess : Option Bool) : Served d Unit := do
  let event outcome reason :=
    Event.credentialVend (credentialEvent authorized (accessOf writeAccess) outcome reason)
  match outcome with
  | .none => return ()
  | .granted _ =>
      if writeAccess = some true then
        match ← app.record (event .success none) with
        | .ok () => return ()
        | .error _ => check (.error (.serviceUnavailable
            "The audit trail is unavailable, so no write credential was issued.".toList))
      else AppState.recordLossy (event .success none)
  | .withheld reason => AppState.recordLossy (event .denied (some reason))
  | .failed reason => AppState.recordLossy (event .failure (some reason))

/-- Whether the credential may write. -/
def writeAccessFor (app : AppState) (authorized : Authorized) : AccessLevel → Served d Bool
  | .write => return true
  | .fromPolicy => alsoPermits app authorized .update

/-- What an exchange with the provider comes to. -/
def exchanged (tableName : Text) : Except Text (List d.Credential) → Delegated d
  | .ok [] => .none
  | .ok credentials => .granted credentials
  | .error _ => .failed ("Storage credentials were requested for '".toList ++ tableName ++
      ("' and could not be obtained. This is a failure of the credential exchange, not a " ++
        "policy decision — the server log names the cause. Retrying is reasonable.").toList)

def vendTableCredentials (app : AppState) (authorized : Authorized) (target : CredentialTarget)
    (delegation : AccessDelegation) : Served d (Delegated d) := do
  if !delegation.vendedCredentials then return .none
  else if !authorized.obligations.isEmpty then
    let reason := "Policy attaches restrictions to this table (".toList ++
      describe authorized.obligations ++
      ("), and a storage credential cannot express them. Credentials are withheld rather than " ++
        "granting access wider than policy allows.").toList
    recordVend app authorized (.withheld reason : Delegated d) none
    return .withheld reason
  else
    let ns ← check ((NamespaceIdent.fromVec target.namespc).mapError AppError.fromIceberg)
    let managed ← AppState.managesStorageFor ns target.location
    if !managed || !app.supportsLocation target.location then return .none
    else
      let writeAccess ← writeAccessFor app authorized target.access
      let principal := authorized.context.principal
      let answer ← vendCredentials ⟨principal.tenantId, target.namespc, target.tableName,
        target.location, writeAccess, some principal.id⟩
      let outcome := exchanged target.tableName answer
      recordVend app authorized outcome (some writeAccess)
      return outcome

/-- A failed exchange does not belong in a `200`. -/
def Delegated.intoResponseCredentials :
    Delegated d → Except AppError (Option (List d.Credential))
  | .granted credentials => .ok (some credentials)
  | .none => .ok .none
  | .withheld _ => .ok .none
  | .failed reason => .error (.serviceUnavailable reason)

structure RemoteSigningConfig where
  endpoint : Text
  properties : List (Text × Text)
  headers : List (Text × List Text)
  deriving DecidableEq

/-- Percent-encodes everything a path segment may not carry literally. -/
def encodePathSegment (value : Text) : Text :=
  (Utf8.bytes value).flatMap fun b =>
    let c := Char.ofNat b.toNat
    if c.isAlphanum || c ∈ ['-', '.', '_', '~'] then [c]
    else '%' :: (Hex.byte b).map Char.toUpper

def signingConfigFor (ns : NamespaceIdent) (table : Text) : RemoteSigningConfig where
  endpoint := "v1/namespaces/".toList ++ encodePathSegment (Text.join [partSeparator] ns) ++
    "/tables/".toList ++ encodePathSegment table ++ "/sign".toList
  properties := []
  headers := []

/-- The `config` keys and the signer settings a response carries. -/
def signingResponse (app : AppState) (delegation : AccessDelegation) (ns : NamespaceIdent)
    (tableName : Text) (obligations : Obligations) :
    List (Text × Text) × Option RemoteSigningConfig :=
  let config :=
    if obligations.isEmpty then [] else [("scan-planning-mode".toList, "server".toList)]
  if !delegation.remoteSigning || !app.signingEnabled || !obligations.isEmpty then (config, none)
  else
    let signing := signingConfigFor ns tableName
    (config ++ [("s3.remote-signing-enabled".toList, "true".toList),
      ("s3.signer".toList, "S3V4RestSigner".toList),
      ("s3.signer.endpoint".toList, signing.endpoint)], some signing)

/-! ## Requests and responses -/

structure LoadTableResponse (d : Crates ib) where
  metadataLocation : Option Text
  metadata : ib.Metadata
  config : List (Text × Text)
  storageCredentials : Option (List d.Credential)
  remoteSigningConfig : Option RemoteSigningConfig
  readRestrictions : Option d.ReadRestrictions

/-- What a handler of the catalog answers. -/
inductive Reply (d : Crates ib) where
  | namespaces (page : FilteredPage NamespaceIdent)
  | namespc (namespc : Namespace)
  | updatedProperties (response : UpdateNamespacePropertiesResponse)
  | identifiers (page : FilteredPage TableIdent)
  | loaded (response : LoadTableResponse d) (etag : Option Text)
  | notModified (etag : Text)
  | committed (metadataLocation : Text) (metadata : ib.Metadata) (etag : Option Text)
  | credentials (credentials : List d.Credential)
  | view (metadataLocation : Text) (metadata : ib.ViewMetadata)
  /-- The response kept under the request's idempotency key. -/
  | cached (body : Text)
  | ok

structure CreateTablePayload (d : Crates ib) where
  name : Text
  location : Option Text
  properties : Option Properties
  stageCreate : Bool
  /-- What the schema, the orders and the properties build, the format version
  taken out of the last. -/
  rest : Except AppError ib.CreationRest

structure RegisterTablePayload where
  name : Text
  metadataLocation : Text

structure CommitTableRequest (ib : Iceberg) where
  identifier : Option TableIdent
  requirements : List ib.Requirement
  updates : List ib.Update

structure RenamePayload where
  source : TableIdent
  destination : TableIdent

section Handlers

variable (u : UnicodeData) (b64 : Base64) (app : AppState) (principal : Principal)
  (request : RequestContext)

/-- A page request, from the query of a listing. -/
def pageRequest (query : PaginationQuery) : Served d PageRequest := check (query.toRequest b64)

def listTables (ns : NamespaceIdent) (query : PaginationQuery) : Served d (Reply d) := do
  let authorized ← authorize app principal request ns .namespc .list
  let page ← collectPage b64
    (fun ident => return (canSee app principal request authorized.owner ident.namespc
      (.table ident.name), ident))
    (fun page => call (.listTables ns page)) (← pageRequest b64 query)
  return .identifiers page

/-- `apply_scope` -/
def applyScope (metadata : ib.Metadata) : SnapshotScope → Except AppError ib.Metadata
  | .all => .ok metadata
  | .refs => d.pruned metadata

/-- A client-supplied location, confined before it is recorded. -/
def ensureLocation (ns : NamespaceIdent) (name : Text) : Option Text → Served d Unit
  | some location => do
      let bound ← app.locationBound ns name
      check (bound.ensure location)
  | none => return ()

/-- A staged table is built and handed back without being created. -/
def makeTable (ns : NamespaceIdent) (creation : ib.Creation) (staged : Bool) :
    Served d (Table ib) :=
  if staged then call (.stageCreateTable ns creation) else call (.createTable ns creation)

def createTable (ns : NamespaceIdent) (headers : HeaderMap) (cached : Option Text)
    (payload : CreateTablePayload d) : Served d (Reply d) := do
  check (validateTableName u payload.name)
  check (payload.properties.elim (.ok ()) validateProperties)
  ensureLocation app ns payload.name payload.location
  let authorized ← authorize app principal request ns (.table payload.name) .create
  match cached with
  | some body => return .cached body
  | none => do
      let delegation := AccessDelegation.fromHeaders headers
      let rest ← check payload.rest
      let table ← makeTable ns ⟨payload.name, payload.location, rest⟩ payload.stageCreate
      let delegated ← vendTableCredentials app authorized
        ⟨ns, payload.name, ib.location table.metadata, .write⟩ delegation
      let storageCredentials ← check delegated.intoResponseCredentials
      let (config, remoteSigningConfig) :=
        signingResponse app delegation ns payload.name authorized.obligations
      let readRestrictions ← check (d.readRestrictions table.metadata authorized.obligations)
      -- No tag for a staged table: there is none to load.
      let etag := if payload.stageCreate then none
        else etagFor d.sha256 d.print (some table.metadataLocation) .all delegation
          authorized.obligations
      return .loaded ⟨if payload.stageCreate then none else some table.metadataLocation,
        table.metadata, config, storageCredentials, remoteSigningConfig, readRestrictions⟩ etag

/-- The tag a conditional load is answered with, where the client holds it. -/
def revalidated (table : TableIdent) (headers : HeaderMap) (scope : SnapshotScope)
    (delegation : AccessDelegation) (obligations : Obligations) : Served d (Option Text) := do
  if isRevalidatable headers delegation then
    let pointer ← call (.metadataPointer table)
    return (etagFor d.sha256 d.print pointer scope delegation obligations).filter
      (matchesTag headers)
  else return none

def loadTable (table : TableIdent) (snapshots : Option Text) (headers : HeaderMap) :
    Served d (Reply d) := do
  let scope ← check (SnapshotScope.ofQuery snapshots)
  let delegation := AccessDelegation.fromHeaders headers
  let authorized ← authorize app principal request table.namespc (.table table.name) .read
  match ← revalidated table headers scope delegation authorized.obligations with
  | some tag => return .notModified tag
  | none => do
      let loaded ← call (.loadTable table)
      let etag := etagFor d.sha256 d.print (some loaded.metadataLocation) scope delegation
        authorized.obligations
      let delegated ← vendTableCredentials app authorized
        ⟨table.namespc, table.name, ib.location loaded.metadata, .fromPolicy⟩ delegation
      let storageCredentials ← check delegated.intoResponseCredentials
      let metadata ← check (applyScope (d := d) loaded.metadata scope)
      let (config, remoteSigningConfig) :=
        signingResponse app delegation table.namespc table.name authorized.obligations
      let readRestrictions ← check (d.readRestrictions metadata authorized.obligations)
      return .loaded ⟨some loaded.metadataLocation, metadata, config, storageCredentials,
        remoteSigningConfig, readRestrictions⟩ etag

def tableExists (table : TableIdent) : Served d (Reply d) := do
  let _ ← authorize app principal request table.namespc (.table table.name) .read
  if ← call (.tableExists table) then return .ok
  else check (.error (.noSuchTable table.display))

def loadTableCredentials (table : TableIdent) : Served d (Reply d) := do
  let authorized ← authorize app principal request table.namespc (.table table.name) .read
  let loaded ← call (.loadTable table)
  let location := ib.location loaded.metadata
  match ← vendTableCredentials app authorized ⟨table.namespc, table.name, location, .fromPolicy⟩
      ⟨true, false⟩ with
  | .granted credentials => return .credentials credentials
  | .withheld reason => check (.error (.forbidden reason))
  | .failed reason => check (.error (.serviceUnavailable reason))
  | .none => check (.error (.notSupported
      ("Credential vending is not available for storage location: ".toList ++
        Text.join ['/'] ((location.splitOn '/').take 3))))

def removeTable (table : TableIdent) (purgeRequested : Bool) : Served d Unit :=
  if purgeRequested then call (.purgeTable table) else call (.dropTable table)

def dropTable (table : TableIdent) (purgeRequested : Bool) : Served d (Reply d) := do
  let _ ← authorize app principal request table.namespc (.table table.name) .delete
  let loaded ← call (.loadTable table)
  check (rejectIfProtected (d.properties loaded.metadata)
    ("Table '".toList ++ table.display ++ ['\'']))
  removeTable table purgeRequested
  return .ok

def unregisterTable (table : TableIdent) : Served d (Reply d) := do
  let _ ← authorize app principal request table.namespc (.table table.name) .delete
  call (.dropTable table)
  return .ok

def reportMetrics (table : TableIdent) : Served d (Reply d) := do
  let _ ← authorize app principal request table.namespc (.table table.name) .read
  return .ok

/-- `Update` on the source and `Create` on the destination. -/
def authorizeRename (target : Text → Target) (payload : RenamePayload) (refusal : Text) :
    Served d Unit := do
  let src ← authorize app principal request payload.source.namespc (target payload.source.name)
    .update
  let dest ← authorize app principal request payload.destination.namespc
    (target payload.destination.name) .create
  if src.owner ≠ dest.owner then check (.error (.forbidden refusal))

def renameTable (payload : RenamePayload) : Served d (Reply d) := do
  check (validateTableName u payload.destination.name)
  check (validateNamespace u payload.source.namespc)
  check (validateNamespace u payload.destination.namespc)
  authorizeRename app principal request .table payload
    "Cannot move tables between namespaces owned by different tenants".toList
  call (.renameTable payload.source payload.destination)
  return .ok

/-- The spec lets the body repeat the identifier; the URL is authoritative. -/
def checkIdentifier (kind : String) (target : TableIdent) : Option TableIdent → Except AppError Unit
  | some ident =>
      if ident = target then .ok ()
      else .error (.badRequest ("The identifier in the request body (".toList ++ ident.display ++
        ") does not name the ".toList ++ kind.toList ++ " in the URL (".toList ++
        target.display ++ "). They must match.".toList))
  | none => .ok ()

def checkUpdates (updates : List ib.Update) : Except AppError Unit :=
  if updates.isEmpty then
    .error (.badRequest ("A commit must carry at least one update. A request with none " ++
      "changes nothing, so it is a mistake rather than a no-op.").toList)
  else .ok ()

def commitTable (table : TableIdent) (cached : Option Text) (payload : CommitTableRequest ib) :
    Served d (Reply d) := do
  check (checkIdentifier "table" table payload.identifier)
  let authorized ← authorize app principal request table.namespc (.table table.name) .update
  match cached with
  | some body => return .cached body
  | none => do
      check (checkUpdates payload.updates)
      let updated ← call (.commitTable ⟨table, payload.requirements, payload.updates⟩)
      -- A commit negotiates no delegation.
      return .committed updated.metadataLocation updated.metadata
        (etagFor d.sha256 d.print (some updated.metadataLocation) .all .none
          authorized.obligations)

def registerTable (ns : NamespaceIdent) (headers : HeaderMap) (cached : Option Text)
    (payload : RegisterTablePayload) : Served d (Reply d) := do
  check (validateTableName u payload.name)
  let bound ← app.locationBound ns payload.name
  check (bound.ensure payload.metadataLocation)
  let authorized ← authorize app principal request ns (.table payload.name) .create
  match cached with
  | some body => return .cached body
  | none => do
      let delegation := AccessDelegation.fromHeaders headers
      let table ← call (.registerTable ⟨ns, payload.name⟩ payload.metadataLocation)
      let delegated ← vendTableCredentials app authorized
        ⟨ns, payload.name, ib.location table.metadata, .write⟩ delegation
      let storageCredentials ← check delegated.intoResponseCredentials
      let (config, remoteSigningConfig) :=
        signingResponse app delegation ns payload.name authorized.obligations
      let readRestrictions ← check (d.readRestrictions table.metadata authorized.obligations)
      return .loaded ⟨some table.metadataLocation, table.metadata, config, storageCredentials,
        remoteSigningConfig, readRestrictions⟩ none

/-- Two entries for one table cannot both be applied. -/
def refuseRepeated (ident : TableIdent) (changes : List ib.TableChange) : Except AppError Unit :=
  if changes.any fun change => change.ident = ident then
    .error (.badRequest ("Table '".toList ++ ident.display ++
      ("' appears more than once in this transaction. List each table at most once, combining " ++
        "its updates into a single entry.").toList))
  else .ok ()

/-- The entries of a transaction, each authorized before any is committed. -/
def authorizeChanges : List (CommitTableRequest ib) → List ib.TableChange →
    Served d (List ib.TableChange)
  | [], changes => return changes
  | commit :: commits, changes => do
      match commit.identifier with
      | none => check (.error (.badRequest
          "Each table commit in a transaction must name the table it applies to.".toList))
      | some ident => do
          check (validateNamespace u ident.namespc)
          check (validateTableName u ident.name)
          let _ ← authorize app principal request ident.namespc (.table ident.name) .update
          check (refuseRepeated ident changes)
          authorizeChanges commits
            (changes ++ [⟨ident, commit.requirements, commit.updates⟩])

/-- What the caller is told of a transaction that failed. -/
def transactionError (err : Error) : AppError :=
  match AppError.fromIceberg err with
  | .commitConflict message => .commitConflict (message ++
      ". The transaction was not applied — it is all or nothing.".toList)
  | other => other

def commitTransaction (cached : Option Text) (tableChanges : List (CommitTableRequest ib)) :
    Served d (Reply d) := do
  check (if tableChanges.isEmpty then
    .error (.badRequest "A transaction must carry at least one table commit.".toList) else .ok ())
  let changes ← authorizeChanges u app principal request tableChanges []
  match cached with
  | some body => return .cached body
  | none => do
      let answer ← attempt (.commitTablesAtomic changes)
      let _ ← check (answer.mapError transactionError)
      return .ok

end Handlers

end Rustberg.V1
