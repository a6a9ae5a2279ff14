import Rustberg.V1.Namespaces
import Rustberg.V1.Planning
import Rustberg.V1.Rules
import Rustberg.V1.Views

/-!
# Complete mediation

Every route of `catalog/v1` reaches the catalog through the guard, and no
route reaches it in another way. `Mediated` says for each call of the store
which decision must have been made, recorded and permitted before; `Vended`
says it for a credential. `Disclosed` is what an answer may then show.
-/

namespace Rustberg.V1

open Process Auth Api

variable {ib : Iceberg} {d : Crates ib} {v : ViewCrate d}

/-! ## The routes -/

/-- What the routes are set up with. -/
structure Deployment (ib : Iceberg) where
  u : UnicodeData
  b64 : Base64
  app : AppState
  signing : Signing
  planner : Planner ib
  presigning : Presigning

/-- A request, as the extractors hand it to the handler of its route. -/
inductive CatalogRequest (v : ViewCrate d) where
  | listNamespaces (parent : Option Text) (query : PaginationQuery)
  | createNamespace (cached : Option Text) (payload : CreateNamespacePayload)
  | getNamespace (ns : NamespaceIdent)
  | namespaceExists (ns : NamespaceIdent)
  | deleteNamespace (ns : NamespaceIdent)
  | updateNamespaceProperties (ns : NamespaceIdent) (payload : UpdateNamespacePropertiesPayload)
  | listTables (ns : NamespaceIdent) (query : PaginationQuery)
  | createTable (ns : NamespaceIdent) (headers : HeaderMap) (cached : Option Text)
      (payload : CreateTablePayload d)
  | registerTable (ns : NamespaceIdent) (headers : HeaderMap) (cached : Option Text)
      (payload : RegisterTablePayload)
  | unregisterTable (table : TableIdent)
  | loadTable (table : TableIdent) (snapshots : Option Text) (headers : HeaderMap)
  | commitTable (table : TableIdent) (cached : Option Text) (payload : CommitTableRequest ib)
  | tableExists (table : TableIdent)
  | dropTable (table : TableIdent) (purgeRequested : Bool)
  | loadTableCredentials (table : TableIdent)
  | planTableScan (table : TableIdent) (planId : Text) (payload : PlanRequest)
  | fetchPlanningResult (table : TableIdent)
  | cancelPlanning (table : TableIdent)
  | fetchScanTasks (table : TableIdent)
  | signRequest (table : TableIdent) (payload : RemoteSignRequest)
  | reportMetrics (table : TableIdent)
  | renameTable (payload : RenamePayload)
  | listViews (ns : NamespaceIdent) (query : PaginationQuery)
  | createView (ns : NamespaceIdent) (cached : Option Text) (payload : CreateViewPayload v)
  | registerView (ns : NamespaceIdent) (payload : RegisterTablePayload)
  | loadView (view : TableIdent)
  | commitView (view : TableIdent) (cached : Option Text) (payload : CommitViewRequest d)
  | viewExists (view : TableIdent)
  | dropView (view : TableIdent)
  | renameView (payload : RenamePayload)
  | commitTransaction (cached : Option Text) (tableChanges : List (CommitTableRequest ib))

/-- The table whose storage a request is after. -/
def CatalogRequest.about : CatalogRequest v → Option TableIdent
  | createTable ns _ _ payload => some ⟨ns, payload.name⟩
  | registerTable ns _ _ payload => some ⟨ns, payload.name⟩
  | loadTable table _ _ => some table
  | loadTableCredentials table => some table
  | _ => none

/-- The parent whose namespaces a request lists, none for the root. -/
def CatalogRequest.parent : CatalogRequest v → Option (Option NamespaceIdent)
  | listNamespaces parent _ => some (parent.map fun parent => parent.splitOn partSeparator)
  | _ => none

/-- What a route answers. -/
inductive CatalogReply (d : Crates ib) where
  | catalog (reply : Reply d)
  | signed (response : RemoteSignResponse)
  | planned (plan : Query.CompletedPlan)
  | done

namespace CatalogRequest

/-- `create_routes` -/
def serve (dep : Deployment ib) (principal : Principal) (request : RequestContext) :
    CatalogRequest v → Served d (CatalogReply d)
  | listNamespaces parent query =>
      .catalog <$> V1.listNamespaces dep.u dep.b64 dep.app principal request parent query
  | createNamespace cached payload =>
      .catalog <$> V1.createNamespace dep.u dep.app principal request cached payload
  | getNamespace ns => .catalog <$> V1.getNamespace dep.app principal request ns
  | namespaceExists ns => .catalog <$> V1.namespaceExists dep.app principal request ns
  | deleteNamespace ns => .catalog <$> V1.deleteNamespace dep.app principal request ns
  | updateNamespaceProperties ns payload =>
      .catalog <$> V1.updateNamespaceProperties dep.app principal request ns payload
  | listTables ns query =>
      .catalog <$> V1.listTables dep.b64 dep.app principal request ns query
  | createTable ns headers cached payload =>
      .catalog <$> V1.createTable dep.u dep.app principal request ns headers cached payload
  | registerTable ns headers cached payload =>
      .catalog <$> V1.registerTable dep.u dep.app principal request ns headers cached payload
  | unregisterTable table => .catalog <$> V1.unregisterTable dep.app principal request table
  | loadTable table snapshots headers =>
      .catalog <$> V1.loadTable dep.app principal request table snapshots headers
  | commitTable table cached payload =>
      .catalog <$> V1.commitTable dep.app principal request table cached payload
  | tableExists table => .catalog <$> V1.tableExists dep.app principal request table
  | dropTable table purgeRequested =>
      .catalog <$> V1.dropTable dep.app principal request table purgeRequested
  | loadTableCredentials table =>
      .catalog <$> V1.loadTableCredentials dep.app principal request table
  | planTableScan table planId payload =>
      .planned <$> V1.planTableScan dep.app principal request table dep.planner dep.presigning
        planId payload
  | fetchPlanningResult table =>
      (fun _ => .done) <$> V1.fetchPlanningResult dep.app principal request table
  | cancelPlanning table => (fun _ => .done) <$> V1.cancelPlanning dep.app principal request table
  | fetchScanTasks table => (fun _ => .done) <$> V1.fetchScanTasks dep.app principal request table
  | signRequest table payload =>
      .signed <$> V1.signRequest dep.app dep.signing principal request table payload
  | reportMetrics table => .catalog <$> V1.reportMetrics dep.app principal request table
  | renameTable payload => .catalog <$> V1.renameTable dep.u dep.app principal request payload
  | listViews ns query => .catalog <$> V1.listViews dep.b64 dep.app principal request ns query
  | createView ns cached payload =>
      .catalog <$> V1.createView dep.u dep.app principal request ns cached payload
  | registerView ns payload =>
      .catalog <$> V1.registerView dep.u dep.app principal request ns payload
  | loadView view => .catalog <$> V1.loadView dep.app principal request view
  | commitView view cached payload =>
      .catalog <$> V1.commitView dep.app principal request v view cached payload
  | viewExists view => .catalog <$> V1.viewExists dep.app principal request view
  | dropView view => .catalog <$> V1.dropView dep.app principal request view
  | renameView payload => .catalog <$> V1.renameView dep.u dep.app principal request payload
  | commitTransaction cached tableChanges =>
      .catalog <$> V1.commitTransaction dep.u dep.app principal request cached tableChanges

end CatalogRequest

/-! ## What is let through -/

section

variable (app : AppState) (principal : Principal) (request : RequestContext) (h : Past d)

/-- The guard has let the request through to a resource. -/
def Passed (ns : NamespaceIdent) (target : Target) (action : Auth.Action) : Prop :=
  ∃ authorized, Granted app principal request ns target action h authorized

/-- A context that names its own resource was permitted, and recorded. -/
def PassedNew (resource : Auth.Resource) (action : Auth.Action) : Prop :=
  (app.authorizer.decide ⟨principal, resource, action, request⟩).isAllowed = true ∧
    Recorded app ⟨principal, resource, action, request⟩ h

def PassedTable (table : TableIdent) (action : Auth.Action) : Prop :=
  Passed app principal request h table.namespc (.table table.name) action

def PassedView (view : TableIdent) (action : Auth.Action) : Prop :=
  Passed app principal request h view.namespc (.view view.name) action

/-- The guard has let the request through to a table or a view of the namespace. -/
def LetIn (ns : NamespaceIdent) : Prop :=
  ∃ target, target ≠ .namespc ∧ ∃ action, Passed app principal request h ns target action

/-- The store has listed the namespace to the request, under this parent. -/
def ListedUnder (parent : Option NamespaceIdent) (ns : NamespaceIdent) : Prop :=
  ∃ page, ∃ answer : Page NamespaceIdent,
    ⟨.store (.listNamespaces parent page), .ok answer⟩ ∈ h ∧ ∃ entry ∈ answer.entries,
      entry.item = ns

def ListedNamespace (ns : NamespaceIdent) : Prop := ∃ parent, ListedUnder h parent ns

/-- What has been let through before the store is asked. A namespace is looked at for its
owner before there is a decision, once, by the guard; it is looked at again where the request
was let through to read, update or delete it, for another table or view of it, or as a row of
a listing. The layout of the storage is asked for by the handlers themselves, and no route asks
after the storage's health. An update of a namespace keeps the owner it has read; a view is also
dropped by the request that has just registered it. -/
def Mediated : StoreCall ib → Prop
  | .listNamespaces none _ =>
      PassedNew app principal request h (Resource.catalog principal.tenantId) .list
  | .listNamespaces (some parent) _ => Passed app principal request h parent .namespc .list
  | .createNamespace ns _ =>
      if parentOf ns = [] then
        PassedNew app principal request h (Resource.ofNamespace principal.tenantId ns) .create
      else Passed app principal request h (parentOf ns) .namespc .create
  | .namespaceExists ns => Passed app principal request h ns .namespc .read
  | .updateNamespace ns properties => Passed app principal request h ns .namespc .update ∧
      ∃ current : Namespace, ⟨.store (.getNamespace ns), .ok current⟩ ∈ h ∧
        ownerOf properties = ownerOf current.properties
  | .dropNamespace ns => Passed app principal request h ns .namespc .delete
  | .listTables ns _ | .listViews ns _ => Passed app principal request h ns .namespc .list
  | .createTable ns creation | .stageCreateTable ns creation =>
      Passed app principal request h ns (.table creation.name) .create
  | .registerTable table _ => PassedTable app principal request h table .create
  | .metadataPointer table | .tableExists table => PassedTable app principal request h table .read
  | .loadTable table =>
      PassedTable app principal request h table .read ∨
        PassedTable app principal request h table .delete
  | .commitTable change => PassedTable app principal request h change.ident .update
  | .commitTablesAtomic changes =>
      ∀ change ∈ changes, PassedTable app principal request h change.ident .update
  | .renameTable src dest =>
      PassedTable app principal request h src .update ∧
        PassedTable app principal request h dest .create
  | .dropTable table | .purgeTable table => PassedTable app principal request h table .delete
  | .viewExists view => PassedView app principal request h view .read
  | .loadView view =>
      PassedView app principal request h view .read ∨
        PassedView app principal request h view .update ∨
          PassedView app principal request h view .delete
  | .registerView view _ | .createView view _ => PassedView app principal request h view .create
  | .updateView view _ _ => PassedView app principal request h view .update
  | .dropView view =>
      PassedView app principal request h view .delete ∨
        PassedView app principal request h view .create ∧
          ∃ location registered, ⟨.store (.registerView view location), .ok registered⟩ ∈ h
  | .renameView src dest =>
      PassedView app principal request h src .update ∧
        PassedView app principal request h dest .create
  | .getNamespace ns =>
      (∀ answer, ⟨.store (.getNamespace ns), answer⟩ ∉ h) ∨
        (∃ action ∈ [.read, .update, .delete], Passed app principal request h ns .namespc action) ∨
          LetIn app principal request h ns ∨ ListedNamespace h ns
  | .warehouseFor _ | .namespacePrefixFor _ | .capabilitiesFor _ => True
  | .storageHealthCheck => False

/-- The store has answered with the table at this location. -/
def LoadedAt (table : TableIdent) (location : Text) : Prop :=
  ∃ loaded : Table ib, ib.location loaded.metadata = location ∧
    (⟨.store (.loadTable table), .ok loaded⟩ ∈ h ∨
      (∃ metadataLocation, ⟨.store (.registerTable table metadataLocation), .ok loaded⟩ ∈ h) ∨
      ∃ creation, creation.name = table.name ∧
        (⟨.store (.createTable table.namespc creation), .ok loaded⟩ ∈ h ∨
          ⟨.store (.stageCreateTable table.namespc creation), .ok loaded⟩ ∈ h))

/-- What has been decided before a credential is asked for: the table may be created by
the caller, or else be read by it and, for a credential that writes, be updated; under no
restriction; at the location the store gave, inside the warehouse of the namespace. -/
structure Vended (asked : StorageCredentialRequest) (authorized : Authorized) : Prop where
  granted :
    Granted app principal request asked.namespc (.table asked.tableName) .create h authorized ∨
      Granted app principal request asked.namespc (.table asked.tableName) .read h authorized ∧
        (asked.writeAccess = true →
          (app.authorizer.decide (authorized.context.forAction .update)).isAllowed = true ∧
            Recorded app (authorized.context.forAction .update) h)
  unrestricted : authorized.obligations.isEmpty = true
  tenant : asked.tenantId = principal.tenantId
  caller : asked.principalId = some principal.id
  location : LoadedAt h ⟨asked.namespc, asked.tableName⟩ asked.tableLocation
  managed : ∃ warehouse, ⟨.store (.warehouseFor asked.namespc), .ok (some warehouse)⟩ ∈ h ∧
    isWithin warehouse asked.tableLocation = true
  supported : app.supportsLocation asked.tableLocation = true

/-- What every call of a handler meets. -/
def Call.Mediated (h : Past d) : Call d → Prop
  | .store call => V1.Mediated app principal request h call
  | .write _ => True
  | .vendCredentials asked => ∃ authorized, Vended app principal request h asked authorized

end

/-! ## Storage access -/

section

variable {P : Past d → Call d → Prop} {app : AppState} {h : Past d}

/-- What has been decided when the provider is asked for a credential. -/
structure VendDecided (app : AppState) (authorized : Authorized) (target : CredentialTarget)
    (h : Past d) (asked : StorageCredentialRequest) : Prop where
  unrestricted : authorized.obligations.isEmpty = true
  about : asked = ⟨authorized.context.principal.tenantId, target.namespc, target.tableName,
    target.location, asked.writeAccess, some authorized.context.principal.id⟩
  width : target.access = .fromPolicy → asked.writeAccess = true →
    (app.authorizer.decide (authorized.context.forAction .update)).isAllowed = true ∧
      Recorded app (authorized.context.forAction .update) h
  managed : ∃ warehouse, ⟨.store (.warehouseFor target.namespc), .ok (some warehouse)⟩ ∈ h ∧
    isWithin warehouse target.location = true
  supported : app.supportsLocation target.location = true

/-- A write credential that is given out is on record, where a lost record refuses. -/
def VendRecorded (app : AppState) (authorized : Authorized) (h : Past d) (writes : Bool) : Prop :=
  writes = true → app.failClosed = true →
    ⟨.write (.credentialVend (credentialEvent authorized (accessOf (some true)) .success none)),
      .ok ()⟩ ∈ h

theorem Recorded.mono {context : AuthzContext} {h' : Past d} (hrecorded : Recorded app context h)
    (hle : h <+: h') : Recorded app context h' :=
  fun hmutating hallowed hclosed => hle.subset (hrecorded hmutating hallowed hclosed)

theorem VendDecided.mono {authorized : Authorized} {target : CredentialTarget} {h' : Past d}
    {asked : StorageCredentialRequest} (hdecided : VendDecided app authorized target h asked)
    (hle : h <+: h') : VendDecided app authorized target h' asked := by
  obtain ⟨hempty, habout, hwidth, ⟨warehouse, hread, hwithin⟩, hsupported⟩ := hdecided
  refine ⟨hempty, habout, fun hpolicy hwrites => ?_, ⟨warehouse, hle.subset hread, hwithin⟩,
    hsupported⟩
  obtain ⟨hallowed, hrecorded⟩ := hwidth hpolicy hwrites
  exact ⟨hallowed, hrecorded.mono hle⟩

theorem writeAccessFor_ends (hP : Spares P) (authorized : Authorized) (access : AccessLevel) :
    Prog.Traced P (Ends fun h' writes => access = .fromPolicy → writes = true →
        (app.authorizer.decide (authorized.context.forAction .update)).isAllowed = true ∧
          Recorded app (authorized.context.forAction .update) h') h
      (writeAccessFor app authorized access : Served d Bool).run := by
  cases access with
  | write =>
      refine Ends.ret fun hpolicy => ?_
      cases hpolicy
  | fromPolicy =>
      refine Ends.mono (alsoPermits_ends hP authorized .update) fun h' writes hwrites _ htrue => ?_
      exact ⟨hwrites.1.symm.trans htrue, hwrites.2⟩

theorem recordVend_ends (hP : Spares P) (authorized : Authorized) (outcome : Delegated d)
    (writes : Option Bool) :
    Prog.Traced P (Ends fun h' _ => ∀ credentials, outcome = .granted credentials →
        VendRecorded app authorized h' (writes = some true)) h
      (recordVend app authorized outcome writes : Served d Unit).run := by
  unfold recordVend
  cases outcome with
  | none =>
      refine Ends.ret fun credentials hnone => ?_
      cases hnone
  | withheld reason =>
      refine Ends.mono (recordLossy_ends hP _) fun _ _ _ credentials hwithheld => ?_
      cases hwithheld
  | failed reason =>
      refine Ends.mono (recordLossy_ends hP _) fun _ _ _ credentials hfailed => ?_
      cases hfailed
  | granted given =>
      dsimp only
      split
      next hwrites =>
        refine Ends.bind (record_ends hP _) fun h' r hrecorded => ?_
        cases r with
        | ok accepted =>
            refine Ends.ret fun _ _ _ hclosed => ?_
            rw [← hwrites]
            exact hrecorded rfl hclosed
        | error e => exact Ends.fail _
      next hreads =>
        refine Ends.mono (recordLossy_ends hP _) fun _ _ _ _ _ hwrites => ?_
        exact absurd (of_decide_eq_true hwrites) hreads

/-- A credential comes of an exchange, and the exchange of a decision. -/
theorem vendTableCredentials_ends (hP : Spares P) (authorized : Authorized)
    (target : CredentialTarget) (delegation : AccessDelegation)
    (hvend : ∀ h' asked, h <+: h' → VendDecided app authorized target h' asked →
      P h' (.vendCredentials asked)) :
    Prog.Traced P (Ends fun h' outcome => ∀ credentials, outcome = .granted credentials →
        ∃ asked, ⟨.vendCredentials asked, .ok credentials⟩ ∈ h' ∧
          VendDecided app authorized target h' asked ∧
            VendRecorded app authorized h' asked.writeAccess) h
      (vendTableCredentials app authorized target delegation : Served d (Delegated d)).run := by
  unfold vendTableCredentials
  split
  · refine Ends.ret fun credentials hnone => ?_
    cases hnone
  split
  · refine Ends.bind (recordVend_ends hP _ _ _) fun h' _ _ => ?_
    refine Ends.ret fun credentials hwithheld => ?_
    cases hwithheld
  next hempty =>
    rw [Bool.not_eq_true', Bool.not_eq_false] at hempty
    refine Ends.checked fun ns hns => ?_
    have heq : ns = target.namespc := by
      have hvec := mapError_eq_ok hns
      unfold NamespaceIdent.fromVec at hvec
      split at hvec
      · cases hvec
      · exact (Except.ok.inj hvec).symm
    subst heq
    refine Ends.after (managesStorageFor_ends hP _ _) fun h₁ managed hle₁ hmanaged => ?_
    split
    · refine Ends.ret fun credentials hnone => ?_
      cases hnone
    next hboth =>
      rw [Bool.or_eq_true, not_or, Bool.not_eq_true', Bool.not_eq_false, Bool.not_eq_true',
        Bool.not_eq_false] at hboth
      refine Ends.after (writeAccessFor_ends hP authorized target.access)
        fun h₂ writes hle₂ hwidth => ?_
      obtain ⟨warehouse, hread, hwithin⟩ := hmanaged hboth.1
      have hdecided : VendDecided app authorized target h₂ ⟨authorized.context.principal.tenantId,
          target.namespc, target.tableName, target.location, writes,
          some authorized.context.principal.id⟩ :=
        ⟨hempty, rfl, hwidth, ⟨warehouse, hle₂.subset hread, hwithin⟩, hboth.2⟩
      refine ⟨hvend h₂ _ (hle₁.trans hle₂) hdecided, fun answer => ?_⟩
      refine Ends.after (recordVend_ends hP _ _ _) fun h₃ _ hle₃ hvended => ?_
      refine Ends.ret fun credentials hgranted => ?_
      have hrecorded : VendRecorded app authorized h₃ writes := fun hwrites =>
        hvended credentials hgranted (by rw [hwrites]; rfl)
      have hdecided := hdecided.mono ((List.prefix_append _ _).trans hle₃)
      cases answer with
      | error e => cases hgranted
      | ok given =>
          cases given with
          | nil => cases hgranted
          | cons c cs =>
              cases hgranted
              exact ⟨_, hle₃.subset (List.mem_append_right _ (List.mem_singleton_self _)), hdecided,
                hrecorded⟩

theorem Passed.mono {principal : Principal} {request : RequestContext} {ns : NamespaceIdent}
    {target : Target} {action : Auth.Action} {h' : Past d}
    (hpassed : Passed app principal request h ns target action) (hle : h <+: h') :
    Passed app principal request h' ns target action := by
  obtain ⟨authorized, hgranted⟩ := hpassed
  exact ⟨authorized, hgranted.mono hle⟩

theorem PassedNew.mono {principal : Principal} {request : RequestContext}
    {resource : Auth.Resource} {action : Auth.Action} {h' : Past d}
    (hpassed : PassedNew app principal request h resource action) (hle : h <+: h') :
    PassedNew app principal request h' resource action :=
  ⟨hpassed.1, hpassed.2.mono hle⟩

theorem LoadedAt.mono {table : TableIdent} {location : Text} {h' : Past d}
    (hloaded : LoadedAt h table location) (hle : h <+: h') : LoadedAt h' table location := by
  obtain ⟨loaded, hlocation, hseen⟩ := hloaded
  refine ⟨loaded, hlocation, ?_⟩
  rcases hseen with hload | hregistered | hcreated
  · exact .inl (hle.subset hload)
  · obtain ⟨metadataLocation, hregistered⟩ := hregistered
    exact .inr (.inl ⟨metadataLocation, hle.subset hregistered⟩)
  · obtain ⟨creation, hname, hcreated⟩ := hcreated
    exact .inr (.inr ⟨creation, hname, hcreated.imp (hle.subset ·) (hle.subset ·)⟩)

end

/-! ## What an answer shows -/

section

variable (app : AppState) (principal : Principal) (request : RequestContext)

/-- The owner the store has given for a namespace. -/
def OwnedBy (h : Past d) (ns : NamespaceIdent) (owner : Text) : Prop :=
  ∃ namespc : Namespace, ⟨.store (.getNamespace ns), .ok namespc⟩ ∈ h ∧
    ownerOf namespc.properties = some owner

/-- A credential for a table that the provider has given out to this request, as it was
decided. -/
def GivenOut (h : Past d) (table : TableIdent) (credentials : List d.Credential) : Prop :=
  ∃ asked authorized, ⟨.vendCredentials asked, .ok credentials⟩ ∈ h ∧
    asked.namespc = table.namespc ∧ asked.tableName = table.name ∧
    Vended app principal request h asked authorized ∧
      VendRecorded app authorized h asked.writeAccess

/-- A table is handed out with the access that was decided on, and no other. -/
structure HandedOut (h : Past d) (table : TableIdent) (response : LoadTableResponse d) : Prop where
  credentials : ∀ credentials, response.storageCredentials = some credentials →
    GivenOut app principal request h table credentials
  signing : ∀ config, response.remoteSigningConfig = some config →
    ∃ action authorized,
      Granted app principal request table.namespc (.table table.name) action h authorized ∧
        authorized.obligations.isEmpty = true ∧
          config = signingConfigFor table.namespc table.name

/-- The caller may read what is at a place, as its namespace's recorded owner has it. -/
def MaySee (h : Past d) (ns : NamespaceIdent) (place : NamespaceIdent) (target : Target) : Prop :=
  ∃ owner, OwnedBy h ns owner ∧ canSee app principal request owner place target = true

/-- A table or a view that is listed is one which the store has listed under the namespace
that was asked for, and visible there. -/
def ListedIdent (h : Past d) (ident : TableIdent) : CatalogRequest v → Prop
  | .listTables ns _ =>
      (∃ page, ∃ answer : Page TableIdent, ⟨.store (.listTables ns page), .ok answer⟩ ∈ h ∧
        ∃ entry ∈ answer.entries, entry.item = ident) ∧
      MaySee app principal request h ns ident.namespc (.table ident.name)
  | .listViews ns _ =>
      (∃ page, ∃ answer : Page TableIdent, ⟨.store (.listViews ns page), .ok answer⟩ ∈ h ∧
        ∃ entry ∈ answer.entries, entry.item = ident) ∧
      MaySee app principal request h ns ident.namespc (.view ident.name)
  | _ => False

/-- A namespace that is shown is the one that was asked for, read once the caller was let
through to read it, or the one that was just created. -/
def ShownNamespace (h : Past d) (namespc : Namespace) : CatalogRequest v → Prop
  | .getNamespace ns => Passed app principal request h ns .namespc .read ∧
      ∃ stored : Namespace, ⟨.store (.getNamespace ns), .ok stored⟩ ∈ h ∧
        namespc = Namespace.shown stored
  | .createNamespace _ payload => ∃ properties, ∃ stored : Namespace,
      ⟨.store (.createNamespace payload.namespc properties), .ok stored⟩ ∈ h ∧
        namespc = Namespace.shown stored
  | _ => False

/-- What an answer to a request shows: of a listing what the caller may read, of a namespace
what is not reserved, with a table only the access that was decided on. -/
def Disclosed (r : CatalogRequest v) (h : Past d) : Reply d → Prop
  | .namespaces page => ∃ parent, r.parent = some parent ∧ ∀ ns ∈ page.items,
      ListedUnder h parent ns ∧ MaySee app principal request h ns ns .namespc
  | .identifiers page => ∀ ident ∈ page.items, ListedIdent app principal request h ident r
  | .namespc namespc => ShownNamespace app principal request h namespc r ∧
      ∀ key ∈ namespc.properties, isReserved key = false
  | .loaded response _ =>
      ∃ table, r.about = some table ∧ HandedOut app principal request h table response
  | .credentials credentials =>
      ∃ table, r.about = some table ∧ GivenOut app principal request h table credentials
  | _ => True

end

end Rustberg.V1
