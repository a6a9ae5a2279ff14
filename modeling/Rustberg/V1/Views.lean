import Rustberg.V1.Tables

/-!
# The view handlers

`catalog/v1/view.rs`. A view commit applies the client's updates in the
handler and hands the store finished metadata, with the location of the
metadata it started from.
-/

namespace Rustberg.V1

open Process Auth Api

variable {ib : Iceberg} {d : Crates ib}

/-- The variants of `ViewUpdate` the catalog tells apart. -/
inductive ViewUpdate (Other : Type) where
  | setLocation (location : Text)
  | other (u : Other)

/-- A `ViewCreation`; the schema, the representations and the default
namespace are its `parts`. -/
structure ViewCreation (Parts : Type) where
  name : Text
  location : Text
  parts : Parts
  properties : Properties

/-- What the handlers use of the crate's views. -/
structure ViewCrate (d : Crates ib) where
  Parts : Type
  Builder : Type
  /-- `ViewMetadataBuilder::from_view_creation(creation)?.build()?.metadata` -/
  fromViewCreation : ViewCreation Parts → Except AppError ib.ViewMetadata
  /-- `metadata.uuid()`, in its canonical form. -/
  uuid : ib.ViewMetadata → Text
  /-- `Uuid::parse_str`, read back in its canonical form. -/
  parseUuid : Text → Option Text
  intoBuilder : ib.ViewMetadata → Builder
  /-- `apply_view_update` -/
  apply : ViewUpdate d.OtherViewUpdate → Builder → Except AppError Builder
  build : Builder → Except AppError ib.ViewMetadata

variable {v : ViewCrate d}

/-- Of a view's location, what `ensure_commit` asks of a table's. -/
def ensureViewCommit {O : Type} (bound : LocationBound) (current : Text)
    (updates : List (ViewUpdate O)) : Except Error Unit :=
  updates.forM fun
    | .setLocation location =>
        if !isWithin bound.root location && !isWithin current location then
          .error ⟨.dataInvalid, bound.explain location⟩
        else .ok ()
    | .other _ => .ok ()

structure CreateViewPayload (v : ViewCrate d) where
  name : Text
  location : Option Text
  properties : Option Properties
  /-- What the schema, the representations and the default namespace build. -/
  parts : Except AppError v.Parts

/-- `ViewRequirement::AssertViewUuid`, the only one. -/
structure ViewRequirement where
  uuid : Text

structure CommitViewRequest (d : Crates ib) where
  identifier : Option TableIdent
  requirements : List ViewRequirement
  updates : List (ViewUpdate d.OtherViewUpdate)

def checkViewRequirement (v : ViewCrate d) (current : ib.ViewMetadata)
    (requirement : ViewRequirement) : Except AppError Unit :=
  match v.parseUuid requirement.uuid with
  | none => .error (.badRequest (['\''] ++ requirement.uuid ++ "' is not a UUID.".toList))
  | some expected =>
      if v.uuid current ≠ expected then
        .error (.commitConflict ("View UUID mismatch: expected ".toList ++ expected ++
          ", found ".toList ++ v.uuid current))
      else .ok ()

/-- The client's updates over the current metadata. -/
def applyViewUpdates (v : ViewCrate d) (current : ib.ViewMetadata)
    (updates : List (ViewUpdate d.OtherViewUpdate)) : Except AppError ib.ViewMetadata := do
  let builder ← updates.foldlM (fun builder update => v.apply update builder)
    (v.intoBuilder current)
  v.build builder

section Handlers

variable (u : UnicodeData) (b64 : Base64) (app : AppState) (principal : Principal)
  (request : RequestContext)

def listViews (ns : NamespaceIdent) (query : PaginationQuery) : Served d (Reply d) := do
  let authorized ← authorize app principal request ns .namespc .list
  let page ← collectPage b64
    (fun ident => return (canSee app principal request authorized.owner ident.namespc
      (.view ident.name), ident))
    (fun page => call (.listViews ns page)) (← pageRequest b64 query)
  return .identifiers page

/-- A client-supplied location is confined; the default is the canonical prefix. -/
def viewLocation (ns : NamespaceIdent) (name : Text) : Option Text → Served d Text
  | some location => do
      let bound ← app.locationBound ns name
      check (bound.ensure location)
      return location
  | none => do
      let warehouse ← app.warehouseFor ns
      return canonicalPrefix warehouse ns name

def createView (ns : NamespaceIdent) (cached : Option Text) (payload : CreateViewPayload v) :
    Served d (Reply d) := do
  check (validateTableName u payload.name)
  check (payload.properties.elim (.ok ()) validateProperties)
  -- Authorized against the view, not its namespace.
  let _ ← authorize app principal request ns (.view payload.name) .create
  match cached with
  | some body => return .cached body
  | none => do
      let parts ← check payload.parts
      let location ← viewLocation app ns payload.name payload.location
      let metadata ← check (v.fromViewCreation
        ⟨payload.name, location, parts, payload.properties.getD ∅⟩)
      let (metadataLocation, metadata) ← call (.createView ⟨ns, payload.name⟩ metadata)
      return .view metadataLocation metadata

def loadView (view : TableIdent) : Served d (Reply d) := do
  let _ ← authorize app principal request view.namespc (.view view.name) .read
  let (metadataLocation, metadata) ← call (.loadView view)
  return .view metadataLocation metadata

def viewExists (view : TableIdent) : Served d (Reply d) := do
  let _ ← authorize app principal request view.namespc (.view view.name) .read
  if ← call (.viewExists view) then return .ok
  else check (.error (.noSuchView view.display))

def dropView (view : TableIdent) : Served d (Reply d) := do
  let _ ← authorize app principal request view.namespc (.view view.name) .delete
  let (_, metadata) ← call (.loadView view)
  check (rejectIfProtected (d.viewProperties metadata)
    ("View '".toList ++ view.display ++ ['\'']))
  call (.dropView view)
  return .ok

def commitView (v : ViewCrate d) (view : TableIdent) (cached : Option Text)
    (payload : CommitViewRequest d) : Served d (Reply d) := do
  check (checkIdentifier "view" view payload.identifier)
  let _ ← authorize app principal request view.namespc (.view view.name) .update
  match cached with
  | some body => return .cached body
  | none => do
      -- The location is the compare-and-swap witness.
      let (currentLocation, current) ← call (.loadView view)
      let bound ← app.locationBound view.namespc view.name
      check ((ensureViewCommit bound (ib.viewLocation current) payload.updates).mapError
        AppError.fromIceberg)
      check (payload.requirements.forM (checkViewRequirement v current))
      let metadata ← check (applyViewUpdates v current payload.updates)
      let (metadataLocation, metadata) ← call (.updateView view currentLocation metadata)
      return .view metadataLocation metadata

def renameView (payload : RenamePayload) : Served d (Reply d) := do
  check (validateNamespace u payload.source.namespc)
  check (validateTableName u payload.source.name)
  check (validateNamespace u payload.destination.namespc)
  check (validateTableName u payload.destination.name)
  authorizeRename app principal request .view payload
    "Cannot move views between namespaces owned by different tenants".toList
  call (.renameView payload.source payload.destination)
  return .ok

/-- A view registered and then found to lie outside is unregistered again. -/
def confineRegistered (view : TableIdent) (location : Text) : Served d Unit := do
  let bound ← app.locationBound view.namespc view.name
  match bound.ensure location with
  | .ok () => return ()
  | .error rejected => do
      let _ ← attempt (.dropView view)
      check (.error rejected)

def registerView (ns : NamespaceIdent) (payload : RegisterTablePayload) : Served d (Reply d) := do
  check (validateTableName u payload.name)
  let bound ← app.locationBound ns payload.name
  check (bound.ensure payload.metadataLocation)
  let _ ← authorize app principal request ns (.view payload.name) .create
  let (metadataLocation, metadata) ← call
    (.registerView ⟨ns, payload.name⟩ payload.metadataLocation)
  confineRegistered app ⟨ns, payload.name⟩ (ib.viewLocation metadata)
  return .view metadataLocation metadata

end Handlers

end Rustberg.V1
