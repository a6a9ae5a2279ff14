import Rustberg.Api.Ownership
import Rustberg.Catalog.Store
import Rustberg.Names

/-!
# The federated catalog

`catalog/federated.rs`: a catalog that routes by top-level namespace. What
a backend is asked is a `StoreCall`, one constructor for each method of
`CatalogStore`, and an operation of the federated catalog is a program over
the calls it makes to its backends, the native one and one for each mount.
A `Mount` is what the configuration says of it.
-/

namespace Rustberg

open Process

variable {ib : Iceberg}

/-! ## What a backend is asked -/

/-- The crate's `Namespace`. -/
structure Namespace where
  name : NamespaceIdent
  properties : Properties

structure StorageHealthStatus where
  backendType : Text
  healthy : Bool
  latencyMs : Nat
  message : Option Text

structure Capabilities where
  write : Bool
  views : Bool
  multiTableCommit : Bool
  register : Bool
  stageCreate : Bool
  purge : Bool
  scanPlanning : Bool
  deriving DecidableEq

inductive Capability where
  | write
  | views
  | multiTableCommit
  | register
  | stageCreate
  | purge
  | scanPlanning

def Capability.presentIn (capability : Capability) (capabilities : Capabilities) : Bool :=
  match capability with
  | .write => capabilities.write
  | .views => capabilities.views
  | .multiTableCommit => capabilities.multiTableCommit
  | .register => capabilities.register
  | .stageCreate => capabilities.stageCreate
  | .purge => capabilities.purge
  | .scanPlanning => capabilities.scanPlanning

def Capability.describe : Capability → Text
  | .write => "writing".toList
  | .views => "views".toList
  | .multiTableCommit => "multi-table transactions".toList
  | .register => "registering existing tables".toList
  | .stageCreate => "staged table creation".toList
  | .purge => "purging table data".toList
  | .scanPlanning => "server-side scan planning".toList

/-- The methods of `CatalogStore`. -/
inductive StoreCall (ib : Iceberg) where
  | listNamespaces (parent : Option NamespaceIdent) (page : PageRequest)
  | createNamespace (ns : NamespaceIdent) (properties : Properties)
  | getNamespace (ns : NamespaceIdent)
  | namespaceExists (ns : NamespaceIdent)
  | updateNamespace (ns : NamespaceIdent) (properties : Properties)
  | dropNamespace (ns : NamespaceIdent)
  | listTables (ns : NamespaceIdent) (page : PageRequest)
  | createTable (ns : NamespaceIdent) (creation : ib.Creation)
  | stageCreateTable (ns : NamespaceIdent) (creation : ib.Creation)
  | metadataPointer (table : TableIdent)
  | loadTable (table : TableIdent)
  | tableExists (table : TableIdent)
  | registerTable (table : TableIdent) (metadataLocation : Text)
  | commitTable (change : ib.TableChange)
  | commitTablesAtomic (commits : List ib.TableChange)
  | renameTable (src dest : TableIdent)
  | dropTable (table : TableIdent)
  | purgeTable (table : TableIdent)
  | listViews (ns : NamespaceIdent) (page : PageRequest)
  | viewExists (view : TableIdent)
  | loadView (view : TableIdent)
  | registerView (view : TableIdent) (metadataLocation : Text)
  | createView (view : TableIdent) (metadata : ib.ViewMetadata)
  | updateView (view : TableIdent) (expected : Text) (metadata : ib.ViewMetadata)
  | dropView (view : TableIdent)
  | renameView (src dest : TableIdent)
  | warehouseFor (ns : NamespaceIdent)
  | namespacePrefixFor (ns : NamespaceIdent)
  | capabilitiesFor (ns : Option NamespaceIdent)
  | storageHealthCheck

namespace StoreCall

abbrev Payload : StoreCall ib → Type
  | listNamespaces .. => Page NamespaceIdent
  | createNamespace .. => Namespace
  | getNamespace _ => Namespace
  | namespaceExists _ => Bool
  | updateNamespace .. => Unit
  | dropNamespace _ => Unit
  | listTables .. => Page TableIdent
  | createTable .. => Table ib
  | stageCreateTable .. => Table ib
  | metadataPointer _ => Option Text
  | loadTable _ => Table ib
  | tableExists _ => Bool
  | registerTable .. => Table ib
  | commitTable _ => Table ib
  | commitTablesAtomic _ => List (Table ib)
  | renameTable .. => Unit
  | dropTable _ => Unit
  | purgeTable _ => Unit
  | listViews .. => Page TableIdent
  | viewExists _ => Bool
  | loadView _ => Text × ib.ViewMetadata
  | registerView .. => Text × ib.ViewMetadata
  | createView .. => Text × ib.ViewMetadata
  | updateView .. => Text × ib.ViewMetadata
  | dropView _ => Unit
  | renameView .. => Unit
  | warehouseFor _ => Option Text
  | namespacePrefixFor _ => Option Text
  | capabilitiesFor _ => Capabilities
  | storageHealthCheck => StorageHealthStatus

/-- The last calls but the health check answer no error. -/
abbrev Answer (call : StoreCall ib) : Type := Except Error call.Payload

end StoreCall

/-- A backend: the catalog underneath, or the one behind a mount. -/
inductive Site where
  | native
  | mount (name : Text)
  deriving DecidableEq

/-- A call to one backend. -/
structure Asked (ib : Iceberg) where
  site : Site
  call : StoreCall ib

abbrev Asked.Answer (asked : Asked ib) : Type := asked.call.Answer

/-- An operation of the federated catalog: calls to backends in order, ending at
the first error. -/
abbrev Federated (ib : Iceberg) (α : Type) : Type := ExceptT Error (Prog (Asked ib) Asked.Answer) α

def ask (site : Site) (call : StoreCall ib) : Federated ib call.Payload :=
  ExceptT.mk (.perform ⟨site, call⟩ .done)

/-- A pure step that may fail. -/
def decided {α : Type} (r : Except Error α) : Federated ib α := ExceptT.mk (.done r)

/-! ## Mounts -/

structure Mount where
  name : Text
  capabilities : Capabilities
  owner : Text
  warehouse : Option Text

/-- A name that survives as a namespace segment. -/
def MountName (name : Text) : Prop :=
  name.trim ≠ [] ∧ partSeparator ∉ name ∧ nameSeparator ∉ name

/-- The mounts, each under its own name. -/
structure FederatedCatalog where
  mounts : Relation Mount
  valid : ∀ name mount, mounts[name]? = some mount → mount.name = name ∧ MountName name

namespace FederatedCatalog

def empty : FederatedCatalog where
  mounts := ∅
  valid _ _ h := by simp at h

def addMount (f : FederatedCatalog) (mount : Mount) : Except Error FederatedCatalog :=
  if hname : mount.name.trim = [] then
    .error ⟨.dataInvalid, "A mount name must not be empty".toList⟩
  else if hsep : partSeparator ∈ mount.name ∨ nameSeparator ∈ mount.name then
    .error ⟨.dataInvalid, "Mount name '".toList ++ mount.name ++
      "' contains a reserved separator".toList⟩
  else if mount.name ∈ f.mounts then
    .error ⟨.dataInvalid, "Two mounts are both named '".toList ++ mount.name ++ ['\'']⟩
  else
    .ok {
      mounts := f.mounts.insert mount.name mount
      valid := fun name mount' h => by
        rw [Relation.getElem?_insert] at h
        split at h
        · next heq =>
            cases h
            subst heq
            exact ⟨rfl, hname, fun h => hsep (Or.inl h), fun h => hsep (Or.inr h)⟩
        · exact f.valid name mount' h }

def new (mounts : List Mount) : Except Error FederatedCatalog := mounts.foldlM addMount empty

end FederatedCatalog

/-- Where a request goes: the native catalog with names unchanged, or a mount
with its prefix stripped. -/
inductive Routed where
  | native
  | mounted (mount : Mount) (inner : List Text)

namespace FederatedCatalog

variable (f : FederatedCatalog)

def route (ns : NamespaceIdent) : Routed :=
  match ns with
  | [] => .native
  | first :: inner =>
      match f.mounts[first]? with
      | some mount => .mounted mount inner
      | none => .native

/-- `FederatedCatalog::require` -/
def require (mount : Mount) (capability : Capability) : Except Error Unit :=
  if capability.presentIn mount.capabilities then .ok ()
  else .error ⟨.featureUnsupported, "Mount '".toList ++ mount.name ++
    "' does not support ".toList ++
    capability.describe ++
    ". It is served by a backend that cannot perform this operation, ".toList ++
    "so it is refused rather than partially applied.".toList⟩

def prefixed (mount : Mount) (inner : NamespaceIdent) : Except Error NamespaceIdent :=
  NamespaceIdent.fromVec (mount.name :: inner)

def prefixedIdent (mount : Mount) (inner : TableIdent) : Except Error TableIdent := do
  let ns ← prefixed mount inner.namespc
  return ⟨ns, inner.name⟩

/-- The namespace a mount is asked about, refusing the mount root. -/
def innerNamespace (inner : List Text) : Except Error NamespaceIdent :=
  if inner = [] then
    .error ⟨.dataInvalid, "A mount root is not a namespace: tables and views live in ".toList ++
      "namespaces inside it, so create one first.".toList⟩
  else NamespaceIdent.fromVec inner

def innerIdent (inner : List Text) (name : Text) : Except Error TableIdent := do
  let ns ← innerNamespace inner
  return ⟨ns, name⟩

def prefixedTable (mount : Mount) (table : Table ib) : Except Error (Table ib) := do
  let ident ← prefixedIdent mount table.ident
  return { table with ident := ident }

/-- The namespace a mount root resolves to. -/
def mountRoot (mount : Mount) : Except Error Namespace := do
  let name ← NamespaceIdent.fromVec [mount.name]
  return ⟨name, (Api.setOwner ∅ mount.owner).insert "rustberg.mount".toList mount.name⟩

/-- The mount's owner over whatever the backend recorded. -/
def own (mount : Mount) (ns : Namespace) : Namespace :=
  ⟨ns.name, Api.setOwner ns.properties mount.owner⟩

/-- A namespace of a mount's backend, with the prefix back and the mount's owner. -/
def ownPrefixed (mount : Mount) (ns : Namespace) : Except Error Namespace := do
  let name ← prefixed mount ns.name
  return own mount ⟨name, ns.properties⟩

/-- The entries of a mount's page, each with the prefix back. -/
def prefixedPage {α : Type} (back : α → Except Error α) (page : Page α) :
    Except Error (Page α) := do
  let entries ← page.entries.mapM fun entry => do
    let item ← back entry.item
    return (⟨entry.cursor, item⟩ : Entry α)
  return ⟨entries, page.next⟩

/-! ## The root listing -/

end FederatedCatalog

/-- `ROOT_CURSOR_SEP` -/
def rootCursorSep : Char := Char.ofNat 0x1D

/-- A position in the root listing, by phase. -/
inductive RootCursor where
  | mounts (after : Option Text)
  | native (after : Option Text)
  deriving DecidableEq

namespace RootCursor

def parse (cursor : Option Text) : RootCursor :=
  match cursor.bind (Text.splitOnce rootCursorSep) with
  | none => .mounts none
  | some (tag, rest) =>
      let after := if rest = [] then none else some rest
      if tag = ['m'] then .mounts after
      else if tag = ['n'] then .native after
      else .mounts none

/-- Where the native listing goes on: falling out of the mounts starts it. -/
def nativeAfter : RootCursor → Option Text
  | mounts _ => none
  | native after => after

def mountToken (name : Text) : Text := 'm' :: rootCursorSep :: name

def nativeToken (cursor : Text) : Text := 'n' :: rootCursorSep :: cursor

end RootCursor

namespace FederatedCatalog

variable (f : FederatedCatalog)

/-- The mounts after `after`, at most `limit` of them, by name. -/
def mountEntries (after : Option Text) (limit : Nat) : List (Entry NamespaceIdent) :=
  ((f.mounts.keys.filter fun name => after.all (· < name)).take limit).map fun name =>
    ⟨RootCursor.mountToken name, [name]⟩

def rootEntries (resume : RootCursor) (limit : Nat) : List (Entry NamespaceIdent) :=
  match resume with
  | .mounts after => f.mountEntries after limit
  | .native _ => []

def shadows (ns : NamespaceIdent) : Bool := ns.head?.any fun first => f.mounts.contains first

def listRoot (page : PageRequest) : Federated ib (Page NamespaceIdent) :=
  let limit := page.effectiveLimit
  let resume := RootCursor.parse page.after
  let entries := f.rootEntries resume limit
  if limit ≤ entries.length then
    -- Whether anything follows is for the next call to say.
    pure ⟨entries, entries.getLast?.map Entry.cursor⟩
  else do
    let native ← ask .native (.listNamespaces none ⟨resume.nativeAfter, limit - entries.length⟩)
    let shown := (native.entries.filter fun entry => !f.shadows entry.item).map fun entry =>
      ⟨RootCursor.nativeToken entry.cursor, entry.item⟩
    return ⟨entries ++ shown, native.next.map RootCursor.nativeToken⟩

/-! ## Namespaces -/

def listNamespaces (parent : Option NamespaceIdent) (page : PageRequest) :
    Federated ib (Page NamespaceIdent) :=
  match parent with
  | none => f.listRoot page
  | some parent =>
      match f.route parent with
      | .native => ask .native (.listNamespaces (some parent) page)
      | .mounted mount inner => do
          let innerParent ← decided
            (if inner = [] then .ok none else (NamespaceIdent.fromVec inner).map some)
          let page ← ask (.mount mount.name) (.listNamespaces innerParent page)
          decided (prefixedPage (prefixed mount) page)

def createNamespace (ns : NamespaceIdent) (properties : Properties) : Federated ib Namespace :=
  match f.route ns with
  | .native => ask .native (.createNamespace ns properties)
  | .mounted mount inner => do
      decided (require mount .write)
      if inner = [] then
        throw ⟨.namespaceAlreadyExists, '\'' :: mount.name ++
          "' is a mount and always exists".toList⟩
      else do
        let innerNs ← decided (NamespaceIdent.fromVec inner)
        let created ← ask (.mount mount.name) (.createNamespace innerNs properties)
        decided (ownPrefixed mount created)

def getNamespace (ns : NamespaceIdent) : Federated ib Namespace :=
  match f.route ns with
  | .native => ask .native (.getNamespace ns)
  | .mounted mount inner =>
      if inner = [] then decided (mountRoot mount)
      else do
        let innerNs ← decided (NamespaceIdent.fromVec inner)
        let found ← ask (.mount mount.name) (.getNamespace innerNs)
        decided (ownPrefixed mount found)

def namespaceExists (ns : NamespaceIdent) : Federated ib Bool :=
  match f.route ns with
  | .native => ask .native (.namespaceExists ns)
  | .mounted mount inner =>
      if inner = [] then pure true
      else do
        let innerNs ← decided (NamespaceIdent.fromVec inner)
        ask (.mount mount.name) (.namespaceExists innerNs)

def updateNamespace (ns : NamespaceIdent) (properties : Properties) : Federated ib Unit :=
  match f.route ns with
  | .native => ask .native (.updateNamespace ns properties)
  | .mounted mount inner => do
      decided (require mount .write)
      if inner = [] then
        throw ⟨.featureUnsupported, '\'' :: mount.name ++
          "' is a mount root; its properties are configuration, not catalog state".toList⟩
      else do
        let innerNs ← decided (NamespaceIdent.fromVec inner)
        ask (.mount mount.name) (.updateNamespace innerNs properties)

def dropNamespace (ns : NamespaceIdent) : Federated ib Unit :=
  match f.route ns with
  | .native => ask .native (.dropNamespace ns)
  | .mounted mount inner => do
      decided (require mount .write)
      if inner = [] then
        throw ⟨.featureUnsupported, '\'' :: mount.name ++
          "' is a mount and cannot be dropped through the API; remove it from ".toList ++
          "configuration instead".toList⟩
      else do
        let innerNs ← decided (NamespaceIdent.fromVec inner)
        ask (.mount mount.name) (.dropNamespace innerNs)

/-! ## Tables -/

def listTables (ns : NamespaceIdent) (page : PageRequest) : Federated ib (Page TableIdent) :=
  match f.route ns with
  | .native => ask .native (.listTables ns page)
  | .mounted mount inner =>
      if inner = [] then pure ⟨[], none⟩
      else do
        let innerNs ← decided (NamespaceIdent.fromVec inner)
        let page ← ask (.mount mount.name) (.listTables innerNs page)
        decided (prefixedPage (prefixedIdent mount) page)

def createTable (ns : NamespaceIdent) (creation : ib.Creation) : Federated ib (Table ib) :=
  match f.route ns with
  | .native => ask .native (.createTable ns creation)
  | .mounted mount inner => do
      decided (require mount .write)
      let innerNs ← decided (innerNamespace inner)
      let table ← ask (.mount mount.name) (.createTable innerNs creation)
      decided (prefixedTable mount table)

def stageCreateTable (ns : NamespaceIdent) (creation : ib.Creation) : Federated ib (Table ib) :=
  match f.route ns with
  | .native => ask .native (.stageCreateTable ns creation)
  | .mounted mount inner => do
      decided (require mount .stageCreate)
      let innerNs ← decided (innerNamespace inner)
      let table ← ask (.mount mount.name) (.stageCreateTable innerNs creation)
      decided (prefixedTable mount table)

def metadataPointer (table : TableIdent) : Federated ib (Option Text) :=
  match f.route table.namespc with
  | .native => ask .native (.metadataPointer table)
  | .mounted mount inner => do
      let ident ← decided (innerIdent inner table.name)
      ask (.mount mount.name) (.metadataPointer ident)

def loadTable (table : TableIdent) : Federated ib (Table ib) :=
  match f.route table.namespc with
  | .native => ask .native (.loadTable table)
  | .mounted mount inner => do
      let ident ← decided (innerIdent inner table.name)
      let loaded ← ask (.mount mount.name) (.loadTable ident)
      decided (prefixedTable mount loaded)

def tableExists (table : TableIdent) : Federated ib Bool :=
  match f.route table.namespc with
  | .native => ask .native (.tableExists table)
  | .mounted mount inner => do
      let ident ← decided (innerIdent inner table.name)
      ask (.mount mount.name) (.tableExists ident)

def registerTable (table : TableIdent) (metadataLocation : Text) : Federated ib (Table ib) :=
  match f.route table.namespc with
  | .native => ask .native (.registerTable table metadataLocation)
  | .mounted mount inner => do
      decided (require mount .register)
      let ident ← decided (innerIdent inner table.name)
      let registered ← ask (.mount mount.name) (.registerTable ident metadataLocation)
      decided (prefixedTable mount registered)

def commitTable (change : ib.TableChange) : Federated ib (Table ib) :=
  match f.route change.ident.namespc with
  | .native => ask .native (.commitTable change)
  | .mounted mount inner => do
      decided (require mount .write)
      let ident ← decided (innerIdent inner change.ident.name)
      let committed ← ask (.mount mount.name)
        (.commitTable ⟨ident, change.requirements, change.updates⟩)
      decided (prefixedTable mount committed)

/-- The mount a table's namespace routes to. -/
def targetOf (ident : TableIdent) : Option Text :=
  match f.route ident.namespc with
  | .native => none
  | .mounted mount _ => some mount.name

def describeTarget : Option Text → Text
  | some name => "mount '".toList ++ name ++ ['\'']
  | none => "the native catalog".toList

/-- The loop that sends a transaction to one catalog: `target` is where the
tables before `commits` live. -/
def sameTarget : Option (Option Text) → List ib.TableChange → Except Error Unit
  | _, [] => .ok ()
  | none, change :: commits => sameTarget (some (f.targetOf change.ident)) commits
  | some existing, change :: commits =>
      let mount := f.targetOf change.ident
      if existing = mount then sameTarget (some existing) commits
      else .error ⟨.featureUnsupported,
        "A transaction cannot span catalogs: this one touches ".toList ++ describeTarget existing ++
          " and ".toList ++ describeTarget mount ++
            ". Atomicity is a property of one backend, ".toList ++
          "and sequencing the two would risk leaving one advanced and the other not.".toList⟩

/-- `ident.namespace()[1..]`, asked of the mount. -/
def innerChange (change : ib.TableChange) : Except Error ib.TableChange := do
  let ident ← innerIdent change.ident.namespc.tail change.ident.name
  return ⟨ident, change.requirements, change.updates⟩

def commitTablesAtomic (commits : List ib.TableChange) : Federated ib (List (Table ib)) :=
  match commits with
  | [] => pure []
  | first :: _ => do
      decided (f.sameTarget none commits)
      match f.route first.ident.namespc with
      | .native => ask .native (.commitTablesAtomic commits)
      | .mounted mount _ => do
          decided (require mount .multiTableCommit)
          let inner ← decided (commits.mapM innerChange)
          let committed ← ask (.mount mount.name) (.commitTablesAtomic inner)
          decided (committed.mapM (prefixedTable mount))

def refuseCrossMount (what : Text) (src dest : TableIdent) : Error :=
  ⟨.featureUnsupported, "Cannot ".toList ++ what ++ " across mounts (".toList ++ src.display ++
    " → ".toList ++ dest.display ++
      "). The two live in different catalogs and the operation ".toList ++
    "cannot be made atomic between them, so it is refused rather than left half-applied.".toList⟩

def renameTable (src dest : TableIdent) : Federated ib Unit :=
  match f.route src.namespc, f.route dest.namespc with
  | .native, .native => ask .native (.renameTable src dest)
  | .mounted source sourceInner, .mounted target targetInner =>
      if source.name = target.name then do
        decided (require source .write)
        let innerSrc ← decided (innerIdent sourceInner src.name)
        let innerDest ← decided (innerIdent targetInner dest.name)
        ask (.mount source.name) (.renameTable innerSrc innerDest)
      else throw (refuseCrossMount "rename a table".toList src dest)
  | _, _ => throw (refuseCrossMount "rename a table".toList src dest)

def dropTable (table : TableIdent) : Federated ib Unit :=
  match f.route table.namespc with
  | .native => ask .native (.dropTable table)
  | .mounted mount inner => do
      decided (require mount .write)
      let ident ← decided (innerIdent inner table.name)
      ask (.mount mount.name) (.dropTable ident)

def purgeTable (table : TableIdent) : Federated ib Unit :=
  match f.route table.namespc with
  | .native => ask .native (.purgeTable table)
  | .mounted mount inner => do
      decided (require mount .purge)
      let ident ← decided (innerIdent inner table.name)
      ask (.mount mount.name) (.purgeTable ident)

/-! ## Views -/

def listViews (ns : NamespaceIdent) (page : PageRequest) : Federated ib (Page TableIdent) :=
  match f.route ns with
  | .native => ask .native (.listViews ns page)
  | .mounted mount inner =>
      if mount.capabilities.views = false ∨ inner = [] then pure ⟨[], none⟩
      else do
        let innerNs ← decided (NamespaceIdent.fromVec inner)
        let page ← ask (.mount mount.name) (.listViews innerNs page)
        decided (prefixedPage (prefixedIdent mount) page)

def viewExists (view : TableIdent) : Federated ib Bool :=
  match f.route view.namespc with
  | .native => ask .native (.viewExists view)
  | .mounted mount inner =>
      if mount.capabilities.views = false then pure false
      else do
        let ident ← decided (innerIdent inner view.name)
        ask (.mount mount.name) (.viewExists ident)

def loadView (view : TableIdent) : Federated ib (Text × ib.ViewMetadata) :=
  match f.route view.namespc with
  | .native => ask .native (.loadView view)
  | .mounted mount inner => do
      decided (require mount .views)
      let ident ← decided (innerIdent inner view.name)
      ask (.mount mount.name) (.loadView ident)

def registerView (view : TableIdent) (metadataLocation : Text) :
    Federated ib (Text × ib.ViewMetadata) :=
  match f.route view.namespc with
  | .native => ask .native (.registerView view metadataLocation)
  | .mounted mount inner => do
      decided (require mount .views)
      decided (require mount .register)
      let ident ← decided (innerIdent inner view.name)
      ask (.mount mount.name) (.registerView ident metadataLocation)

def createView (view : TableIdent) (metadata : ib.ViewMetadata) :
    Federated ib (Text × ib.ViewMetadata) :=
  match f.route view.namespc with
  | .native => ask .native (.createView view metadata)
  | .mounted mount inner => do
      decided (require mount .views)
      decided (require mount .write)
      let ident ← decided (innerIdent inner view.name)
      ask (.mount mount.name) (.createView ident metadata)

def updateView (view : TableIdent) (expected : Text) (metadata : ib.ViewMetadata) :
    Federated ib (Text × ib.ViewMetadata) :=
  match f.route view.namespc with
  | .native => ask .native (.updateView view expected metadata)
  | .mounted mount inner => do
      decided (require mount .views)
      decided (require mount .write)
      let ident ← decided (innerIdent inner view.name)
      ask (.mount mount.name) (.updateView ident expected metadata)

def dropView (view : TableIdent) : Federated ib Unit :=
  match f.route view.namespc with
  | .native => ask .native (.dropView view)
  | .mounted mount inner => do
      decided (require mount .views)
      decided (require mount .write)
      let ident ← decided (innerIdent inner view.name)
      ask (.mount mount.name) (.dropView ident)

def renameView (src dest : TableIdent) : Federated ib Unit :=
  match f.route src.namespc, f.route dest.namespc with
  | .native, .native => ask .native (.renameView src dest)
  | .mounted source sourceInner, .mounted target targetInner =>
      if source.name = target.name then do
        decided (require source .views)
        decided (require source .write)
        let innerSrc ← decided (innerIdent sourceInner src.name)
        let innerDest ← decided (innerIdent targetInner dest.name)
        ask (.mount source.name) (.renameView innerSrc innerDest)
      else throw (refuseCrossMount "rename a view".toList src dest)
  | _, _ => throw (refuseCrossMount "rename a view".toList src dest)

/-! ## Operations -/

def warehouseFor (ns : NamespaceIdent) : Federated ib (Option Text) :=
  match f.route ns with
  | .native => ask .native (.warehouseFor ns)
  | .mounted mount _ => pure mount.warehouse

def namespacePrefixFor (ns : NamespaceIdent) : Federated ib (Option Text) :=
  match f.route ns with
  | .native => ask .native (.namespacePrefixFor ns)
  | .mounted mount inner => pure (mount.warehouse.map fun warehouse =>
      namespacePrefix warehouse inner)

def capabilitiesFor (ns : Option NamespaceIdent) : Federated ib Capabilities :=
  match ns with
  | none => ask .native (.capabilitiesFor none)
  | some ns =>
      match f.route ns with
      | .native => ask .native (.capabilitiesFor (some ns))
      | .mounted mount _ => pure mount.capabilities

/-- The names of the mounts that do not answer, or answer that they are unhealthy. -/
def unhealthy : List Text → Federated ib (List Text)
  | [] => pure []
  | name :: names => do
      let check ← ExceptT.mk (.perform ⟨.mount name, .storageHealthCheck⟩ fun r => .done (.ok r))
      let rest ← unhealthy names
      match (check : Except Error StorageHealthStatus) with
      | .ok check => return if check.healthy then rest else name :: rest
      | .error _ => return name :: rest

def storageHealthCheck : Federated ib StorageHealthStatus := do
  let status ← ask .native .storageHealthCheck
  let unhealthy ← unhealthy f.mounts.keys
  if unhealthy = [] then return status
  else return { status with
    message := some ("Unreachable mounts: ".toList ++ Text.join ", ".toList unhealthy) }

/-- `impl CatalogStore for FederatedCatalog`. -/
def serve : (call : StoreCall ib) → Federated ib call.Payload
  | .listNamespaces parent page => f.listNamespaces parent page
  | .createNamespace ns properties => f.createNamespace ns properties
  | .getNamespace ns => f.getNamespace ns
  | .namespaceExists ns => f.namespaceExists ns
  | .updateNamespace ns properties => f.updateNamespace ns properties
  | .dropNamespace ns => f.dropNamespace ns
  | .listTables ns page => f.listTables ns page
  | .createTable ns creation => f.createTable ns creation
  | .stageCreateTable ns creation => f.stageCreateTable ns creation
  | .metadataPointer table => f.metadataPointer table
  | .loadTable table => f.loadTable table
  | .tableExists table => f.tableExists table
  | .registerTable table metadataLocation => f.registerTable table metadataLocation
  | .commitTable change => f.commitTable change
  | .commitTablesAtomic commits => f.commitTablesAtomic commits
  | .renameTable src dest => f.renameTable src dest
  | .dropTable table => f.dropTable table
  | .purgeTable table => f.purgeTable table
  | .listViews ns page => f.listViews ns page
  | .viewExists view => f.viewExists view
  | .loadView view => f.loadView view
  | .registerView view metadataLocation => f.registerView view metadataLocation
  | .createView view metadata => f.createView view metadata
  | .updateView view expected metadata => f.updateView view expected metadata
  | .dropView view => f.dropView view
  | .renameView src dest => f.renameView src dest
  | .warehouseFor ns => f.warehouseFor ns
  | .namespacePrefixFor ns => f.namespacePrefixFor ns
  | .capabilitiesFor ns => f.capabilitiesFor ns
  | .storageHealthCheck => f.storageHealthCheck

end FederatedCatalog

end Rustberg
