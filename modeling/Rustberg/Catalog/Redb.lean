import Rustberg.Catalog.Store

/-!
# The redb catalog

`impl CatalogStore for RedbCatalog`, operation by operation and in the
order the source performs its effects. Reads made outside the write
transaction are separate effects, as they are in the source: what they
saw may be stale by the time the transaction runs.
-/

namespace Rustberg

variable {ib : Iceberg}

/-- The configuration of a catalog. -/
structure Catalog where
  warehouseLocation : Text
  locationScope : LocationScope

namespace Catalog

/-- The prefix a resource registered into this catalog may declare. -/
def declaredBound (c : Catalog) (ident : TableIdent) : LocationBound :=
  LocationBound.new c.locationScope c.warehouseLocation
    (namespacePrefix c.warehouseLocation ident.namespc) ident.name

def tableLocation (c : Catalog) (table : TableIdent) : Text :=
  c.warehouseLocation ++ ['/'] ++ Text.join ['/'] table.namespc ++ ['/'] ++ table.name

end Catalog

namespace Redb

/-! ## Namespaces -/

/-- `get_namespace_record(ns)?.is_none()`, answered with `message`. -/
def requireNamespace (ns : NamespaceIdent) (message : Text) : Op ib Unit := do
  let record ← Op.getNamespace (namespaceKey ns)
  if record.isNone then throw ⟨.namespaceNotFound, message⟩

def listNamespaces (parent : Option NamespaceIdent) (page : PageRequest) :
    Op ib (Page NamespaceIdent) := do
  let (pre, depth) ← match parent with
    | some p => do
        requireNamespace p (Text.join ['.'] p)
        pure (namespaceChildPrefix p, p.length + 1)
    | none => pure ([], 1)
  let keys ← Op.scanNamespaces (scanStart pre page) (prefixEnd pre) depth page.probeLimit
  let rows := keys.map fun key => ⟨key, key.splitOn partSeparator⟩
  return Page.fromProbe rows page

def createNamespace (namespc : NamespaceIdent) (properties : Properties) : Op ib Unit :=
  Op.write (.createNamespace namespc properties)

def getNamespace (namespc : NamespaceIdent) : Op ib Properties := do
  match ← Op.getNamespace (namespaceKey namespc) with
  | some record => return record.properties
  | none => throw ⟨.namespaceNotFound, Text.join ['.'] namespc⟩

def namespaceExists (namespc : NamespaceIdent) : Op ib Bool := do
  return (← Op.getNamespace (namespaceKey namespc)).isSome

def updateNamespace (namespc : NamespaceIdent) (properties : Properties) : Op ib Unit :=
  Op.write (.updateNamespace namespc properties)

def dropNamespace (namespc : NamespaceIdent) : Op ib Unit :=
  Op.write (.dropNamespace namespc)

/-! ## Tables and views -/

def getRecord (kind : Tabular) (ident : TableIdent) : Op ib (Option TabularRecord) :=
  Op.getTabular kind (tableKey ident)

/-- `get_table_record(ident)?.is_some()`, answered with `message`. -/
def refuseTable (ident : TableIdent) (message : Text) : Op ib Unit := do
  if (← getRecord .table ident).isSome then throw ⟨.tableAlreadyExists, message⟩

/-- `list_tables` and `list_views`. -/
def listTabulars (kind : Tabular) (namespc : NamespaceIdent) (page : PageRequest) :
    Op ib (Page TableIdent) := do
  requireNamespace namespc (Text.join ['.'] namespc)
  let pre := tablePrefix namespc
  let keys ← Op.scanTabulars kind (scanStart pre page) (prefixEnd pre) page.probeLimit
  let rows := keys.map fun key => ⟨key, ⟨namespc, (key.splitOn nameSeparator).getLastD []⟩⟩
  return Page.fromProbe rows page

/-- The metadata and first metadata file of a table to be created or staged. -/
def writeFirst (c : Catalog) (ident : TableIdent) (creation : ib.Creation) :
    Op ib (ib.Metadata × Text) := do
  let location := creation.location.getD (c.tableLocation ident)
  let metadata ← ofExcept (ib.fromTableCreation { creation with location := some location })
  let uuid ← Op.newUuid
  let metadataLocation ← ofExcept (MetadataFile.firstTable ib uuid metadata)
  Op.writeMetadata metadata metadataLocation
  return (metadata, metadataLocation)

def createTable (c : Catalog) (namespc : NamespaceIdent) (creation : ib.Creation) :
    Op ib (Table ib) := do
  requireNamespace namespc (Text.join ['.'] namespc)
  let ident : TableIdent := ⟨namespc, creation.name⟩
  refuseTable ident ident.name
  let (metadata, metadataLocation) ← writeFirst c ident creation
  Op.write (.create .table ident metadataLocation ident.name)
  return ⟨ident, metadata, metadataLocation⟩

def stageCreateTable (c : Catalog) (namespc : NamespaceIdent) (creation : ib.Creation) :
    Op ib (Table ib) := do
  requireNamespace namespc (Text.join ['.'] namespc)
  let ident : TableIdent := ⟨namespc, creation.name⟩
  refuseTable ident ident.name
  let (metadata, metadataLocation) ← writeFirst c ident creation
  Op.write (.stage ident metadataLocation)
  return ⟨ident, metadata, metadataLocation⟩

def metadataPointer (table : TableIdent) : Op ib (Option Text) := do
  return (← getRecord .table table).map TabularRecord.metadataLocation

def loadTable (table : TableIdent) : Op ib (Table ib) := do
  match ← getRecord .table table with
  | none => throw (notFound table.display)
  | some record => do
      let metadata ← Op.readMetadata record.metadataLocation
      return ⟨table, metadata, record.metadataLocation⟩

def dropTable (table : TableIdent) : Op ib Unit := Op.write (.drop .table table)

def tableExists (table : TableIdent) : Op ib Bool := do
  return (← getRecord .table table).isSome

/-- `rename_table` and `rename_view`. -/
def rename (kind : Tabular) (src dest : TableIdent) : Op ib Unit := do
  if src = dest then
    return ()
  else
    requireNamespace dest.namespc
      ("Destination namespace not found: ".toList ++ Text.join ['.'] dest.namespc)
    Op.write (.rename kind src dest)

def renameTable (src dest : TableIdent) : Op ib Unit := rename .table src dest

def registerTable (c : Catalog) (table : TableIdent) (metadataLocation : Text) :
    Op ib (Table ib) := do
  requireNamespace table.namespc (Text.join ['.'] table.namespc)
  refuseTable table table.display
  let metadata ← Op.readMetadata metadataLocation
  ofExcept ((c.declaredBound table).ensureIceberg (ib.location metadata))
  Op.write (.create .table table metadataLocation table.display)
  return ⟨table, metadata, metadataLocation⟩

def viewExists (view : TableIdent) : Op ib Bool := do
  return (← getRecord .view view).isSome

def loadView (view : TableIdent) : Op ib (Text × ib.ViewMetadata) := do
  match ← getRecord .view view with
  | none => throw (notFound view.display)
  | some record => do
      let metadata ← Op.readViewMetadata record.metadataLocation
      return (record.metadataLocation, metadata)

def registerView (c : Catalog) (view : TableIdent) (metadataLocation : Text) :
    Op ib (Text × ib.ViewMetadata) := do
  requireNamespace view.namespc (Text.join ['.'] view.namespc)
  let metadata ← Op.readViewMetadata metadataLocation
  ofExcept ((c.declaredBound view).ensureIceberg (ib.viewLocation metadata))
  Op.write (.create .view view metadataLocation view.display)
  return (metadataLocation, metadata)

def createView (view : TableIdent) (metadata : ib.ViewMetadata) :
    Op ib (Text × ib.ViewMetadata) := do
  requireNamespace view.namespc (Text.join ['.'] view.namespc)
  let uuid ← Op.newUuid
  let location := MetadataFile.firstView uuid (ib.viewLocation metadata)
  Op.writeViewMetadata metadata location
  Op.write (.create .view view location view.display)
  return (location, metadata)

def updateView (view : TableIdent) (expectedMetadataLocation : Text)
    (metadata : ib.ViewMetadata) : Op ib (Text × ib.ViewMetadata) := do
  match ← getRecord .view view with
  | none => throw (notFound view.display)
  | some current =>
      if current.metadataLocation ≠ expectedMetadataLocation then
        throw (conflict "View was modified concurrently".toList)
      else do
        let uuid ← Op.newUuid
        let location :=
          MetadataFile.nextView ib uuid current.metadataLocation (ib.viewLocation metadata)
        Op.writeViewMetadata metadata location
        Op.write (.updateView view current.version expectedMetadataLocation location)
        return (location, metadata)

def dropView (view : TableIdent) : Op ib Unit := Op.write (.drop .view view)

def renameView (src dest : TableIdent) : Op ib Unit := rename .view src dest

/-! ## Commits -/

/-- A table of a commit, computed and written but not yet published. -/
structure Prepared (ib : Iceberg) where
  ident : TableIdent
  expected : Option TabularRecord
  metadata : ib.Metadata
  newLocation : Text

def Prepared.swap (p : Prepared ib) : Swap := ⟨p.ident, p.expected, p.newLocation⟩

def Prepared.table (p : Prepared ib) : Table ib := ⟨p.ident, p.metadata, p.newLocation⟩

/-- A commit that asserts its table does not exist creates one. -/
def isCreating (requirements : List ib.Requirement) : Bool :=
  requirements.any fun
    | .notExist => true
    | .other _ => false

/-- The registry record a change starts from, the metadata at it, and where
that is. No record means a staged table is being created. -/
def readBase (change : ib.TableChange) :
    Op ib (Option TabularRecord × ib.Metadata × Text) := do
  match ← getRecord .table change.ident with
  | some record => do
      let metadata ← Op.readMetadata record.metadataLocation
      return (some record, metadata, record.metadataLocation)
  | none =>
      if isCreating change.requirements then do
        match ← Op.getStaged (tableKey change.ident) with
        | none => throw (notFound (change.ident.display ++
            (" was not staged. A commit asserting the table does not exist must follow a " ++
              "`stage-create`.").toList))
        | some staged => do
            let metadata ← Op.readMetadata staged.metadataLocation
            return (none, metadata, staged.metadataLocation)
      else throw (notFound change.ident.display)

def checkRequirement (ident : TableIdent) (current : Option ib.Metadata)
    (requirement : ib.Requirement) : Except Error Unit :=
  match ib.check requirement current with
  | .ok () => .ok ()
  | .error e => .error ⟨e.kind, "Requirement failed for table ".toList ++ ident.display ++
      ": ".toList ++ e.message⟩

/-- The client's updates over the base. -/
def applyUpdates (base : ib.Metadata) (baseLocation : Text) (updates : List ib.Update) :
    Except Error ib.Metadata := do
  let builder ← updates.foldlM (fun builder update => ib.apply update builder)
    (ib.intoBuilder base (some baseLocation))
  ib.build builder

/-- What a commit makes of one table's base: its checks, then the updates. -/
def compute (c : Catalog) (change : ib.TableChange) (expected : Option TabularRecord)
    (base : ib.Metadata) (baseLocation : Text) : Except Error ib.Metadata := do
  -- For a create the catalog holds nothing, whatever was staged.
  let current := if expected.isSome then some base else none
  change.requirements.forM (checkRequirement change.ident current)
  rejectStaleRowLineage change.ident base change.updates
  (c.declaredBound change.ident).ensureCommit (ib.location base) change.updates
  applyUpdates base baseLocation change.updates

/-- Phases 1 and 2 for one table: read, check, compute, write the new file. -/
def prepare (c : Catalog) (change : ib.TableChange) : Op ib (Prepared ib) := do
  let (expected, base, baseLocation) ← readBase change
  let metadata ← ofExcept (compute c change expected base baseLocation)
  let uuid ← Op.newUuid
  let newLocation ← ofExcept (MetadataFile.nextTable ib uuid baseLocation metadata)
  Op.writeMetadata metadata newLocation
  return ⟨change.ident, expected, metadata, newLocation⟩

def prepareAll (c : Catalog) : List ib.TableChange → Op ib (List (Prepared ib))
  | [] => return []
  | change :: rest => do
      let p ← prepare c change
      let ps ← prepareAll c rest
      return p :: ps

/-- Removes the files of a commit that did not land; a failure is only logged. -/
def deleteAll : List (Prepared ib) → Op ib Unit
  | [] => return ()
  | p :: rest => do
      let _ ← capture (Op.delete p.newLocation)
      deleteAll rest

/-- One attempt of the atomic commit protocol. -/
def tryCommitTablesAtomic (c : Catalog) (changes : List ib.TableChange) :
    Op ib (List (Table ib)) := do
  let prepared ← prepareAll c changes
  match ← capture (Op.write (.swap (prepared.map Prepared.swap))) with
  | .ok () => return prepared.map Prepared.table
  | .error failed => do
      deleteAll prepared
      throw failed

def commitMaxRetries : Nat := 10

/-- The retry loop, with `attempts` left. Only a conflict is retried. -/
def retryCommit (c : Catalog) (changes : List ib.TableChange) :
    Nat → Option Error → Op ib (List (Table ib))
  | 0, lastConflict =>
      throw (conflict ("Failed to commit after ".toList ++ Text.decimal commitMaxRetries ++
        " attempts: ".toList ++
        (lastConflict.map Error.message).getD "concurrent modification".toList))
  | attempts + 1, _ => do
      match ← capture (tryCommitTablesAtomic c changes) with
      | .ok tables => return tables
      | .error e =>
          if e.kind = .catalogCommitConflicts then retryCommit c changes attempts (some e)
          else throw e

def commitTablesAtomic (c : Catalog) (changes : List ib.TableChange) :
    Op ib (List (Table ib)) :=
  if changes.isEmpty then return []
  else retryCommit c changes commitMaxRetries none

def commitTable (c : Catalog) (change : ib.TableChange) : Op ib (Table ib) := do
  match (← commitTablesAtomic c [change]).getLast? with
  | some table => return table
  | none => throw ⟨.unexpected, "Commit returned no table".toList⟩

/-! ## Requests -/

end Redb

/-- A call on a catalog. -/
inductive Request (ib : Iceberg) where
  | listNamespaces (parent : Option NamespaceIdent) (page : PageRequest)
  | createNamespace (namespc : NamespaceIdent) (properties : Properties)
  | getNamespace (namespc : NamespaceIdent)
  | namespaceExists (namespc : NamespaceIdent)
  | updateNamespace (namespc : NamespaceIdent) (properties : Properties)
  | dropNamespace (namespc : NamespaceIdent)
  | listTabulars (kind : Tabular) (namespc : NamespaceIdent) (page : PageRequest)
  | createTable (namespc : NamespaceIdent) (creation : ib.Creation)
  | stageCreateTable (namespc : NamespaceIdent) (creation : ib.Creation)
  | metadataPointer (table : TableIdent)
  | loadTable (table : TableIdent)
  | dropTable (table : TableIdent)
  | tableExists (table : TableIdent)
  | renameTable (src dest : TableIdent)
  | registerTable (table : TableIdent) (metadataLocation : Text)
  | commitTable (change : ib.TableChange)
  | commitTablesAtomic (changes : List ib.TableChange)
  | viewExists (view : TableIdent)
  | loadView (view : TableIdent)
  | registerView (view : TableIdent) (metadataLocation : Text)
  | createView (view : TableIdent) (metadata : ib.ViewMetadata)
  | updateView (view : TableIdent) (expectedMetadataLocation : Text)
      (metadata : ib.ViewMetadata)
  | dropView (view : TableIdent)
  | renameView (src dest : TableIdent)

/-- What a successful call answers. -/
inductive Reply (ib : Iceberg) where
  | done
  | bool (answer : Bool)
  | namespaces (page : Page NamespaceIdent)
  | properties (properties : Properties)
  | tabulars (page : Page TableIdent)
  | pointer (metadataLocation : Option Text)
  | table (table : Table ib)
  | tables (tables : List (Table ib))
  | view (metadataLocation : Text) (metadata : ib.ViewMetadata)

namespace Redb

def serve (c : Catalog) : Request ib → Op ib (Reply ib)
  | .listNamespaces parent page => .namespaces <$> listNamespaces parent page
  | .createNamespace namespc properties =>
      (fun _ => .done) <$> createNamespace namespc properties
  | .getNamespace namespc => .properties <$> getNamespace namespc
  | .namespaceExists namespc => .bool <$> namespaceExists namespc
  | .updateNamespace namespc properties =>
      (fun _ => .done) <$> updateNamespace namespc properties
  | .dropNamespace namespc => (fun _ => .done) <$> dropNamespace namespc
  | .listTabulars kind namespc page => .tabulars <$> listTabulars kind namespc page
  | .createTable namespc creation => .table <$> createTable c namespc creation
  | .stageCreateTable namespc creation => .table <$> stageCreateTable c namespc creation
  | .metadataPointer table => .pointer <$> metadataPointer table
  | .loadTable table => .table <$> loadTable table
  | .dropTable table => (fun _ => .done) <$> dropTable table
  | .tableExists table => .bool <$> tableExists table
  | .renameTable src dest => (fun _ => .done) <$> renameTable src dest
  | .registerTable table metadataLocation => .table <$> registerTable c table metadataLocation
  | .commitTable change => .table <$> commitTable c change
  | .commitTablesAtomic changes => .tables <$> commitTablesAtomic c changes
  | .viewExists view => .bool <$> viewExists view
  | .loadView view => (fun (l, m) => .view l m) <$> loadView view
  | .registerView view metadataLocation =>
      (fun (l, m) => .view l m) <$> registerView c view metadataLocation
  | .createView view metadata => (fun (l, m) => .view l m) <$> createView view metadata
  | .updateView view expectedMetadataLocation metadata =>
      (fun (l, m) => .view l m) <$> updateView view expectedMetadataLocation metadata
  | .dropView view => (fun _ => .done) <$> dropView view
  | .renameView src dest => (fun _ => .done) <$> renameView src dest

end Redb

end Rustberg
