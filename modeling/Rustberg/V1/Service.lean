import Rustberg.Catalog.Purge
import Rustberg.V1.Namespaces
import Rustberg.V1.Views

/-!
# The handlers over the redb catalog

A handler calls the methods of `CatalogStore`; over redb each of them is
the program of `Catalog.Redb`, whose effects are the atomic steps other
clients' requests come between. `Store.served` is the handler with every
call carried out: a program over the effects of the registry, the audit
sink and the credential provider.
-/

namespace Rustberg.V1

open Process

variable {ib : Iceberg} {d : Crates ib}

/-- `Capabilities::full` -/
def fullCapabilities : Capabilities := ⟨true, true, true, true, true, true, true⟩

/-- A redb catalog and the storage it keeps its files in. -/
structure Store (ib : Iceberg) where
  catalog : Catalog
  files : TableFiles ib
  /-- The manifests that can be read. -/
  readable : Text → Bool
  /-- `storage_health_check` -/
  health : Op ib StorageHealthStatus

namespace Store

variable (st : Store ib)

/-- `impl CatalogStore for RedbCatalog`. -/
def answer : (call : StoreCall ib) → Op ib call.Payload
  | .listNamespaces parent page => Redb.listNamespaces parent page
  | .createNamespace ns properties => do
      Redb.createNamespace ns properties
      return ⟨ns, properties⟩
  | .getNamespace ns => do
      let properties ← Redb.getNamespace ns
      return ⟨ns, properties⟩
  | .namespaceExists ns => Redb.namespaceExists ns
  | .updateNamespace ns properties => Redb.updateNamespace ns properties
  | .dropNamespace ns => Redb.dropNamespace ns
  | .listTables ns page => Redb.listTabulars .table ns page
  | .createTable ns creation => Redb.createTable st.catalog ns creation
  | .stageCreateTable ns creation => Redb.stageCreateTable st.catalog ns creation
  | .metadataPointer table => Redb.metadataPointer table
  | .loadTable table => Redb.loadTable table
  | .tableExists table => Redb.tableExists table
  | .registerTable table location => Redb.registerTable st.catalog table location
  | .commitTable change => Redb.commitTable st.catalog change
  | .commitTablesAtomic commits => Redb.commitTablesAtomic st.catalog commits
  | .renameTable src dest => Redb.renameTable src dest
  | .dropTable table => Redb.dropTable table
  | .purgeTable table => Redb.purgeTable st.files st.readable table
  | .listViews ns page => Redb.listTabulars .view ns page
  | .viewExists view => Redb.viewExists view
  | .loadView view => Redb.loadView view
  | .registerView view location => Redb.registerView st.catalog view location
  | .createView view metadata => Redb.createView view metadata
  | .updateView view expected metadata => Redb.updateView view expected metadata
  | .dropView view => Redb.dropView view
  | .renameView src dest => Redb.renameView src dest
  | .warehouseFor _ => return some st.catalog.warehouseLocation
  | .namespacePrefixFor ns => return some (namespacePrefix st.catalog.warehouseLocation ns)
  | .capabilitiesFor _ => return fullCapabilities
  | .storageHealthCheck => st.health

end Store

/-- One atomic step of a server: of the registry and its files, or of one of
the two other parties a request reaches. -/
inductive ServerEffect (d : Crates ib) where
  | catalog (e : Effect ib)
  | write (event : Event)
  | vendCredentials (request : StorageCredentialRequest)

abbrev ServerEffect.Answer : ServerEffect d → Type
  | .catalog e => Effect.Answer e
  | .write _ => Except Text Unit
  | .vendCredentials _ => Except Text (List d.Credential)

/-- A program over the steps of a server. -/
abbrev Server (d : Crates ib) (α : Type) : Type := Prog (ServerEffect d) ServerEffect.Answer α

/-- An operation of the catalog, as a program of the server. -/
def onCatalog {α : Type} (op : Op ib α) : Server d (Except Error α) :=
  op.run.through fun e => Prog.call (ServerEffect.catalog e)

/-- What carries out one call of a handler. -/
def Store.carry (st : Store ib) : (c : Call d) → Server d (Call.Answer c)
  | .store call => onCatalog (st.answer call)
  | .write event => Prog.call (ServerEffect.write event)
  | .vendCredentials request => Prog.call (ServerEffect.vendCredentials request)

/-- A handler, every call carried out. -/
def Store.served {α : Type} (st : Store ib) (handler : Served d α) : Server d (Except Stop α) :=
  handler.run.through st.carry

/-- A handler served and then looked at: the part of it in front first. -/
theorem Store.traced_bind {α β : Type} {st : Store ib} {handler : Served d α} {f : α → Served d β}
    {P : Prog.History (ServerEffect d) ServerEffect.Answer → ServerEffect d → Prop}
    {T : Prog.History (ServerEffect d) ServerEffect.Answer → Except Stop α → Prop}
    {T' : Prog.History (ServerEffect d) ServerEffect.Answer → Except Stop β → Prop}
    {h : Prog.History (ServerEffect d) ServerEffect.Answer}
    (hfirst : Prog.Traced P T h (st.served handler))
    (herror : ∀ h e, T h (.error e) → T' h (.error e))
    (hrest : ∀ h a, T h (.ok a) → Prog.Traced P T' h (st.served (f a))) :
    Prog.Traced P T' h (st.served (handler >>= f)) := by
  rw [Store.served, Prog.through_bind_except]
  exact Prog.Traced.bind_except (p := st.served handler) hfirst herror hrest


/-- One step, on the registry: only the catalog's reach it. -/
def ServerSem : (e : ServerEffect d) → Registry → e.Answer → Registry → Prop
  | .catalog e, reg, r, reg' => Sem e reg r reg'
  | _, reg, _, reg' => reg' = reg

end Rustberg.V1
