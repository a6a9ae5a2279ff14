import Rustberg.Base.Result
import Rustberg.Catalog.Federated

/-!
# Mounting is transparent

What an operation of the federated catalog asks its backends. `stripped`
is a call on the paths a mount knows, `back` its answer with the mount's
prefix restored, and `passedOn` the operation that is nothing but the
one followed by the other. On a path under a mount an operation is
refused, answered from the configuration, or passed on
(`serve_mounted`); on native paths it is the native catalog's own
(`serve_native`); across backends it is refused before anything is asked
(`serve_crossing`).
-/

namespace Rustberg

open Process

variable {ib : Iceberg} {α β : Type}

/-! ## Sequencing with decided steps -/

@[simp] theorem decided_ok_bind (a : α) (k : α → Federated ib β) :
    (decided (.ok a) >>= k) = k a := rfl

@[simp] theorem decided_error_bind (err : Error) (k : α → Federated ib β) :
    ((decided (.error err) : Federated ib α) >>= k) = decided (.error err) := rfl

theorem throw_eq_decided (err : Error) : (throw err : Federated ib α) = decided (.error err) := rfl

theorem pure_eq_decided (a : α) : (pure a : Federated ib α) = decided (.ok a) := rfl

/-! ## A call on the paths a mount knows -/

/-- `Page::map` -/
def Page.map (f : α → β) (page : Page α) : Page β :=
  ⟨page.entries.map fun entry => ⟨entry.cursor, f entry.item⟩, page.next⟩

def TableIdent.stripped (ident : TableIdent) : TableIdent := ⟨ident.namespc.tail, ident.name⟩

def TableIdent.under (mount : Mount) (ident : TableIdent) : TableIdent :=
  ⟨mount.name :: ident.namespc, ident.name⟩

def Table.under (mount : Mount) (table : Table ib) : Table ib :=
  { table with ident := table.ident.under mount }

def Iceberg.TableChange.stripped (change : ib.TableChange) : ib.TableChange :=
  ⟨change.ident.stripped, change.requirements, change.updates⟩

namespace StoreCall

/-- The namespaces a call names. -/
def paths : StoreCall ib → List NamespaceIdent
  | listNamespaces parent _ => parent.toList
  | createNamespace ns _ | getNamespace ns | namespaceExists ns | updateNamespace ns _
  | dropNamespace ns | listTables ns _ | createTable ns _ | stageCreateTable ns _
  | listViews ns _ | warehouseFor ns | namespacePrefixFor ns => [ns]
  | metadataPointer ident | loadTable ident | tableExists ident | registerTable ident _
  | dropTable ident | purgeTable ident | viewExists ident | loadView ident | registerView ident _
  | createView ident _ | updateView ident _ _ | dropView ident => [ident.namespc]
  | commitTable change => [change.ident.namespc]
  | commitTablesAtomic commits => commits.map fun change => change.ident.namespc
  | renameTable src dest | renameView src dest => [src.namespc, dest.namespc]
  | capabilitiesFor ns => ns.toList
  | storageHealthCheck => []

/-- The call with the first segment of every path removed. -/
def stripped : StoreCall ib → StoreCall ib
  | listNamespaces parent page =>
      listNamespaces (parent.bind fun ns => if ns.tail = [] then none else some ns.tail) page
  | createNamespace ns properties => createNamespace ns.tail properties
  | getNamespace ns => getNamespace ns.tail
  | namespaceExists ns => namespaceExists ns.tail
  | updateNamespace ns properties => updateNamespace ns.tail properties
  | dropNamespace ns => dropNamespace ns.tail
  | listTables ns page => listTables ns.tail page
  | createTable ns creation => createTable ns.tail creation
  | stageCreateTable ns creation => stageCreateTable ns.tail creation
  | metadataPointer table => metadataPointer table.stripped
  | loadTable table => loadTable table.stripped
  | tableExists table => tableExists table.stripped
  | registerTable table location => registerTable table.stripped location
  | commitTable change => commitTable change.stripped
  | commitTablesAtomic commits => commitTablesAtomic (commits.map fun change => change.stripped)
  | renameTable src dest => renameTable src.stripped dest.stripped
  | dropTable table => dropTable table.stripped
  | purgeTable table => purgeTable table.stripped
  | listViews ns page => listViews ns.tail page
  | viewExists view => viewExists view.stripped
  | loadView view => loadView view.stripped
  | registerView view location => registerView view.stripped location
  | createView view metadata => createView view.stripped metadata
  | updateView view expected metadata => updateView view.stripped expected metadata
  | dropView view => dropView view.stripped
  | renameView src dest => renameView src.stripped dest.stripped
  | warehouseFor ns => warehouseFor ns.tail
  | namespacePrefixFor ns => namespacePrefixFor ns.tail
  | capabilitiesFor ns => capabilitiesFor (ns.map List.tail)
  | storageHealthCheck => storageHealthCheck

/-- What a mount's backend answers, every identifier with the mount's prefix
and every namespace with the mount's owner. -/
def back (mount : Mount) : (call : StoreCall ib) → call.stripped.Payload → call.Payload
  | listNamespaces .., page => page.map (mount.name :: ·)
  | createNamespace .., ns | getNamespace _, ns =>
      FederatedCatalog.own mount ⟨mount.name :: ns.name, ns.properties⟩
  | listTables .., page | listViews .., page => page.map (TableIdent.under mount)
  | createTable .., table | stageCreateTable .., table | loadTable _, table
  | registerTable .., table | commitTable _, table => table.under mount
  | commitTablesAtomic _, tables => tables.map (Table.under mount)
  | namespaceExists _, a | updateNamespace .., a | dropNamespace _, a | metadataPointer _, a
  | tableExists _, a | renameTable .., a | dropTable _, a | purgeTable _, a | viewExists _, a
  | loadView _, a | registerView .., a | createView .., a | updateView .., a | dropView _, a
  | renameView .., a | warehouseFor _, a | namespacePrefixFor _, a | capabilitiesFor _, a
  | storageHealthCheck, a => a

end StoreCall

/-- The stripped call, and its answer with the prefix back. -/
def passedOn (mount : Mount) (call : StoreCall ib) : Federated ib call.Payload :=
  ExceptT.mk (.perform ⟨.mount mount.name, call.stripped⟩ fun r => .done (r.map (call.back mount)))

namespace FederatedCatalog

/-- What is answered from the configuration of a mount alone. -/
def configured (mount : Mount) : (call : StoreCall ib) → Option call.Payload
  | .getNamespace ns => if ns.tail = [] then (mountRoot mount).toOption else none
  | .namespaceExists ns => if ns.tail = [] then some true else none
  | .listTables ns _ => if ns.tail = [] then some ⟨[], none⟩ else none
  | .listViews ns _ =>
      if mount.capabilities.views = false ∨ ns.tail = [] then some ⟨[], none⟩ else none
  | .viewExists _ => if mount.capabilities.views = false then some false else none
  | .warehouseFor _ => some mount.warehouse
  | .namespacePrefixFor ns =>
      some (mount.warehouse.map fun warehouse => namespacePrefix warehouse ns.tail)
  | .capabilitiesFor _ => some mount.capabilities
  | _ => none

/-- An operation on paths under `mount`: refused, answered from the
configuration, or passed on. -/
def Mounted (mount : Mount) (call : StoreCall ib) (operation : Federated ib call.Payload) : Prop :=
  (∃ err, operation = decided (.error err)) ∨
    (∃ a, configured mount call = some a ∧ operation = decided (.ok a)) ∨
    operation = passedOn mount call

theorem Mounted.guard {mount : Mount} {call : StoreCall ib} {r : Except Error α}
    {k : α → Federated ib call.Payload} (h : ∀ a, r = .ok a → Mounted mount call (k a)) :
    Mounted mount call (decided r >>= k) := by
  cases r with
  | error err => exact Or.inl ⟨err, rfl⟩
  | ok a => exact h a rfl

theorem Mounted.refused {mount : Mount} {call : StoreCall ib} (err : Error) :
    Mounted mount call (throw err) :=
  Or.inl ⟨err, rfl⟩

theorem Mounted.answered {mount : Mount} {call : StoreCall ib} {a : call.Payload}
    (h : configured mount call = some a) : Mounted mount call (pure a) :=
  Or.inr (Or.inl ⟨a, h, rfl⟩)

/-- The backend asked the stripped call, its answer put back. -/
theorem Mounted.restored {mount : Mount} {call : StoreCall ib}
    {g : call.stripped.Payload → Except Error call.Payload}
    (h : ∀ a, g a = .ok (call.back mount a)) :
    Mounted mount call (ask (.mount mount.name) call.stripped >>= fun a => decided (g a)) := by
  refine Or.inr (Or.inr (congrArg (Prog.perform _) (funext fun r => ?_)))
  cases r with
  | error err => rfl
  | ok a => exact congrArg Prog.done (h a)

/-! ## Putting the prefix back -/

theorem prefixed_eq (mount : Mount) (inner : NamespaceIdent) :
    prefixed mount inner = .ok (mount.name :: inner) :=
  NamespaceIdent.fromVec_ok (by simp)

theorem prefixedIdent_eq (mount : Mount) (ident : TableIdent) :
    prefixedIdent mount ident = .ok (ident.under mount) := by
  rw [prefixedIdent, prefixed_eq]
  rfl

theorem prefixedTable_eq (mount : Mount) (table : Table ib) :
    prefixedTable mount table = .ok (table.under mount) := by
  rw [prefixedTable, prefixedIdent_eq]
  rfl

theorem ownPrefixed_eq (mount : Mount) (ns : Namespace) :
    ownPrefixed mount ns = .ok (own mount ⟨mount.name :: ns.name, ns.properties⟩) := by
  rw [ownPrefixed, prefixed_eq]
  rfl

theorem prefixedPage_eq {f : α → α} {g : α → Except Error α} (h : ∀ a, g a = .ok (f a))
    (page : Page α) : prefixedPage g page = .ok (page.map f) := by
  obtain ⟨entries, next⟩ := page
  have hentries : (entries.mapM fun entry => do
      let item ← g entry.item
      return (⟨entry.cursor, item⟩ : Entry α)) =
      .ok (entries.map fun entry => ⟨entry.cursor, f entry.item⟩) := by
    induction entries with
    | nil => rfl
    | cons entry entries ih =>
        rw [List.mapM_cons, h, ih]
        rfl
  rw [prefixedPage, hentries]
  rfl

theorem mapM_prefixedTable (mount : Mount) (tables : List (Table ib)) :
    tables.mapM (prefixedTable mount) = .ok (tables.map (Table.under mount)) := by
  induction tables with
  | nil => rfl
  | cons table tables ih =>
      rw [List.mapM_cons, prefixedTable_eq, ih]
      rfl

/-! ## Routing -/

variable (f : FederatedCatalog)

theorem route_eq_mounted {ns : NamespaceIdent} {mount : Mount} {inner : List Text} :
    f.route ns = .mounted mount inner ↔
      ns = mount.name :: inner ∧ f.mounts[mount.name]? = some mount := by
  cases ns with
  | nil => simp [route]
  | cons first rest =>
      simp only [route]
      cases hmount : f.mounts[first]? with
      | none =>
          refine iff_of_false (by simp) ?_
          rintro ⟨hns, hsome⟩
          obtain ⟨rfl, -⟩ : first = mount.name ∧ _ := by simpa using hns
          rw [hmount] at hsome
          cases hsome
      | some found =>
          obtain ⟨rfl, -⟩ := f.valid first found hmount
          constructor
          · intro h
            cases h
            exact ⟨rfl, hmount⟩
          · rintro ⟨hns, hsome⟩
            obtain ⟨hname, rfl⟩ : found.name = mount.name ∧ rest = inner := by simpa using hns
            rw [hname, hsome] at hmount
            cases hmount
            rfl

theorem fromVec_eq_ok {names : List Text} {ns : NamespaceIdent}
    (h : NamespaceIdent.fromVec names = .ok ns) : ns = names := by
  rw [NamespaceIdent.fromVec] at h
  split at h
  · cases h
  · cases h
    rfl

theorem innerNamespace_eq_ok {inner : List Text} {ns : NamespaceIdent}
    (h : innerNamespace inner = .ok ns) : ns = inner := by
  rw [innerNamespace] at h
  split at h
  · cases h
  · exact fromVec_eq_ok h

theorem innerIdent_eq_ok {inner : List Text} {name : Text} {ident : TableIdent}
    (h : innerIdent inner name = .ok ident) : ident = ⟨inner, name⟩ := by
  obtain ⟨ns, hns, h⟩ := Except.bind_eq_ok.mp h
  cases h
  rw [innerNamespace_eq_ok hns]

variable {f} {mount : Mount} {inner : List Text}

theorem tail_of_route {ns : NamespaceIdent} (h : f.route ns = .mounted mount inner) :
    ns.tail = inner := by
  rw [(f.route_eq_mounted.mp h).1, List.tail_cons]

namespace Mounted

variable {call : StoreCall ib}

theorem required {r : Except Error Unit} {k : Unit → Federated ib call.Payload}
    (h : Mounted mount call (k ())) : Mounted mount call (decided r >>= k) :=
  guard fun _ _ => h

theorem innerNs {ns : NamespaceIdent} {k : NamespaceIdent → Federated ib call.Payload}
    (hroute : f.route ns = .mounted mount inner) (h : Mounted mount call (k ns.tail)) :
    Mounted mount call (decided (NamespaceIdent.fromVec inner) >>= k) :=
  guard fun innerNs hinner => by rwa [fromVec_eq_ok hinner, ← tail_of_route hroute]

theorem innerNamespace {ns : NamespaceIdent} {k : NamespaceIdent → Federated ib call.Payload}
    (hroute : f.route ns = .mounted mount inner) (h : Mounted mount call (k ns.tail)) :
    Mounted mount call (decided (FederatedCatalog.innerNamespace inner) >>= k) :=
  guard fun innerNs hinner => by rwa [innerNamespace_eq_ok hinner, ← tail_of_route hroute]

theorem innerIdent {ident : TableIdent} {k : TableIdent → Federated ib call.Payload}
    (hroute : f.route ident.namespc = .mounted mount inner)
    (h : Mounted mount call (k ident.stripped)) :
    Mounted mount call (decided (FederatedCatalog.innerIdent inner ident.name) >>= k) :=
  guard fun innerIdent hinner => by
    rwa [innerIdent_eq_ok hinner, ← tail_of_route hroute]

end Mounted

/-- A backend's answer handed on as it is. -/
theorem ask_eq (site : Site) (call : StoreCall ib) :
    ask site call = (ask site call >>= fun a => decided (.ok a)) := by
  refine congrArg (Prog.perform _) (funext fun r => ?_)
  cases r <;> rfl

/-! ## Operations under a mount -/

section Mounted

variable {ns : NamespaceIdent} {ident : TableIdent}

theorem listNamespaces_mounted (page : PageRequest) (h : f.route ns = .mounted mount inner) :
    Mounted mount (.listNamespaces (some ns) page : StoreCall ib)
      (f.listNamespaces (some ns) page) := by
  simp only [listNamespaces, h]
  refine .guard fun innerParent hinner => ?_
  have hparent : innerParent = if ns.tail = [] then none else some ns.tail := by
    rw [tail_of_route h]
    split at hinner
    · next hnil =>
        cases hinner
        rw [if_pos hnil]
    · next hne =>
        rw [NamespaceIdent.fromVec_ok hne] at hinner
        cases hinner
        rw [if_neg hne]
  subst hparent
  exact .restored (prefixedPage_eq (prefixed_eq mount))

theorem createNamespace_mounted (properties : Properties) (h : f.route ns = .mounted mount inner) :
    Mounted mount (.createNamespace ns properties : StoreCall ib)
    (f.createNamespace ns properties) := by
  simp only [createNamespace, h]
  refine .required ?_
  split
  · exact .refused _
  · exact .innerNs h (.restored (ownPrefixed_eq mount))

theorem getNamespace_mounted (h : f.route ns = .mounted mount inner) :
    Mounted mount (.getNamespace ns : StoreCall ib) (f.getNamespace ns) := by
  simp only [getNamespace, h]
  split
  · next hnil =>
      have hroot : mountRoot mount = .ok ⟨[mount.name],
          (Api.setOwner ∅ mount.owner).insert "rustberg.mount".toList mount.name⟩ := rfl
      rw [hroot]
      refine .answered ?_
      rw [configured, if_pos ((tail_of_route h).trans hnil), hroot]
      rfl
  · exact .innerNs h (.restored (ownPrefixed_eq mount))

theorem namespaceExists_mounted (h : f.route ns = .mounted mount inner) :
    Mounted mount (.namespaceExists ns : StoreCall ib) (f.namespaceExists ns) := by
  simp only [namespaceExists, h]
  split
  · next hnil => exact .answered (if_pos ((tail_of_route h).trans hnil))
  · refine .innerNs h ?_
    rw [ask_eq]
    exact .restored fun _ => rfl

theorem updateNamespace_mounted (properties : Properties) (h : f.route ns = .mounted mount inner) :
    Mounted mount (.updateNamespace ns properties : StoreCall ib)
    (f.updateNamespace ns properties) := by
  simp only [updateNamespace, h]
  refine .required ?_
  split
  · exact .refused _
  · refine .innerNs h ?_
    rw [ask_eq]
    exact .restored fun _ => rfl

theorem dropNamespace_mounted (h : f.route ns = .mounted mount inner) :
    Mounted mount (.dropNamespace ns : StoreCall ib) (f.dropNamespace ns) := by
  simp only [dropNamespace, h]
  refine .required ?_
  split
  · exact .refused _
  · refine .innerNs h ?_
    rw [ask_eq]
    exact .restored fun _ => rfl

theorem listTables_mounted (page : PageRequest) (h : f.route ns = .mounted mount inner) :
    Mounted mount (.listTables ns page : StoreCall ib) (f.listTables ns page) := by
  simp only [listTables, h]
  split
  · next hnil => exact .answered (if_pos ((tail_of_route h).trans hnil))
  · exact .innerNs h (.restored (prefixedPage_eq (prefixedIdent_eq mount)))

theorem createTable_mounted (creation : ib.Creation) (h : f.route ns = .mounted mount inner) :
    Mounted mount (.createTable ns creation : StoreCall ib) (f.createTable ns creation) := by
  simp only [createTable, h]
  exact .required (.innerNamespace h (.restored (prefixedTable_eq mount)))

theorem stageCreateTable_mounted (creation : ib.Creation) (h : f.route ns = .mounted mount inner) :
    Mounted mount (.stageCreateTable ns creation : StoreCall ib)
    (f.stageCreateTable ns creation) := by
  simp only [stageCreateTable, h]
  exact .required (.innerNamespace h (.restored (prefixedTable_eq mount)))

theorem metadataPointer_mounted (h : f.route ident.namespc = .mounted mount inner) :
    Mounted mount (.metadataPointer ident : StoreCall ib) (f.metadataPointer ident) := by
  simp only [metadataPointer, h]
  refine .innerIdent h ?_
  rw [ask_eq]
  exact .restored fun _ => rfl

theorem tableExists_mounted (h : f.route ident.namespc = .mounted mount inner) :
    Mounted mount (.tableExists ident : StoreCall ib) (f.tableExists ident) := by
  simp only [tableExists, h]
  refine .innerIdent h ?_
  rw [ask_eq]
  exact .restored fun _ => rfl

theorem loadTable_mounted (h : f.route ident.namespc = .mounted mount inner) :
    Mounted mount (.loadTable ident : StoreCall ib) (f.loadTable ident) := by
  simp only [loadTable, h]
  exact .innerIdent h (.restored (prefixedTable_eq mount))

theorem registerTable_mounted (location : Text) (h : f.route ident.namespc = .mounted mount inner) :
    Mounted mount (.registerTable ident location : StoreCall ib)
    (f.registerTable ident location) := by
  simp only [registerTable, h]
  exact .required (.innerIdent h (.restored (prefixedTable_eq mount)))

theorem commitTable_mounted {change : ib.TableChange}
    (h : f.route change.ident.namespc = .mounted mount inner) :
    Mounted mount (.commitTable change) (f.commitTable change) := by
  simp only [commitTable, h]
  exact .required (.innerIdent h (.restored (prefixedTable_eq mount)))

theorem dropTable_mounted (h : f.route ident.namespc = .mounted mount inner) :
    Mounted mount (.dropTable ident : StoreCall ib) (f.dropTable ident) := by
  simp only [dropTable, h]
  refine .required (.innerIdent h ?_)
  rw [ask_eq]
  exact .restored fun _ => rfl

theorem purgeTable_mounted (h : f.route ident.namespc = .mounted mount inner) :
    Mounted mount (.purgeTable ident : StoreCall ib) (f.purgeTable ident) := by
  simp only [purgeTable, h]
  refine .required (.innerIdent h ?_)
  rw [ask_eq]
  exact .restored fun _ => rfl

theorem listViews_mounted (page : PageRequest) (h : f.route ns = .mounted mount inner) :
    Mounted mount (.listViews ns page : StoreCall ib) (f.listViews ns page) := by
  simp only [listViews, h]
  split
  · next hnone =>
      refine .answered (if_pos ?_)
      rwa [tail_of_route h]
  · exact .innerNs h (.restored (prefixedPage_eq (prefixedIdent_eq mount)))

theorem viewExists_mounted (h : f.route ident.namespc = .mounted mount inner) :
    Mounted mount (.viewExists ident : StoreCall ib) (f.viewExists ident) := by
  simp only [viewExists, h]
  split
  · next hnone => exact .answered (if_pos hnone)
  · refine .innerIdent h ?_
    rw [ask_eq]
    exact .restored fun _ => rfl

theorem loadView_mounted (h : f.route ident.namespc = .mounted mount inner) :
    Mounted mount (.loadView ident : StoreCall ib) (f.loadView ident) := by
  simp only [loadView, h]
  refine .required (.innerIdent h ?_)
  rw [ask_eq]
  exact .restored fun _ => rfl

theorem registerView_mounted (location : Text) (h : f.route ident.namespc = .mounted mount inner) :
    Mounted mount (.registerView ident location : StoreCall ib)
    (f.registerView ident location) := by
  simp only [registerView, h]
  refine .required (.required (.innerIdent h ?_))
  rw [ask_eq]
  exact .restored fun _ => rfl

theorem createView_mounted (metadata : ib.ViewMetadata)
    (h : f.route ident.namespc = .mounted mount inner) :
    Mounted mount (.createView ident metadata : StoreCall ib) (f.createView ident metadata) := by
  simp only [createView, h]
  refine .required (.required (.innerIdent h ?_))
  rw [ask_eq]
  exact .restored fun _ => rfl

theorem updateView_mounted (expected : Text) (metadata : ib.ViewMetadata)
    (h : f.route ident.namespc = .mounted mount inner) :
    Mounted mount (.updateView ident expected metadata : StoreCall ib)
    (f.updateView ident expected metadata) := by
  simp only [updateView, h]
  refine .required (.required (.innerIdent h ?_))
  rw [ask_eq]
  exact .restored fun _ => rfl

theorem dropView_mounted (h : f.route ident.namespc = .mounted mount inner) :
    Mounted mount (.dropView ident : StoreCall ib) (f.dropView ident) := by
  simp only [dropView, h]
  refine .required (.required (.innerIdent h ?_))
  rw [ask_eq]
  exact .restored fun _ => rfl

theorem renameTable_mounted {src dest : TableIdent} {srcInner destInner : List Text}
    (hsrc : f.route src.namespc = .mounted mount srcInner)
    (hdest : f.route dest.namespc = .mounted mount destInner) :
    Mounted mount (.renameTable src dest : StoreCall ib) (f.renameTable src dest) := by
  simp only [renameTable, hsrc, hdest, if_true]
  refine .required (.innerIdent hsrc (.innerIdent hdest ?_))
  rw [ask_eq]
  exact .restored fun _ => rfl

theorem renameView_mounted {src dest : TableIdent} {srcInner destInner : List Text}
    (hsrc : f.route src.namespc = .mounted mount srcInner)
    (hdest : f.route dest.namespc = .mounted mount destInner) :
    Mounted mount (.renameView src dest : StoreCall ib) (f.renameView src dest) := by
  simp only [renameView, hsrc, hdest, if_true]
  refine .required (.required (.innerIdent hsrc (.innerIdent hdest ?_)))
  rw [ask_eq]
  exact .restored fun _ => rfl

theorem warehouseFor_mounted (h : f.route ns = .mounted mount inner) :
    Mounted mount (.warehouseFor ns : StoreCall ib) (f.warehouseFor ns) := by
  simp only [warehouseFor, h]
  exact .answered rfl

theorem namespacePrefixFor_mounted (h : f.route ns = .mounted mount inner) :
    Mounted mount (.namespacePrefixFor ns : StoreCall ib) (f.namespacePrefixFor ns) := by
  simp only [namespacePrefixFor, h]
  refine .answered ?_
  rw [configured, tail_of_route h]

theorem capabilitiesFor_mounted (h : f.route ns = .mounted mount inner) :
    Mounted mount (.capabilitiesFor (some ns) : StoreCall ib) (f.capabilitiesFor (some ns)) := by
  simp only [capabilitiesFor, h]
  exact .answered rfl

/-- One table after the other, each as the mount knows it. -/
theorem mapM_innerChange_eq_ok {commits changes : List ib.TableChange}
    (h : commits.mapM innerChange = .ok changes) :
    changes = commits.map fun change => change.stripped := by
  induction commits generalizing changes with
  | nil =>
      cases h
      rfl
  | cons change commits ih =>
      rw [List.mapM_cons] at h
      obtain ⟨inner, hinner, h⟩ := Except.bind_eq_ok.mp h
      obtain ⟨rest, hrest, h⟩ := Except.bind_eq_ok.mp h
      cases h
      obtain ⟨ident, hident, hinner⟩ := Except.bind_eq_ok.mp hinner
      cases hinner
      rw [innerIdent_eq_ok hident, ih hrest]
      rfl

theorem sameTarget_same {existing : Option Text} {commits : List ib.TableChange}
    (h : ∀ change ∈ commits, f.targetOf change.ident = existing) :
    f.sameTarget (some existing) commits = .ok () := by
  induction commits with
  | nil => rfl
  | cons change commits ih =>
      obtain ⟨hchange, hcommits⟩ := List.forall_mem_cons.mp h
      rw [sameTarget, hchange, if_pos rfl, ih hcommits]

theorem sameTarget_differs {existing : Option Text} {commits : List ib.TableChange}
    (h : ∃ change ∈ commits, f.targetOf change.ident ≠ existing) :
    ∃ err : Error, err.kind = .featureUnsupported ∧
      f.sameTarget (some existing) commits = .error err := by
  induction commits with
  | nil =>
      obtain ⟨change, hchange, -⟩ := h
      cases hchange
  | cons first commits ih =>
      rw [sameTarget]
      split
      · next heq =>
          obtain ⟨change, hchange, hne⟩ := h
          rcases List.mem_cons.mp hchange with rfl | hchange
          · exact absurd heq.symm hne
          · exact ih ⟨change, hchange, hne⟩
      · exact ⟨_, rfl, rfl⟩

theorem commitTablesAtomic_mounted {commits : List ib.TableChange} (hne : commits ≠ [])
    (h : ∀ change ∈ commits, ∃ inner, f.route change.ident.namespc = .mounted mount inner) :
    Mounted mount (.commitTablesAtomic commits) (f.commitTablesAtomic commits) := by
  cases commits with
  | nil => exact absurd rfl hne
  | cons first commits =>
      obtain ⟨⟨inner, hfirst⟩, hcommits⟩ := List.forall_mem_cons.mp h
      have htarget : ∀ change ∈ commits, f.targetOf change.ident = f.targetOf first.ident := by
        intro change hchange
        obtain ⟨inner', hroute⟩ := hcommits change hchange
        rw [targetOf, targetOf, hroute, hfirst]
      simp only [commitTablesAtomic, sameTarget, sameTarget_same htarget, decided_ok_bind, hfirst]
      refine .required (.guard fun changes hchanges => ?_)
      obtain rfl := mapM_innerChange_eq_ok hchanges
      exact .restored (mapM_prefixedTable mount)

end Mounted

/-! ## Every operation -/

/-- Every path of `call` lies under `mount`. -/
def Under (f : FederatedCatalog) (mount : Mount) (call : StoreCall ib) : Prop :=
  call.paths ≠ [] ∧ ∀ ns ∈ call.paths, ∃ inner, f.route ns = .mounted mount inner

/-- Every path of `call` is the native catalog's. -/
def Native (f : FederatedCatalog) (call : StoreCall ib) : Prop :=
  call.paths ≠ [] ∧ ∀ ns ∈ call.paths, f.route ns = .native

/-- Where a namespace lives. -/
def siteOf (f : FederatedCatalog) (ns : NamespaceIdent) : Site :=
  match f.route ns with
  | .native => .native
  | .mounted mount _ => .mount mount.name

/-- Two paths of `call` live in different backends. -/
def Crosses (f : FederatedCatalog) (call : StoreCall ib) : Prop :=
  ∃ ns ∈ call.paths, ∃ ns' ∈ call.paths, f.siteOf ns ≠ f.siteOf ns'

theorem serve_mounted {call : StoreCall ib} (h : f.Under mount call) :
    Mounted mount call (f.serve call) := by
  obtain ⟨hne, hpaths⟩ := h
  cases call with
  | listNamespaces parent page =>
      cases parent with
      | none => exact absurd rfl hne
      | some ns =>
          obtain ⟨_, h⟩ := hpaths ns (List.mem_singleton_self ns)
          exact listNamespaces_mounted page h
  | capabilitiesFor parent =>
      cases parent with
      | none => exact absurd rfl hne
      | some ns =>
          obtain ⟨_, h⟩ := hpaths ns (List.mem_singleton_self ns)
          exact capabilitiesFor_mounted h
  | createNamespace ns properties =>
      obtain ⟨_, h⟩ := hpaths ns (List.mem_singleton_self ns)
      exact createNamespace_mounted properties h
  | getNamespace ns =>
      obtain ⟨_, h⟩ := hpaths ns (List.mem_singleton_self ns)
      exact getNamespace_mounted h
  | namespaceExists ns =>
      obtain ⟨_, h⟩ := hpaths ns (List.mem_singleton_self ns)
      exact namespaceExists_mounted h
  | updateNamespace ns properties =>
      obtain ⟨_, h⟩ := hpaths ns (List.mem_singleton_self ns)
      exact updateNamespace_mounted properties h
  | dropNamespace ns =>
      obtain ⟨_, h⟩ := hpaths ns (List.mem_singleton_self ns)
      exact dropNamespace_mounted h
  | listTables ns page =>
      obtain ⟨_, h⟩ := hpaths ns (List.mem_singleton_self ns)
      exact listTables_mounted page h
  | createTable ns creation =>
      obtain ⟨_, h⟩ := hpaths ns (List.mem_singleton_self ns)
      exact createTable_mounted creation h
  | stageCreateTable ns creation =>
      obtain ⟨_, h⟩ := hpaths ns (List.mem_singleton_self ns)
      exact stageCreateTable_mounted creation h
  | listViews ns page =>
      obtain ⟨_, h⟩ := hpaths ns (List.mem_singleton_self ns)
      exact listViews_mounted page h
  | warehouseFor ns =>
      obtain ⟨_, h⟩ := hpaths ns (List.mem_singleton_self ns)
      exact warehouseFor_mounted h
  | namespacePrefixFor ns =>
      obtain ⟨_, h⟩ := hpaths ns (List.mem_singleton_self ns)
      exact namespacePrefixFor_mounted h
  | metadataPointer ident =>
      obtain ⟨_, h⟩ := hpaths ident.namespc (List.mem_singleton_self _)
      exact metadataPointer_mounted h
  | loadTable ident =>
      obtain ⟨_, h⟩ := hpaths ident.namespc (List.mem_singleton_self _)
      exact loadTable_mounted h
  | tableExists ident =>
      obtain ⟨_, h⟩ := hpaths ident.namespc (List.mem_singleton_self _)
      exact tableExists_mounted h
  | registerTable ident location =>
      obtain ⟨_, h⟩ := hpaths ident.namespc (List.mem_singleton_self _)
      exact registerTable_mounted location h
  | dropTable ident =>
      obtain ⟨_, h⟩ := hpaths ident.namespc (List.mem_singleton_self _)
      exact dropTable_mounted h
  | purgeTable ident =>
      obtain ⟨_, h⟩ := hpaths ident.namespc (List.mem_singleton_self _)
      exact purgeTable_mounted h
  | viewExists ident =>
      obtain ⟨_, h⟩ := hpaths ident.namespc (List.mem_singleton_self _)
      exact viewExists_mounted h
  | loadView ident =>
      obtain ⟨_, h⟩ := hpaths ident.namespc (List.mem_singleton_self _)
      exact loadView_mounted h
  | registerView ident location =>
      obtain ⟨_, h⟩ := hpaths ident.namespc (List.mem_singleton_self _)
      exact registerView_mounted location h
  | createView ident metadata =>
      obtain ⟨_, h⟩ := hpaths ident.namespc (List.mem_singleton_self _)
      exact createView_mounted metadata h
  | updateView ident expected metadata =>
      obtain ⟨_, h⟩ := hpaths ident.namespc (List.mem_singleton_self _)
      exact updateView_mounted expected metadata h
  | dropView ident =>
      obtain ⟨_, h⟩ := hpaths ident.namespc (List.mem_singleton_self _)
      exact dropView_mounted h
  | commitTable change =>
      obtain ⟨_, h⟩ := hpaths change.ident.namespc (List.mem_singleton_self _)
      exact commitTable_mounted h
  | commitTablesAtomic commits =>
      refine commitTablesAtomic_mounted (fun h => hne (by rw [h]; rfl)) fun change hchange => ?_
      exact hpaths _ (List.mem_map_of_mem hchange)
  | renameTable src dest =>
      obtain ⟨_, hsrc⟩ := hpaths src.namespc (by simp [StoreCall.paths])
      obtain ⟨_, hdest⟩ := hpaths dest.namespc (by simp [StoreCall.paths])
      exact renameTable_mounted hsrc hdest
  | renameView src dest =>
      obtain ⟨_, hsrc⟩ := hpaths src.namespc (by simp [StoreCall.paths])
      obtain ⟨_, hdest⟩ := hpaths dest.namespc (by simp [StoreCall.paths])
      exact renameView_mounted hsrc hdest
  | storageHealthCheck => exact absurd rfl hne

theorem serve_native {call : StoreCall ib} (h : f.Native call) :
    f.serve call = ask .native call := by
  obtain ⟨hne, hpaths⟩ := h
  cases call with
  | listNamespaces parent page =>
      cases parent with
      | none => exact absurd rfl hne
      | some ns => simp only [serve, listNamespaces, hpaths ns (List.mem_singleton_self ns)]
  | capabilitiesFor parent =>
      cases parent with
      | none => rfl
      | some ns => simp only [serve, capabilitiesFor, hpaths ns (List.mem_singleton_self ns)]
  | createNamespace ns properties =>
      simp only [serve, createNamespace, hpaths ns (List.mem_singleton_self ns)]
  | getNamespace ns => simp only [serve, getNamespace, hpaths ns (List.mem_singleton_self ns)]
  | namespaceExists ns => simp only [serve, namespaceExists, hpaths ns (List.mem_singleton_self ns)]
  | updateNamespace ns properties =>
      simp only [serve, updateNamespace, hpaths ns (List.mem_singleton_self ns)]
  | dropNamespace ns => simp only [serve, dropNamespace, hpaths ns (List.mem_singleton_self ns)]
  | listTables ns page => simp only [serve, listTables, hpaths ns (List.mem_singleton_self ns)]
  | createTable ns creation =>
      simp only [serve, createTable, hpaths ns (List.mem_singleton_self ns)]
  | stageCreateTable ns creation =>
      simp only [serve, stageCreateTable, hpaths ns (List.mem_singleton_self ns)]
  | listViews ns page => simp only [serve, listViews, hpaths ns (List.mem_singleton_self ns)]
  | warehouseFor ns => simp only [serve, warehouseFor, hpaths ns (List.mem_singleton_self ns)]
  | namespacePrefixFor ns =>
      simp only [serve, namespacePrefixFor, hpaths ns (List.mem_singleton_self ns)]
  | metadataPointer ident =>
      simp only [serve, metadataPointer, hpaths ident.namespc (List.mem_singleton_self _)]
  | loadTable ident =>
      simp only [serve, loadTable, hpaths ident.namespc (List.mem_singleton_self _)]
  | tableExists ident =>
      simp only [serve, tableExists, hpaths ident.namespc (List.mem_singleton_self _)]
  | registerTable ident location =>
      simp only [serve, registerTable, hpaths ident.namespc (List.mem_singleton_self _)]
  | dropTable ident =>
      simp only [serve, dropTable, hpaths ident.namespc (List.mem_singleton_self _)]
  | purgeTable ident =>
      simp only [serve, purgeTable, hpaths ident.namespc (List.mem_singleton_self _)]
  | viewExists ident =>
      simp only [serve, viewExists, hpaths ident.namespc (List.mem_singleton_self _)]
  | loadView ident =>
      simp only [serve, loadView, hpaths ident.namespc (List.mem_singleton_self _)]
  | registerView ident location =>
      simp only [serve, registerView, hpaths ident.namespc (List.mem_singleton_self _)]
  | createView ident metadata =>
      simp only [serve, createView, hpaths ident.namespc (List.mem_singleton_self _)]
  | updateView ident expected metadata =>
      simp only [serve, updateView, hpaths ident.namespc (List.mem_singleton_self _)]
  | dropView ident =>
      simp only [serve, dropView, hpaths ident.namespc (List.mem_singleton_self _)]
  | commitTable change =>
      simp only [serve, commitTable, hpaths change.ident.namespc (List.mem_singleton_self _)]
  | commitTablesAtomic commits =>
      cases commits with
      | nil => exact absurd rfl hne
      | cons first commits =>
          have htarget : ∀ change ∈ commits, f.targetOf change.ident = f.targetOf first.ident := by
            intro change hchange
            rw [targetOf, targetOf, hpaths first.ident.namespc (List.mem_cons_self ..),
              hpaths change.ident.namespc (List.mem_cons_of_mem _ (List.mem_map_of_mem hchange))]
          simp only [serve, commitTablesAtomic, sameTarget, sameTarget_same htarget,
            decided_ok_bind,
            hpaths first.ident.namespc (List.mem_cons_self ..)]
  | renameTable src dest =>
      simp only [serve, renameTable, hpaths src.namespc (by simp [StoreCall.paths]),
        hpaths dest.namespc (by simp [StoreCall.paths])]
  | renameView src dest =>
      simp only [serve, renameView, hpaths src.namespc (by simp [StoreCall.paths]),
        hpaths dest.namespc (by simp [StoreCall.paths])]
  | storageHealthCheck => exact absurd rfl hne

theorem siteOf_eq_native {ns : NamespaceIdent} : f.siteOf ns = .native ↔ f.route ns = .native := by
  rw [siteOf]
  cases f.route ns <;> simp

theorem siteOf_mounted {ns : NamespaceIdent} (h : f.route ns = .mounted mount inner) :
    f.siteOf ns = .mount mount.name := by
  rw [siteOf, h]

/-- Paths of one mount go to one mount. -/
theorem route_of_siteOf {ns ns' : NamespaceIdent} (h : f.route ns = .mounted mount inner)
    (hsite : f.siteOf ns' = f.siteOf ns) : ∃ inner', f.route ns' = .mounted mount inner' := by
  rw [siteOf_mounted h, siteOf] at hsite
  cases hroute : f.route ns' with
  | native =>
      rw [hroute] at hsite
      cases hsite
  | mounted mount' inner' =>
      rw [hroute] at hsite
      obtain hname : mount'.name = mount.name := by simpa using hsite
      have hmount := (f.route_eq_mounted.mp h).2
      have hmount' := (f.route_eq_mounted.mp hroute).2
      rw [hname, hmount] at hmount'
      cases hmount'
      exact ⟨inner', rfl⟩

theorem siteOf_eq_of_targetOf {ident ident' : TableIdent}
    (h : f.targetOf ident = f.targetOf ident') :
    f.siteOf ident.namespc = f.siteOf ident'.namespc := by
  rw [targetOf, targetOf] at h
  rw [siteOf, siteOf]
  cases hroute : f.route ident.namespc with
  | native => cases hroute' : f.route ident'.namespc <;> simp_all
  | mounted mount inner => cases hroute' : f.route ident'.namespc <;> simp_all

/-- A call names no path, or all its paths are in one place, or they cross. -/
theorem places_cases (f : FederatedCatalog) (call : StoreCall ib) :
    call.paths = [] ∨ f.Native call ∨ (∃ mount, f.Under mount call) ∨ f.Crosses call := by
  cases hpaths : call.paths with
  | nil => exact Or.inl rfl
  | cons first rest =>
      have hne : call.paths ≠ [] := by simp [hpaths]
      have hmem : first ∈ call.paths := by simp [hpaths]
      refine Or.inr ?_
      by_cases hsame : ∀ ns ∈ call.paths, f.siteOf ns = f.siteOf first
      · cases hroute : f.route first with
        | native =>
            refine Or.inl ⟨hne, fun ns hns => ?_⟩
            rw [← siteOf_eq_native, hsame ns hns, siteOf_eq_native, hroute]
        | mounted mount inner =>
            exact Or.inr (Or.inl ⟨mount, hne, fun ns hns => route_of_siteOf hroute (hsame ns hns)⟩)
      · push Not at hsame
        obtain ⟨ns, hns, hdiffers⟩ := hsame
        exact Or.inr (Or.inr ⟨ns, hns, first, hmem, hdiffers⟩)

theorem siteOf_ne_of_pair {a b ns ns' : NamespaceIdent} (hns : ns ∈ [a, b]) (hns' : ns' ∈ [a, b])
    (h : f.siteOf ns ≠ f.siteOf ns') : f.siteOf a ≠ f.siteOf b := by
  simp only [List.mem_cons, List.not_mem_nil, or_false] at hns hns'
  rcases hns with rfl | rfl
  · rcases hns' with rfl | rfl
    · exact absurd rfl h
    · exact h
  · rcases hns' with rfl | rfl
    · exact h.symm
    · exact absurd rfl h

/-- A rename across two places is refused. -/
theorem rename_crossing {src dest : TableIdent}
    (h : f.siteOf src.namespc ≠ f.siteOf dest.namespc) :
    (f.renameTable src dest : Federated ib Unit) =
        decided (.error (refuseCrossMount "rename a table".toList src dest)) ∧
      (f.renameView src dest : Federated ib Unit) =
        decided (.error (refuseCrossMount "rename a view".toList src dest)) := by
  rw [siteOf, siteOf] at h
  rw [renameTable, renameView]
  cases hsrc : f.route src.namespc with
  | native =>
      cases hdest : f.route dest.namespc with
      | native => simp [hsrc, hdest] at h
      | mounted target inner => exact ⟨rfl, rfl⟩
  | mounted source inner =>
      cases hdest : f.route dest.namespc with
      | native => exact ⟨rfl, rfl⟩
      | mounted target inner' =>
          have hname : source.name ≠ target.name := by simpa [hsrc, hdest] using h
          exact ⟨if_neg hname, if_neg hname⟩

/-- Nothing is asked of any backend when the paths cross. -/
theorem serve_crossing {call : StoreCall ib} (h : f.Crosses call) :
    ∃ err : Error, err.kind = .featureUnsupported ∧ f.serve call = decided (.error err) := by
  obtain ⟨ns, hns, ns', hns', hdiffers⟩ := h
  have hsingle : ∀ only : NamespaceIdent, call.paths = [only] → False := by
    intro only honly
    rw [honly, List.mem_singleton] at hns hns'
    exact hdiffers (by rw [hns, hns'])
  cases call with
  | listNamespaces parent page =>
      cases parent with
      | none => cases hns
      | some parent => exact (hsingle parent rfl).elim
  | capabilitiesFor parent =>
      cases parent with
      | none => cases hns
      | some parent => exact (hsingle parent rfl).elim
  | storageHealthCheck => cases hns
  | commitTablesAtomic commits =>
      cases commits with
      | nil => cases hns
      | cons first commits =>
          have hother : ∃ change ∈ commits, f.targetOf change.ident ≠ f.targetOf first.ident := by
            by_contra hall
            push Not at hall
            have hsame : ∀ path ∈ (StoreCall.commitTablesAtomic (first :: commits)).paths,
                f.siteOf path = f.siteOf first.ident.namespc := by
              intro path hpath
              obtain ⟨change, hchange, rfl⟩ := List.mem_map.mp hpath
              rcases List.mem_cons.mp hchange with rfl | hchange
              · rfl
              · exact siteOf_eq_of_targetOf (hall change hchange)
            exact hdiffers ((hsame ns hns).trans (hsame ns' hns').symm)
          obtain ⟨err, hkind, herr⟩ := sameTarget_differs hother
          refine ⟨err, hkind, ?_⟩
          simp only [serve, commitTablesAtomic, sameTarget, herr, decided_error_bind]
  | renameTable src dest =>
      exact ⟨_, rfl, (rename_crossing (siteOf_ne_of_pair hns hns' hdiffers)).1⟩
  | renameView src dest =>
      exact ⟨_, rfl, (rename_crossing (siteOf_ne_of_pair hns hns' hdiffers)).2⟩
  | _ => exact (hsingle _ rfl).elim

/-! ## One backend at most -/

/-- Asked of `site`, or only for its health. -/
def AsksOnly (site : Site) (asked : Asked ib) : Prop :=
  asked.site = site ∨ asked.call = .storageHealthCheck

/-- Everything `operation` asks, it asks of `site`. -/
def Asks (site : Site) (operation : Federated ib α) : Prop :=
  Prog.Meets (AsksOnly site) (fun _ => True) operation.run

theorem Asks.decided {site : Site} (r : Except Error α) : Asks site (decided r : Federated ib α) :=
  trivial

theorem Asks.ask (site : Site) (call : StoreCall ib) : Asks site (ask site call) :=
  ⟨Or.inl rfl, fun _ => trivial⟩

theorem Asks.bind {site : Site} {p : Federated ib α} {k : α → Federated ib β} (hp : Asks site p)
    (hk : ∀ a, Asks site (k a)) : Asks site (p >>= k) :=
  Prog.Meets.bind hp fun
    | .ok a, _ => hk a
    | .error _, _ => trivial

theorem Mounted.asks {mount : Mount} {call : StoreCall ib} {operation : Federated ib call.Payload}
    (h : Mounted mount call operation) : Asks (.mount mount.name) operation := by
  rcases h with ⟨err, rfl⟩ | ⟨a, -, rfl⟩ | rfl
  · exact .decided _
  · exact .decided _
  · exact ⟨Or.inl rfl, fun _ => trivial⟩

theorem listRoot_asks (f : FederatedCatalog) (page : PageRequest) :
    Asks .native (f.listRoot page : Federated ib (Page NamespaceIdent)) := by
  rw [listRoot]
  dsimp only
  split
  · exact .decided _
  · exact .bind (.ask .native _) fun _ => .decided _

theorem unhealthy_asks (names : List Text) :
    Asks .native (unhealthy names : Federated ib (List Text)) := by
  induction names with
  | nil => exact .decided _
  | cons name names ih =>
      have hcheck : Asks .native (ExceptT.mk (.perform
          ⟨.mount name, (.storageHealthCheck : StoreCall ib)⟩ fun r => .done (.ok r)) :
          Federated ib (Except Error StorageHealthStatus)) := ⟨Or.inr rfl, fun _ => trivial⟩
      refine hcheck.bind fun check => ih.bind fun rest => ?_
      cases check <;> exact .decided _

theorem storageHealthCheck_asks (f : FederatedCatalog) :
    Asks .native (f.storageHealthCheck : Federated ib StorageHealthStatus) := by
  refine .bind (.ask .native _) fun status => .bind (unhealthy_asks _) fun names => ?_
  split <;> exact .decided _

/-- Every operation asks one backend, the health check apart. -/
theorem serve_asks (f : FederatedCatalog) (call : StoreCall ib) :
    ∃ site, Asks site (f.serve call) := by
  rcases f.places_cases call with hnone | hnative | ⟨mount, hunder⟩ | hcross
  · refine ⟨.native, ?_⟩
    cases call with
    | listNamespaces parent page =>
        cases parent with
        | none => exact listRoot_asks f page
        | some parent => cases hnone
    | capabilitiesFor parent =>
        cases parent with
        | none => exact .ask .native _
        | some parent => cases hnone
    | commitTablesAtomic commits =>
        cases commits with
        | nil => exact .decided _
        | cons first commits => cases hnone
    | storageHealthCheck => exact storageHealthCheck_asks f
    | _ => cases hnone
  · exact ⟨.native, by rw [serve_native hnative]; exact .ask .native call⟩
  · exact ⟨_, (serve_mounted hunder).asks⟩
  · obtain ⟨err, -, herr⟩ := serve_crossing hcross
    exact ⟨.native, by rw [herr]; exact .decided _⟩

/-- A call acts on the backend it is made to. -/
def Asked.Sem {S : Site → Type}
    (sem : (site : Site) → (call : StoreCall ib) → S site → call.Answer → S site → Prop)
    (asked : Asked ib) (s : (site : Site) → S site) (r : asked.Answer)
    (s' : (site : Site) → S site) : Prop :=
  ∃ t, sem asked.site asked.call (s asked.site) r t ∧ s' = Function.update s asked.site t

/-- At most one backend changes in any execution of an operation. -/
theorem serve_changes {S : Site → Type}
    {sem : (site : Site) → (call : StoreCall ib) → S site → call.Answer → S site → Prop}
    (hreads : ∀ site s r t, sem site .storageHealthCheck s r t → t = s) (f : FederatedCatalog)
    (call : StoreCall ib) :
    ∃ site, ∀ s a s', Prog.Exec (Asked.Sem sem) (f.serve call) s a s' →
      ∀ other, other ≠ site → s' other = s other := by
  obtain ⟨site, hasks⟩ := f.serve_asks call
  refine ⟨site, ?_⟩
  rintro s a s' ⟨h, hfollows, hsteps⟩ other hother
  have hall := (hasks.of_follows hfollows).1
  refine hsteps.keeps (I := fun t => t other = s other) rfl ?_
  rintro ⟨asked, r⟩ hx t t' hsame ⟨u, hsem, rfl⟩
  rcases hall _ hx with hsite | hhealth
  · rw [Function.update_of_ne (by rw [hsite]; exact hother), hsame]
  · obtain ⟨site', call'⟩ := asked
    obtain rfl : call' = .storageHealthCheck := hhealth
    rw [hreads _ _ _ _ hsem, Function.update_eq_self, hsame]

/-! ## Mounting -/

/-- An operation changes at most one backend. On native paths it is the native
catalog's; under a mount it is refused, answered from the configuration, or
the backend's own on the paths it knows; across backends it is refused. -/
theorem mounting_transparent (f : FederatedCatalog) (call : StoreCall ib) :
    (∀ (S : Site → Type)
        (sem : (site : Site) → (call : StoreCall ib) → S site → call.Answer → S site → Prop),
      (∀ site s r t, sem site .storageHealthCheck s r t → t = s) →
        ∃ site, ∀ s a s', Prog.Exec (Asked.Sem sem) (f.serve call) s a s' →
          ∀ other, other ≠ site → s' other = s other) ∧
      (f.Native call → f.serve call = ask .native call) ∧
      (∀ mount, f.Under mount call → Mounted mount call (f.serve call)) ∧
      (f.Crosses call → ∃ err : Error, err.kind = .featureUnsupported ∧
        f.serve call = decided (.error err)) :=
  ⟨fun _ _ hreads => serve_changes hreads f call, serve_native, fun _ => serve_mounted,
    serve_crossing⟩

/-- One mount, of the tenant `acme`, that can do everything. -/
def acmeMount : Mount where
  name := "lake".toList
  capabilities := ⟨true, true, true, true, true, true, true⟩
  owner := "acme".toList
  warehouse := none

def acmeCatalog : FederatedCatalog where
  mounts := (∅ : Relation Mount).insert "lake".toList acmeMount
  valid name mount h := by
    rw [Relation.getElem?_insert] at h
    split at h
    · next heq =>
        cases h
        subst heq
        exact ⟨rfl, by decide, by decide, by decide⟩
    · simp at h

theorem acmeCatalog_route (inner : List Text) :
    acmeCatalog.route ("lake".toList :: inner) = .mounted acmeMount inner :=
  acmeCatalog.route_eq_mounted.mpr
    ⟨rfl, (Relation.getElem?_insert ..).trans (if_pos rfl)⟩

theorem acmeCatalog_under {call : StoreCall ib} {inner : List Text}
    (h : call.paths = ["lake".toList :: inner]) : acmeCatalog.Under acmeMount call := by
  refine ⟨by simp [h], fun ns hns => ⟨inner, ?_⟩⟩
  rw [h, List.mem_singleton] at hns
  rw [hns, acmeCatalog_route]

/-- Dropping a table of the mount drops it in its backend, and nowhere else. -/
theorem mounting_transparent_drop :
    Mounted acmeMount (.dropTable ⟨["lake".toList, "db".toList], "t".toList⟩ : StoreCall .plain)
      (acmeCatalog.serve (.dropTable ⟨["lake".toList, "db".toList], "t".toList⟩)) :=
  (mounting_transparent acmeCatalog
    (.dropTable ⟨["lake".toList, "db".toList], "t".toList⟩)).2.2.1 acmeMount (acmeCatalog_under rfl)

/-- A mount root exists without its backend being asked, and a namespace of the
mount has the mount's owner whatever its backend recorded. -/
theorem mounting_not_transparent :
    (acmeCatalog.Under acmeMount (.namespaceExists ["lake".toList] : StoreCall .plain) ∧
      acmeCatalog.serve (.namespaceExists ["lake".toList] : StoreCall .plain) =
        decided (.ok true)) ∧
    acmeCatalog.Under acmeMount (.getNamespace ["lake".toList, "db".toList] : StoreCall .plain) ∧
      ∃ ns : Namespace, ns.properties[Api.tenantIdProperty]? = none ∧
        ∀ handler : (asked : Asked .plain) → Unit → asked.Answer × Unit,
          handler ⟨.mount "lake".toList, .getNamespace ["db".toList]⟩ () = (.ok ns, ()) →
          ∃ found : Namespace, (Prog.run handler
              (acmeCatalog.serve (.getNamespace ["lake".toList, "db".toList])) ()).1 = .ok found ∧
            found.properties[Api.tenantIdProperty]? = some "acme".toList := by
  refine ⟨⟨acmeCatalog_under rfl, ?_⟩, acmeCatalog_under rfl, ⟨["db".toList], ∅⟩, by simp, ?_⟩
  · simp only [serve, namespaceExists, acmeCatalog_route, if_true]
    rfl
  · intro handler hanswer
    refine ⟨own acmeMount ⟨["lake".toList, "db".toList], ∅⟩, ?_, Api.ownerOf_setOwner ..⟩
    have hserve : (acmeCatalog.serve (.getNamespace ["lake".toList, "db".toList]) :
        Federated .plain Namespace) =
        (ask (.mount "lake".toList) (.getNamespace ["db".toList]) >>= fun found =>
          decided (ownPrefixed acmeMount found)) := by
      simp only [serve, getNamespace, acmeCatalog_route]
      rfl
    have hrun := Prog.run_bind_except handler
      (ask (.mount "lake".toList) (.getNamespace ["db".toList]))
      (fun found => decided (ownPrefixed acmeMount found)) ()
    have hask : Prog.run handler (ask (.mount "lake".toList) (.getNamespace ["db".toList])).run () =
        (.ok ⟨["db".toList], ∅⟩, ()) := hanswer
    rw [hask, ← hserve] at hrun
    exact congrArg Prod.fst hrun

end FederatedCatalog

end Rustberg
