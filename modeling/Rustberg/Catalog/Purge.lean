import Rustberg.Catalog.Drop
import Rustberg.Catalog.LostUpdate

/-!
# Purging a table

`purge_table` loads a table, drops it, and deletes the files that the loaded
metadata references and that lie under the table's location
(`catalog/purge.rs`). The load and the drop are two transactions on a name,
and in between the name may come to stand for another table.

`purge_spares_live` is the condition under which no other table's files are
deleted: the name stays with the loaded table until it is dropped, and no
other table takes up the loaded table's files. `purge_deletes_live` is a
rename in between.
-/

namespace Rustberg

open Process

variable {ib : Iceberg}

/-- What is read of a table's files. No name of a file is ever used twice, so
one function says what each file holds. -/
structure TableFiles (ib : Iceberg) where
  /-- The metadata in a metadata file. -/
  metadata : Text → Option ib.Metadata
  /-- The manifest list of every snapshot. -/
  manifestLists : ib.Metadata → List Text
  metadataLog : ib.Metadata → List Text
  statistics : ib.Metadata → List Text
  partitionStatistics : ib.Metadata → List Text
  /-- `gc.enabled` -/
  gcEnabled : ib.Metadata → Except Error Bool
  /-- The manifests a manifest list names. -/
  manifestsOf : Text → List Text
  /-- The data files a manifest names. -/
  dataFilesOf : Text → List Text

namespace Redb

/-- Deletes each path that is inside `root`; a failure is only logged. -/
def deleteConfined (root : Text) : List Text → Op ib Unit
  | [] => return ()
  | path :: paths => do
      if isWithin root path then
        let _ ← capture (Op.delete path)
      deleteConfined root paths

/-- Deletes the files a table references. What a purge cannot read, of the
manifest lists and the manifests, it leaves out. -/
def purgeTableData (f : TableFiles ib) (readable : Text → Bool) (table : Table ib) :
    Op ib Unit := do
  let metadata := table.metadata
  let root := ib.location metadata
  let manifestLists := f.manifestLists metadata
  let manifests := ((manifestLists.filter readable).flatMap f.manifestsOf).dedup
  if ← ofExcept (f.gcEnabled metadata) then
    deleteConfined root ((manifests.filter readable).flatMap f.dataFilesOf)
  deleteConfined root manifests
  deleteConfined root (manifestLists.filter fun location => !location.isEmpty).dedup
  deleteConfined root (f.metadataLog metadata)
  deleteConfined root (f.statistics metadata)
  deleteConfined root (f.partitionStatistics metadata)
  deleteConfined root [table.metadataLocation]

def purgeTable (f : TableFiles ib) (readable : Text → Bool) (table : TableIdent) : Op ib Unit := do
  -- Load before dropping: the metadata says which files this table owns.
  let loaded ← loadTable table
  dropTable table
  purgeTableData f readable loaded

end Redb

/-- A call on the catalog, or a purge, which can read some of the manifests. -/
inductive Job (ib : Iceberg) where
  | call (q : Request ib)
  | purge (table : TableIdent) (readable : Text → Bool)

def Job.serve (f : TableFiles ib) (c : Catalog) : Job ib → Op ib (Reply ib)
  | .call q => Redb.serve c q
  | .purge table readable => (fun _ => .done) <$> Redb.purgeTable f readable table

/-- A metadata file that is read or written holds what it holds. -/
def Effect.Agrees (f : TableFiles ib) : (e : Effect ib) → e.Answer → Prop
  | .readMetadata location, r => ∀ metadata, r = .ok metadata → f.metadata location = some metadata
  | .writeMetadata metadata location, r => r = .ok () → f.metadata location = some metadata
  | _, _ => True

abbrev PurgeConfig (ib : Iceberg) :=
  Config (Effect ib) Effect.Answer (Except Error (Reply ib)) Registry (Job ib)

abbrev PurgeEvent (ib : Iceberg) := Event (Effect ib) Effect.Answer Registry (Job ib)

/-- A run of any calls and purges, from a registry that only they change. -/
abbrev PurgeRun (f : TableFiles ib) (c : Catalog) (start : Registry) (tr : List (PurgeEvent ib))
    (cfg : PurgeConfig ib) : Prop :=
  Run (fun job => (job.serve f c).run) (fun e s r s' => Sem e s r s' ∧ e.Agrees f r)
    (fun _ _ => False) ⟨start, []⟩ tr cfg

/-! ## Whose files they are -/

namespace TableFiles

variable (f : TableFiles ib)

/-- The files that metadata references. -/
def referenced (metadata : ib.Metadata) : List Text :=
  f.metadataLog metadata ++ f.statistics metadata ++ f.partitionStatistics metadata ++
    f.manifestLists metadata ++ (f.manifestLists metadata).flatMap f.manifestsOf ++
      ((f.manifestLists metadata).flatMap f.manifestsOf).flatMap f.dataFilesOf

theorem mem_referenced {metadata : ib.Metadata} {path : Text} :
    path ∈ f.referenced metadata ↔ path ∈ f.metadataLog metadata ∨ path ∈ f.statistics metadata ∨
      path ∈ f.partitionStatistics metadata ∨ path ∈ f.manifestLists metadata ∨
        path ∈ (f.manifestLists metadata).flatMap f.manifestsOf ∨
          path ∈ ((f.manifestLists metadata).flatMap f.manifestsOf).flatMap f.dataFilesOf := by
  simp only [referenced, List.mem_append, or_assoc]

/-- The files of the table whose metadata file is at `location`. -/
def filesAt (location : Text) : List Text :=
  location :: ((f.metadata location).map f.referenced).getD []

/-- No file is both tables'. -/
def ApartAt (location location' : Text) : Prop :=
  ∀ path ∈ f.filesAt location, path ∉ f.filesAt location'

/-- No two registered tables reference a common file. -/
def NoCommonFile (reg : Registry) : Prop :=
  ∀ (key key' : Text) (record record' : TabularRecord), key ≠ key' →
    reg.tables[key]? = some record → reg.tables[key']? = some record' →
      f.ApartAt record.metadataLocation record'.metadataLocation

end TableFiles

/-- The files call `i` has deleted. -/
def deletedBy (i : Nat) (tr : List (PurgeEvent ib)) : List Text :=
  (actsOf i tr).filterMap fun
    | ⟨.delete path, .ok ()⟩ => some path
    | _ => none

theorem mem_deletedBy {i : Nat} {tr : List (PurgeEvent ib)} {path : Text} :
    path ∈ deletedBy i tr ↔
      (⟨.delete path, .ok ()⟩ : Σ e : Effect ib, e.Answer) ∈ actsOf i tr := by
  refine List.mem_filterMap.trans ⟨fun ⟨x, hx, heq⟩ => ?_, fun h => ⟨_, h, rfl⟩⟩
  split at heq
  · cases heq
    exact hx
  · cases heq

/-- No file that call `i` has deleted is a registered table's. -/
def SparesLive (f : TableFiles ib) (i : Nat) (tr : List (PurgeEvent ib)) (reg : Registry) : Prop :=
  ∀ path ∈ deletedBy i tr, ∀ (key : Text) (record : TabularRecord),
    reg.tables[key]? = some record → path ∉ f.filesAt record.metadataLocation

/-! ## What a purge does -/

section

variable {f : TableFiles ib} {table : TableIdent}

/-- A history of the purge in which it has found its table at `location`. -/
def Found (table : TableIdent) (h : Path ib) (location : Text) : Prop :=
  ∃ record : TabularRecord, (⟨.getTabular .table (tableKey table), .ok (some record)⟩ :
      Σ e : Effect ib, e.Answer) ∈ h ∧ record.metadataLocation = location

/-- A history of the purge in which it has dropped its table. -/
def Dropped (table : TableIdent) (h : Path ib) : Prop :=
  (⟨.write (.drop .table table), .ok ()⟩ : Σ e : Effect ib, e.Answer) ∈ h

/-- A history of the purge in which it has read what it deletes by. -/
def Knows (f : TableFiles ib) (table : TableIdent) (h : Path ib) (path : Text) : Prop :=
  ∃ location metadata, Found table h location ∧ Dropped table h ∧
    (⟨.readMetadata location, .ok metadata⟩ : Σ e : Effect ib, e.Answer) ∈ h ∧
      path ∈ location :: f.referenced metadata

/-- What a purge performs, given what it has seen. -/
def PurgeIssues (f : TableFiles ib) (table : TableIdent) (h : Path ib) : Effect ib → Prop
  | .getTabular _ _ => h = []
  | .write tx => tx = .drop .table table
  | .delete path => Knows f table h path
  | _ => True

theorem Knows.append {h : Path ib} {path : Text} (hknows : Knows f table h path) (h' : Path ib) :
    Knows f table (h ++ h') path := by
  obtain ⟨location, metadata, ⟨record, hrecord, hlocation⟩, hdropped, hread, hpath⟩ := hknows
  exact ⟨location, metadata, ⟨record, List.mem_append_left _ hrecord, hlocation⟩,
    List.mem_append_left _ hdropped, List.mem_append_left _ hread, hpath⟩

/-- The deletions among `paths`. -/
def Deletes (paths : List Text) : Effect ib → Prop
  | .delete path => path ∈ paths
  | _ => False

open Op.Performs in
theorem deleteConfined_performs {root : Text} {paths all : List Text}
    (h : ∀ path ∈ paths, path ∈ all) :
    (Redb.deleteConfined root paths : Op ib Unit).Performs (Deletes all) fun _ => True := by
  induction paths with
  | nil => exact ret trivial
  | cons path paths ih =>
      obtain ⟨hpath, hpaths⟩ := List.forall_mem_cons.mp h
      rw [Redb.deleteConfined]
      split
      · exact seq (caught (one hpath)) fun _ => ih hpaths
      · exact ih hpaths

open Op.Performs in
/-- Everything a purge deletes, its table references. -/
theorem purgeTableData_performs (f : TableFiles ib) (readable : Text → Bool) (loaded : Table ib) :
    (Redb.purgeTableData f readable loaded).Performs
      (Deletes (loaded.metadataLocation :: f.referenced loaded.metadata)) fun _ => True := by
  let manifestLists := f.manifestLists loaded.metadata
  let manifests := ((manifestLists.filter readable).flatMap f.manifestsOf).dedup
  have hmanifests : ∀ path ∈ manifests, path ∈ manifestLists.flatMap f.manifestsOf := by
    intro path hpath
    obtain ⟨list, hlist, hpath⟩ := List.mem_flatMap.mp (List.mem_dedup.mp hpath)
    exact List.mem_flatMap.mpr ⟨list, List.mem_of_mem_filter hlist, hpath⟩
  have hdata : ∀ path ∈ (manifests.filter readable).flatMap f.dataFilesOf,
      path ∈ (manifestLists.flatMap f.manifestsOf).flatMap f.dataFilesOf := by
    intro path hpath
    obtain ⟨manifest, hmanifest, hpath⟩ := List.mem_flatMap.mp hpath
    exact List.mem_flatMap.mpr
      ⟨manifest, hmanifests manifest (List.mem_of_mem_filter hmanifest), hpath⟩
  have hlists : ∀ path ∈ (manifestLists.filter fun location => !location.isEmpty).dedup,
      path ∈ manifestLists := fun path hpath => List.mem_of_mem_filter (List.mem_dedup.mp hpath)
  have hmem : ∀ {path : Text}, _ →
      path ∈ loaded.metadataLocation :: f.referenced loaded.metadata :=
    fun h => List.mem_cons_of_mem _ (f.mem_referenced.mpr h)
  have hpart : ∀ {root : Text} {paths : List Text},
      (∀ path ∈ paths, path ∈ loaded.metadataLocation :: f.referenced loaded.metadata) →
        (Redb.deleteConfined root paths : Op ib Unit).Performs
          (Deletes (loaded.metadataLocation :: f.referenced loaded.metadata)) fun _ => True :=
    fun h => deleteConfined_performs h
  have hrest : (Redb.deleteConfined (ib.location loaded.metadata) manifests >>= fun _ =>
      Redb.deleteConfined (ib.location loaded.metadata)
          (manifestLists.filter fun location => !location.isEmpty).dedup >>= fun _ =>
        Redb.deleteConfined (ib.location loaded.metadata)
            (f.metadataLog loaded.metadata) >>= fun _ =>
          Redb.deleteConfined (ib.location loaded.metadata)
              (f.statistics loaded.metadata) >>= fun _ =>
            Redb.deleteConfined (ib.location loaded.metadata)
                (f.partitionStatistics loaded.metadata) >>= fun _ =>
              (Redb.deleteConfined (ib.location loaded.metadata) [loaded.metadataLocation] :
                Op ib Unit)).Performs
      (Deletes (loaded.metadataLocation :: f.referenced loaded.metadata)) fun _ => True := by
    refine seq (hpart fun path hpath => hmem (.inr (.inr (.inr (.inr (.inl ?_)))))) fun _ =>
      seq (hpart fun path hpath => hmem (.inr (.inr (.inr (.inl ?_))))) fun _ =>
        seq (hpart fun path hpath => hmem (.inl hpath)) fun _ =>
          seq (hpart fun path hpath => hmem (.inr (.inl hpath))) fun _ =>
            seq (hpart fun path hpath => hmem (.inr (.inr (.inl hpath)))) fun _ =>
              hpart fun path hpath => ?_
    · exact hmanifests path hpath
    · exact hlists path hpath
    · rw [List.mem_singleton.mp hpath]
      exact List.mem_cons_self
  refine bind (lift _ fun _ _ => trivial) fun gc _ => ?_
  cases gc with
  | false => exact hrest
  | true =>
      refine seq (hpart fun path hpath => hmem ?_) fun _ => hrest
      exact .inr (.inr (.inr (.inr (.inr (hdata path hpath)))))

/-- What a purge has read when it has loaded its table. -/
def Loaded (table : TableIdent) (h : Path ib) (loaded : Table ib) : Prop :=
  Found table h loaded.metadataLocation ∧
    (⟨.readMetadata loaded.metadataLocation, .ok loaded.metadata⟩ : Σ e : Effect ib, e.Answer) ∈ h

theorem Loaded.append {h : Path ib} {loaded : Table ib} (hloaded : Loaded table h loaded)
    (h' : Path ib) : Loaded table (h ++ h') loaded := by
  obtain ⟨⟨record, hrecord, hlocation⟩, hread⟩ := hloaded
  exact ⟨⟨record, List.mem_append_left _ hrecord, hlocation⟩, List.mem_append_left _ hread⟩

theorem loadTable_traced (f : TableFiles ib) (table : TableIdent) :
    Prog.Traced (PurgeIssues f table) (fun h r => ∀ loaded, r = .ok loaded →
      Loaded table h loaded) []
      (Redb.loadTable table).run := by
  refine Prog.Traced.bind_except
    (Q := fun h r => ∀ record, r = .ok (some record) → Found table h record.metadataLocation)
    ⟨rfl, fun r record hr => ?_⟩ (fun _ _ _ _ hr => by cases hr) fun h record hfound => ?_
  · subst hr
    exact ⟨record, List.mem_singleton_self _, rfl⟩
  · cases record with
    | none => exact fun _ hr => by cases hr
    | some record =>
        refine Prog.Traced.bind_except
          (Q := fun h r => ∀ metadata, r = .ok metadata → Found table h record.metadataLocation ∧
            (⟨.readMetadata record.metadataLocation, .ok metadata⟩ :
              Σ e : Effect ib, e.Answer) ∈ h)
          ⟨trivial, fun r metadata hr => ?_⟩ (fun _ _ _ _ hr => by cases hr)
            fun h metadata hread => ?_
        · subst hr
          obtain ⟨record', hrecord, hlocation⟩ := hfound record rfl
          exact ⟨⟨record', List.mem_append_left _ hrecord, hlocation⟩,
            List.mem_append_right _ (List.mem_singleton_self _)⟩
        · intro loaded hloaded
          cases hloaded
          exact hread metadata rfl

theorem purgeTable_traced (f : TableFiles ib) (readable : Text → Bool) (table : TableIdent) :
    Prog.Traced (PurgeIssues f table) (fun _ _ => True) []
      (Redb.purgeTable f readable table).run := by
  refine Prog.Traced.bind_except (loadTable_traced f table) (fun _ _ _ => trivial)
    fun h loaded hloaded => ?_
  refine Prog.Traced.bind_except
    (Q := fun h r => r = .ok () → Loaded table h loaded ∧ Dropped table h)
    ⟨rfl, fun r hr => ?_⟩ (fun _ _ _ => trivial) fun h _ hdropped => ?_
  · subst hr
    exact ⟨(hloaded loaded rfl).append _, List.mem_append_right _ (List.mem_singleton_self _)⟩
  · obtain ⟨⟨hfound, hread⟩, hdropped⟩ := hdropped rfl
    refine (purgeTableData_performs f readable loaded).traced (fun h' e he => ?_) fun _ _ _ =>
      trivial
    cases e with
    | delete path => exact Knows.append ⟨_, _, hfound, hdropped, hread, he⟩ h'
    | _ => exact he.elim

end

/-! ## The condition -/

/-- The tables a transaction publishes, by key, and their metadata files. -/
def Transaction.publishes : Transaction → List (Text × Text)
  | .create .table ident metadataLocation _ => [(tableKey ident, metadataLocation)]
  | .swap swaps => swaps.map fun swap => (tableKey swap.ident, swap.newLocation)
  | _ => []

/-- A record after a transaction was there before, was published by it, or was
moved by it. -/
theorem Transaction.record_cases {tx : Transaction} {reg reg' : Registry}
    (h : tx.apply reg = .ok reg') {key : Text} {record : TabularRecord}
    (hrecord : reg'.tables[key]? = some record) :
    reg.tables[key]? = some record ∨ (key, record.metadataLocation) ∈ tx.publishes ∨
      ∃ src dest old, tx = .rename .table src dest ∧ key = tableKey dest ∧
        reg.tables[tableKey src]? = some old ∧
        old.metadataLocation = record.metadataLocation := by
  cases tx with
  | createNamespace ns properties =>
      obtain ⟨-, -, rfl⟩ := createNamespaceTx_eq_ok.mp h
      exact Or.inl hrecord
  | updateNamespace ns properties =>
      obtain ⟨-, rfl⟩ := updateNamespaceTx_eq_ok.mp h
      exact Or.inl hrecord
  | dropNamespace ns =>
      obtain ⟨-, -, rfl⟩ := dropNamespaceTx_eq_ok.mp h
      exact Or.inl hrecord
  | create kind ident metadataLocation display =>
      obtain ⟨-, -, rfl⟩ := createTx_eq_ok.mp h
      cases kind with
      | table =>
          change (reg.tables.insert (tableKey ident) _)[key]? = some record at hrecord
          rw [Relation.getElem?_insert] at hrecord
          split at hrecord
          · next heq =>
              cases hrecord
              exact Or.inr (Or.inl (by rw [← heq]; exact List.mem_singleton_self _))
          · exact Or.inl hrecord
      | view => exact Or.inl hrecord
  | stage ident metadataLocation =>
      cases h
      exact Or.inl hrecord
  | drop kind ident =>
      obtain ⟨-, rfl⟩ := dropTx_eq_ok.mp h
      cases kind with
      | table =>
          change (reg.tables.erase (tableKey ident))[key]? = some record at hrecord
          rw [Relation.getElem?_erase] at hrecord
          split at hrecord
          · cases hrecord
          · exact Or.inl hrecord
      | view => exact Or.inl hrecord
  | rename kind src dest =>
      obtain ⟨old, hold, -, -, rfl⟩ := renameTx_eq_ok.mp h
      cases kind with
      | table =>
          change ((reg.tables.insert (tableKey dest) (old.renamed dest)).erase
            (tableKey src))[key]? =
            some record at hrecord
          rw [Relation.getElem?_erase] at hrecord
          split at hrecord
          · cases hrecord
          · rw [Relation.getElem?_insert] at hrecord
            split at hrecord
            · next heq =>
                cases hrecord
                exact Or.inr (Or.inr ⟨src, dest, old, rfl, heq.symm, hold, rfl⟩)
            · exact Or.inl hrecord
      | view => exact Or.inl hrecord
  | updateView view expected expectedLocation newLocation =>
      obtain ⟨_, -, -, -, rfl⟩ := updateViewTx_eq_ok.mp h
      exact Or.inl hrecord
  | swap swaps =>
      suffices hkeeps : ∀ {key : Text} {record : TabularRecord}, reg'.tables[key]? = some record →
          reg.tables[key]? = some record ∨
            (key, record.metadataLocation) ∈ (Transaction.swap swaps).publishes from
        (hkeeps hrecord).imp_right Or.inl
      refine swapTx_keeps (I := fun mid => ∀ {key : Text} {record : TabularRecord},
        mid.tables[key]? = some record → reg.tables[key]? = some record ∨
          (key, record.metadataLocation) ∈ (Transaction.swap swaps).publishes)
        (fun swap hswap mid mid' hmid hone key record hrecord => ?_) Or.inl h
      have htables : mid'.tables = mid.tables.insert (tableKey swap.ident) swap.next := by
        rcases swapOne_eq_ok.mp hone with ⟨_, _, -, -, -, -, rfl⟩ | ⟨-, -, -, -, rfl⟩ <;> rfl
      rw [htables, Relation.getElem?_insert] at hrecord
      split at hrecord
      · next heq =>
          cases hrecord
          rw [← heq]
          exact Or.inr (List.mem_map_of_mem hswap)
      · exact hmid hrecord

section

variable (f : TableFiles ib) (table : TableIdent)

/-- When the purge finds its table, no other table references one of its files. -/
def FindsApart (i : Nat) (ev : PurgeEvent ib) : Prop :=
  ∀ record : TabularRecord,
    ev.label = .act i (.getTabular .table (tableKey table)) (.ok (some record)) →
      ∀ (key : Text) (other : TabularRecord), key ≠ tableKey table →
        ev.pre.tables[key]? = some other →
          f.ApartAt record.metadataLocation other.metadataLocation

/-- After the history `h` of the purge, in which it has found its table at `found`,
no transaction publishes a table that references a file of that table's, unless
it is that table and not dropped yet; and until it is dropped nothing renames it. -/
def LeavesAlone (h : Path ib) (found : Text) (tx : Transaction) : Prop :=
  (∀ key location, (key, location) ∈ tx.publishes →
    f.ApartAt found location ∨ key = tableKey table ∧ ¬ Dropped table h) ∧
  ∀ src dest, tx = .rename .table src dest → tableKey src ≠ tableKey table ∨ Dropped table h

/-- The run leaves the purge's table alone from when it is found. -/
def Undisturbed (i : Nat) (tr : List (PurgeEvent ib)) : Prop :=
  ∀ tr₁ ev tr₂, tr = tr₁ ++ ev :: tr₂ → FindsApart f table i ev ∧
    ∀ found, Found table (actsOf i tr₁) found → ∀ j tx,
      ev.label = .act j (.write tx) (.ok ()) → LeavesAlone f table (actsOf i tr₁) found tx

variable {f table}

theorem Undisturbed.of_append {i : Nat} {tr₁ tr₂ : List (PurgeEvent ib)}
    (h : Undisturbed f table i (tr₁ ++ tr₂)) : Undisturbed f table i tr₁ :=
  fun tr₀ ev tr₃ htr => h tr₀ ev (tr₃ ++ tr₂) (by rw [htr]; simp)

/-- Once the purge has found its table, no other table has one of its files, and
once it has dropped it no table has. -/
def Held (f : TableFiles ib) (table : TableIdent) (h : Path ib) (reg : Registry) : Prop :=
  ∀ found, Found table h found → ∀ (key : Text) (record : TabularRecord),
    reg.tables[key]? = some record → key ≠ tableKey table ∨ Dropped table h →
      f.ApartAt found record.metadataLocation

/-- What one transaction keeps. -/
theorem Held.apply {h : Path ib} {reg reg' : Registry} {tx : Transaction}
    (hheld : Held f table h reg) (happly : tx.apply reg = .ok reg')
    (halone : ∀ found, Found table h found → LeavesAlone f table h found tx) :
    Held f table h reg' := by
  intro found hfound key record hrecord hkey
  rcases Transaction.record_cases happly hrecord with
    hold | hpublished | ⟨src, dest, old, rfl, rfl, hold, hlocation⟩
  · exact hheld found hfound key record hold hkey
  · rcases (halone found hfound).1 key record.metadataLocation hpublished with hapart | ⟨heq, hnot⟩
    · exact hapart
    · exact absurd heq (hkey.resolve_right hnot)
  · rw [← hlocation]
    exact hheld found hfound _ old hold ((halone found hfound).2 src dest rfl)

theorem Found.of_snoc {h : Path ib} {x : Σ e : Effect ib, e.Answer} {found : Text}
    (hx : ∀ record, x ≠ ⟨.getTabular .table (tableKey table), .ok (some record)⟩)
    (hfound : Found table (h ++ [x]) found) : Found table h found := by
  obtain ⟨record, hmem, hlocation⟩ := hfound
  rcases List.mem_append.mp hmem with hmem | hmem
  · exact ⟨record, hmem, hlocation⟩
  · exact absurd (List.mem_singleton.mp hmem).symm (hx record)

theorem Dropped.of_snoc {h : Path ib} {x : Σ e : Effect ib, e.Answer}
    (hx : x ≠ ⟨.write (.drop .table table), .ok ()⟩) (hdropped : Dropped table (h ++ [x])) :
    Dropped table h := by
  rcases List.mem_append.mp hdropped with hmem | hmem
  · exact hmem
  · exact absurd (List.mem_singleton.mp hmem).symm hx

/-- What a purge holds of the registry, an event of another call keeps. -/
theorem Held.other {h : Path ib} {e : Effect ib} {r : e.Answer} {reg reg' : Registry}
    (hheld : Held f table h reg) (hsem : Sem e reg r reg')
    (halone : ∀ found, Found table h found → ∀ tx, (⟨e, r⟩ : Σ e : Effect ib, e.Answer) =
      ⟨.write tx, .ok ()⟩ → LeavesAlone f table h found tx) : Held f table h reg' := by
  cases e with
  | write tx =>
      have hcommits : Commits tx reg r reg' := hsem
      cases hcommits with
      | committed happly => exact hheld.apply happly fun found hfound => halone found hfound tx rfl
      | aborted _ => exact hheld
      | failed _ => exact hheld
  | _ => rwa [hsem.1]

/-- What a purge holds of the registry, its own next effect keeps. -/
theorem Held.own {h : Path ib} {e : Effect ib} {r : e.Answer} {reg reg' : Registry}
    (hheld : Held f table h reg) (hissues : PurgeIssues f table h e) (hsem : Sem e reg r reg')
    (hfinds : ∀ record : TabularRecord, (⟨e, r⟩ : Σ e : Effect ib, e.Answer) =
      ⟨.getTabular .table (tableKey table), .ok (some record)⟩ →
        ∀ (key : Text) (other : TabularRecord), key ≠ tableKey table →
          reg.tables[key]? = some other →
            f.ApartAt record.metadataLocation other.metadataLocation) :
    Held f table (h ++ [⟨e, r⟩]) reg' := by
  have hsame : (∀ record, (⟨e, r⟩ : Σ e : Effect ib, e.Answer) ≠
      ⟨.getTabular .table (tableKey table), .ok (some record)⟩) →
      (⟨e, r⟩ : Σ e : Effect ib, e.Answer) ≠ ⟨.write (.drop .table table), .ok ()⟩ →
        reg' = reg → Held f table (h ++ [⟨e, r⟩]) reg' := by
    intro hget hdrop hreg found hfound key record hrecord hkey
    rw [hreg] at hrecord
    exact hheld found (hfound.of_snoc hget) key record hrecord
      (hkey.imp_right (Dropped.of_snoc hdrop))
  cases e with
  | getTabular kind key =>
      -- The purge looks its table up first.
      obtain rfl : h = [] := hissues
      obtain ⟨rfl, -⟩ := hsem
      rintro found ⟨record, hmem, rfl⟩ key' other hother hkey'
      have hx := (List.mem_singleton.mp hmem).symm
      refine hfinds record hx key' other (hkey'.resolve_right fun hdropped => ?_) hother
      cases List.mem_singleton.mp hdropped
  | write tx =>
      obtain rfl : tx = .drop .table table := hissues
      have hcommits : Commits (.drop .table table) reg r reg' := hsem
      cases hcommits with
      | committed happly =>
          obtain ⟨-, rfl⟩ := dropTx_eq_ok.mp happly
          intro found hfound key record hrecord _
          change (reg.tables.erase (tableKey table))[key]? = some record at hrecord
          rw [Relation.getElem?_erase] at hrecord
          split at hrecord
          · cases hrecord
          · next hne =>
              exact hheld found (hfound.of_snoc fun _ h => by cases h) key record hrecord
                (Or.inl fun heq => hne heq.symm)
      | aborted _ => exact hsame (fun _ h => by cases h) (fun h => by cases h) rfl
      | failed _ => exact hsame (fun _ h => by cases h) (fun h => by cases h) rfl
  | _ => exact hsame (fun _ h => by cases h) (fun h => by cases h) hsem.1

variable {c : Catalog} {start : Registry} {tr : List (PurgeEvent ib)} {cfg : PurgeConfig ib}

theorem serve_purge_traced (f : TableFiles ib) (c : Catalog) (table : TableIdent)
    (readable : Text → Bool) :
    Prog.Traced (PurgeIssues f table) (fun _ _ => True) []
      ((Job.purge table readable : Job ib).serve f c).run := by
  rw [Job.serve, run_map]
  exact Prog.Traced.bind (purgeTable_traced f readable table) fun _ _ _ => trivial

/-- What a purge holds of the registry, in every state reached. -/
theorem PurgeRun.held (hrun : PurgeRun f c start tr cfg) {i : Nat} {readable : Text → Bool}
    (hi : ∀ call, cfg.calls[i]? = some call → call.request = .purge table readable)
    (h : Undisturbed f table i tr) : Held f table (actsOf i tr) cfg.state := by
  induction hrun with
  | nil =>
      rintro found ⟨record, hmem, -⟩
      cases hmem
  | @snoc tr cfg cfg' l hr hs ih =>
      have hcalls : ∀ call, cfg.calls[i]? = some call → call.request = .purge table readable := by
        intro call hcall
        obtain ⟨call', hcall', hrequest⟩ := hs.request hcall
        rw [← hrequest]
        exact hi call' hcall'
      have hpre := ih hcalls h.of_append
      obtain ⟨hfinds, halone⟩ := h tr _ [] rfl
      cases hs with
      | start q => simpa [actsOf] using hpre
      | env s' hs => exact hs.elim
      | act j q e k r s' hj hs =>
          by_cases hij : j = i
          · subst hij
            rw [actsOf_append, actsOf_act]
            obtain rfl : q = .purge table readable := hcalls _ hj
            exact hpre.own (hr.traced hj (serve_purge_traced f c table readable)).1 hs.1
              fun record hx => hfinds record (by cases hx; rfl)
          · have hacts : actsOf i (tr ++ [⟨cfg.state, .act j e r, s'⟩]) = actsOf i tr := by
              simp [actsOf, hij]
            rw [hacts]
            exact hpre.other hs.1 fun found hfound tx hx =>
              halone found hfound j tx (by cases hx; rfl)

/-- A metadata file the run has read holds what was read. -/
theorem PurgeRun.read (hrun : PurgeRun f c start tr cfg) {i : Nat} {location : Text}
    {metadata : ib.Metadata}
    (hread : (⟨.readMetadata location, .ok metadata⟩ : Σ e : Effect ib, e.Answer) ∈ actsOf i tr) :
    f.metadata location = some metadata := by
  obtain ⟨ev, hev, hlabel⟩ := exists_of_mem_actsOf hread
  rcases hrun.event_cases hev with ⟨q, hq, -⟩ | ⟨j, e, r, hact, -, hagrees⟩ | ⟨henv, -⟩
  · cases hlabel.symm.trans hq
  · cases hlabel.symm.trans hact
    exact hagrees metadata rfl
  · cases hlabel.symm.trans henv

/-- Everything a purge has deleted, it has read that its table references. -/
theorem PurgeRun.knows (hrun : PurgeRun f c start tr cfg) {i : Nat} {readable : Text → Bool}
    (hi : ∀ call, cfg.calls[i]? = some call → call.request = .purge table readable)
    {path : Text} (hpath : path ∈ deletedBy i tr) : Knows f table (actsOf i tr) path := by
  have hmem := mem_deletedBy.mp hpath
  obtain ⟨⟨q, rest⟩, hcall⟩ := hrun.call_of_mem hmem
  obtain rfl : q = .purge table readable := hi _ hcall
  have hfollows := hrun.follows hcall
  obtain ⟨h₁, h₂, hacts⟩ := List.append_of_mem hmem
  rw [hacts] at hfollows ⊢
  exact ((serve_purge_traced f c table readable).issued hfollows : Knows f table h₁ path).append _

/-- A purge that is left alone from when it finds its table deletes no file of a
table that is registered. -/
theorem purge_spares_live (f : TableFiles ib) (c : Catalog) (start : Registry)
    (tr : List (PurgeEvent ib)) (cfg : PurgeConfig ib) (hrun : PurgeRun f c start tr cfg)
    (i : Nat) (call : Call (Effect ib) Effect.Answer (Except Error (Reply ib)) (Job ib))
    (table : TableIdent) (readable : Text → Bool) (hcall : cfg.calls[i]? = some call)
    (hpurge : call.request = .purge table readable) (h : Undisturbed f table i tr) :
    SparesLive f i tr cfg.state := by
  have hi : ∀ call, cfg.calls[i]? = some call → call.request = .purge table readable :=
    fun call' hcall' => by rw [← Option.some.inj (hcall.symm.trans hcall'), hpurge]
  intro path hpath key record hrecord
  obtain ⟨location, metadata, hfound, hdropped, hread, hmem⟩ := hrun.knows hi hpath
  refine hrun.held hi h location hfound key record hrecord (Or.inr hdropped) path ?_
  rwa [TableFiles.filesAt, hrun.read hread]

end

/-! ## A name that moves under a purge

The purge loads `db.t`; another client renames the table to `db.u` and creates
a new `db.t`; the purge drops the new table and deletes the files of the old
one. -/

/-- What a metadata file of the plainest tables holds: the location it is at. -/
def plainMetadata (location : Text) : Text :=
  (Text.splitOnceStr metadataDirectory location).elim [] Prod.fst

/-- The plainest tables' files: one snapshot, of one manifest of one data file. -/
def TableFiles.plain : TableFiles Iceberg.plain where
  metadata location := some (plainMetadata location)
  manifestLists metadata := [List.append metadata "/metadata/snap.avro".toList]
  metadataLog _ := []
  statistics _ := []
  partitionStatistics _ := []
  gcEnabled _ := .ok true
  manifestsOf manifestList := [manifestList ++ ".m0".toList]
  dataFilesOf manifest := [manifest ++ ".parquet".toList]

/-- Storage in which those files are. -/
def Env.plain : Env Iceberg.plain :=
  { Env.empty Iceberg.plain with
    readMetadata := fun location => .ok (plainMetadata location)
    writeMetadata := fun (metadata : Text) location =>
      if plainMetadata location = metadata then .ok ()
      else .error ⟨.dataInvalid, "not there".toList⟩ }

theorem Env.plain_sem (e : Effect Iceberg.plain) (reg : Registry) :
    Sem e reg (Env.plain.onRegistry e reg).1 (Env.plain.onRegistry e reg).2 ∧
      e.Agrees TableFiles.plain (Env.plain.onRegistry e reg).1 := by
  refine ⟨Env.plain.onRegistry_sem e reg, ?_⟩
  cases e with
  | readMetadata location =>
      intro metadata h
      exact congrArg some (Except.ok.inj h)
  | writeMetadata metadata location =>
      intro h
      simp only [Env.onRegistry, Env.handle, Env.plain] at h
      split at h
      · next heq => exact congrArg some heq
      · cases h
  | _ => trivial

/-- The run a schedule determines, from `start`. -/
def purgeRunOf (start : Registry) (ms : List (Move (Job Iceberg.plain))) :
    List (PurgeEvent Iceberg.plain) × PurgeConfig Iceberg.plain :=
  Config.moves (fun job => (job.serve TableFiles.plain bucket).run) Env.plain.onRegistry
    ⟨start, []⟩ ms

theorem purgeRunOf_run (start : Registry) (ms : List (Move (Job Iceberg.plain))) :
    PurgeRun TableFiles.plain bucket start (purgeRunOf start ms).1 (purgeRunOf start ms).2 :=
  Run.nil.moves Env.plain_sem ms

def tableT : TableIdent := ⟨["db".toList], "t".toList⟩

def recordT : TabularRecord :=
  ⟨["db".toList], "t".toList, "s3://bucket/wh/db/t/metadata/00000-a.metadata.json".toList, 0⟩

/-- A namespace `db` with one table `t`. -/
def oneTable : Registry :=
  { dbRegistry with tables := (∅ : Relation TabularRecord).insert (tableKey tableT) recordT }

theorem oneTable_tables {key : Text} {record : TabularRecord}
    (h : oneTable.tables[key]? = some record) : key = tableKey tableT := by
  simp only [oneTable, Relation.getElem?_insert] at h
  split at h
  · next heq => exact heq.symm
  · simp at h

theorem oneTable_noCommonFile (f : TableFiles ib) : f.NoCommonFile oneTable := by
  intro key key' record record' hne hrecord hrecord'
  exact absurd ((oneTable_tables hrecord).trans (oneTable_tables hrecord').symm) hne

def purgeT : Job Iceberg.plain := .purge tableT fun _ => true

def moveSchedule : List (Move (Job Iceberg.plain)) :=
  [.start purgeT, .step 0, .step 0,
    .start (.call (.renameTable tableT ⟨["db".toList], "u".toList⟩)),
    .step 1, .step 1,
    .start (.call (.createTable ["db".toList]
      ⟨"t".toList, some "s3://bucket/wh/db/new".toList, ()⟩)),
    .step 2, .step 2, .step 2, .step 2, .step 2, .step 2,
    .step 0, .step 0, .step 0, .step 0, .step 0]

def movedRun : List (PurgeEvent Iceberg.plain) × PurgeConfig Iceberg.plain :=
  purgeRunOf oneTable moveSchedule

/-- The calls that a purge is to stay clear of. -/
def Job.Races : Job ib → Prop
  | .call (.renameTable ..) => True
  | .call (.createTable ..) => True
  | .call (.registerTable ..) => True
  | .call (.commitTable ..) => True
  | .call _ => False
  | .purge .. => True

theorem purge_deletes_live :
    ¬ ∀ (ib : Iceberg) (f : TableFiles ib) (c : Catalog) (start : Registry)
      (tr : List (PurgeEvent ib)) (cfg : PurgeConfig ib), PurgeRun f c start tr cfg →
        f.NoCommonFile start → (∀ call ∈ cfg.calls, call.request.Races) →
        ∀ (table : TableIdent) (readable : Text → Bool)
          (result : Except Error (Reply ib)),
          cfg.calls[0]? = some ⟨.purge table readable, .done result⟩ →
            SparesLive f 0 tr cfg.state := by
  intro hall
  have hraces : ∀ call ∈ movedRun.2.calls, call.request.Races := by
    have hrequests : movedRun.2.calls.map Call.request =
        [purgeT, .call (.renameTable tableT ⟨["db".toList], "u".toList⟩),
          .call (.createTable ["db".toList]
            ⟨"t".toList, some "s3://bucket/wh/db/new".toList, ()⟩)] := rfl
    intro call hcall
    have hmem := List.mem_map_of_mem (f := Call.request) hcall
    rw [hrequests] at hmem
    simp only [List.mem_cons, List.not_mem_nil, or_false] at hmem
    rcases hmem with h | h | h <;> rw [h] <;> trivial
  -- the location is spelled out before the run is evaluated
  have hrecordT : recordT = ⟨["db".toList], "t".toList, _, 0⟩ :=
    congrArg (TabularRecord.mk _ _ · 0) String.toList_ofList
  have hmoved : movedRun = purgeRunOf oneTable moveSchedule := rfl
  rw [oneTable, hrecordT] at hmoved
  have hreturned :
    movedRun.2.calls[0]? = some ⟨.purge tableT fun _ => true, .done (.ok .done)⟩ := by
    rw [hmoved]
    rfl
  have hspares := hall _ _ bucket _ _ _ (purgeRunOf_run oneTable moveSchedule)
    (oneTable_noCommonFile _) hraces tableT (fun _ => true) (.ok .done) hreturned
  have hlive : (movedRun.2.state.tables[tableKey ⟨["db".toList], "u".toList⟩]?).map
      TabularRecord.metadataLocation =
        some "s3://bucket/wh/db/t/metadata/00000-a.metadata.json".toList := by
    rw [hmoved, String.toList_ofList]
    decide
  obtain ⟨record, hrecord, hlocation⟩ := Option.map_eq_some_iff.mp hlive
  have hdeleted : "s3://bucket/wh/db/t/metadata/snap.avro".toList ∈ deletedBy 0 movedRun.1 := by
    rw [hmoved, String.toList_ofList]
    decide
  refine hspares _ hdeleted _ record hrecord ?_
  rw [hlocation, String.toList_ofList, String.toList_ofList]
  decide

/-! ## A purge that is left alone -/

def locationT : Text := "t/metadata/a".toList

/-- A namespace `db` with two tables, `t` and `u`. -/
def twoTables : Registry :=
  { dbRegistry with
    tables := ((∅ : Relation TabularRecord).insert (tableKey tableT)
      ⟨["db".toList], "t".toList, locationT, 0⟩).insert (tableKey ⟨["db".toList], "u".toList⟩)
        ⟨["db".toList], "u".toList, "u/metadata/a".toList, 0⟩ }

/-- While `t` is purged another client renames `u`, and a third puts a new table in the place of
`t` once that is dropped. -/
def besideSchedule : List (Move (Job Iceberg.plain)) :=
  [.start purgeT, .step 0,
    .start (.call (.renameTable ⟨["db".toList], "u".toList⟩ ⟨["db".toList], "v".toList⟩)),
    .step 1, .step 0, .step 1, .step 0,
    .start (.call (.createTable ["db".toList] ⟨"t".toList, some "s3://bucket/wh/db/n".toList, ()⟩)),
    .step 2, .step 2, .step 2, .step 0, .step 2, .step 2, .step 0, .step 0, .step 0]

def besideRun : List (PurgeEvent Iceberg.plain) × PurgeConfig Iceberg.plain :=
  purgeRunOf twoTables besideSchedule

def apartFrom (location location' : Text) : Bool :=
  (TableFiles.plain.filesAt location).all fun path =>
    !(TableFiles.plain.filesAt location').contains path

theorem apartAt_of_check {location location' : Text} (h : apartFrom location location' = true) :
    TableFiles.plain.ApartAt location location' := by
  intro path hpath hpath'
  have hone := List.all_eq_true.mp h path hpath
  rw [List.contains_iff_mem.mpr hpath'] at hone
  cases hone

/-- The table is found at its location, apart from the others, and the event leaves it alone. -/
def leavesAlone (ev : PurgeEvent Iceberg.plain) : Bool :=
  match ev.label with
  | .act _ (.getTabular .table key) (.ok (some record)) =>
      key != tableKey tableT || record.metadataLocation == locationT &&
        ev.pre.tables.toList.all fun entry =>
          entry.1 == tableKey tableT || apartFrom locationT entry.2.metadataLocation
  | .act _ (.write (.rename .table src _)) (.ok ()) => tableKey src != tableKey tableT
  | .act _ (.write tx) (.ok ()) => tx.publishes.all fun placed => apartFrom locationT placed.2
  | _ => true

theorem undisturbed_of_check {tr : List (PurgeEvent Iceberg.plain)}
    (h : tr.all leavesAlone = true) : Undisturbed TableFiles.plain tableT 0 tr := by
  have hfound : ∀ ev ∈ tr, ∀ i record,
      ev.label = .act i (.getTabular .table (tableKey tableT)) (.ok (some record)) →
        record.metadataLocation = locationT ∧ ∀ key other, key ≠ tableKey tableT →
          ev.pre.tables[key]? = some other →
            TableFiles.plain.ApartAt locationT other.metadataLocation := by
    intro ev hev i record hlabel
    have hone := List.all_eq_true.mp h ev hev
    rw [leavesAlone, hlabel] at hone
    simp only [bne_self_eq_false, Bool.false_or, Bool.and_eq_true, beq_iff_eq, List.all_eq_true,
      Bool.or_eq_true] at hone
    refine ⟨hone.1, fun key other hne hother => apartAt_of_check ?_⟩
    exact (hone.2 (key, other)
      (Std.ExtTreeMap.mem_toList_iff_getElem?_eq_some.mpr hother)).resolve_left hne
  rintro tr₁ ev tr₂ rfl
  have hev : ev ∈ tr₁ ++ ev :: tr₂ := List.mem_append_right _ List.mem_cons_self
  refine ⟨fun record hlabel key other hne hother => ?_, ?_⟩
  · obtain ⟨hlocation, hapart⟩ := hfound ev hev 0 record hlabel
    rw [hlocation]
    exact hapart key other hne hother
  · rintro found ⟨record, hmem, rfl⟩ j tx hlabel
    obtain ⟨ev', hev', hlabel'⟩ := exists_of_mem_actsOf hmem
    rw [(hfound ev' (List.mem_append_left _ hev') 0 record hlabel').1]
    have hone := List.all_eq_true.mp h ev hev
    rw [leavesAlone, hlabel] at hone
    refine ⟨fun key location hplaced => .inl (apartAt_of_check ?_), fun src dest htx => .inl ?_⟩
    · cases tx with
      | rename kind src dest => cases hplaced
      | _ => exact List.all_eq_true.mp hone _ hplaced
    · cases htx
      simpa using hone

/-- The files that are deleted are neither of the table that moved nor of the new one. -/
theorem purge_spares_live_beside :
    SparesLive TableFiles.plain 0 besideRun.1 besideRun.2.state ∧
      deletedBy 0 besideRun.1 ≠ [] ∧ tableKey tableT ∈ besideRun.2.state.tables ∧
        tableKey ⟨["db".toList], "v".toList⟩ ∈ besideRun.2.state.tables :=
  ⟨purge_spares_live TableFiles.plain bucket twoTables _ _
    (purgeRunOf_run twoTables besideSchedule) 0
    ⟨purgeT, .done (.ok .done)⟩ _ (fun _ => true) rfl rfl (undisturbed_of_check (by decide)),
    by decide, by decide, by decide⟩

end Rustberg
