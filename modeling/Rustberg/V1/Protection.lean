import Rustberg.V1.Service
import Rustberg.V1.Sign

/-!
# Deletion protection

`drop_table` and `drop_view` load a resource, refuse it where its properties
mark it protected, and then remove whatever the name stands for; a purge loads
it once more in between. What is removed is what was checked only if nothing
has come in its place.

`removed_unprotected`: a removal that succeeds has removed a resource that was
not marked, in every run in which no other client puts a marked one under the
name between the load that was checked and the removal. Metadata files are
taken never to change once they are there (`FilesAgree`).
-/

namespace Rustberg

variable {ib : Iceberg}

/-- What a transaction puts under the names of one kind: keys and metadata locations. -/
def Transaction.places (reg : Registry) (kind : Tabular) : Transaction → List (Text × Text)
  | .create kind' ident metadataLocation _ =>
      if kind = kind' then [(tableKey ident, metadataLocation)] else []
  | .rename kind' src dest =>
      if kind = kind' then
        ((reg.tabulars kind)[tableKey src]?.map fun old =>
          (tableKey dest, old.metadataLocation)).toList
      else []
  | .updateView view _ _ newLocation =>
      if kind = .view then [(tableKey view, newLocation)] else []
  | .swap swaps =>
      if kind = .table then swaps.map fun swap => (tableKey swap.ident, swap.newLocation) else []
  | _ => []

theorem Registry.setTabulars_cases {reg : Registry} {kind kind' : Tabular}
    {m : Relation TabularRecord} {key : Text} {record : TabularRecord}
    (h : ((reg.setTabulars kind' m).tabulars kind)[key]? = some record) :
    (reg.tabulars kind)[key]? = some record ∨ kind = kind' ∧ m[key]? = some record := by
  rw [Registry.setTabulars_tabulars] at h
  split at h
  · next heq => exact Or.inr ⟨heq, h⟩
  · exact Or.inl h

theorem Relation.insert_cases {V : Type} {m : Relation V} {key key' : Text} {v v' : V}
    (h : (m.insert key' v')[key]? = some v) : m[key]? = some v ∨ key = key' ∧ v = v' := by
  rw [Relation.getElem?_insert] at h
  split at h
  · next heq => exact Or.inr ⟨heq.symm, (Option.some.inj h).symm⟩
  · exact Or.inl h

theorem Relation.of_erase {V : Type} {m : Relation V} {key key' : Text} {v : V}
    (h : (m.erase key')[key]? = some v) : m[key]? = some v := by
  rw [Relation.getElem?_erase] at h
  split at h
  · cases h
  · exact h

/-- What stands under a name after a transaction stood there before, or was put there. -/
theorem Transaction.placed_cases {tx : Transaction} {reg reg' : Registry}
    (h : tx.apply reg = .ok reg') {kind : Tabular} {key : Text} {record : TabularRecord}
    (hrecord : (reg'.tabulars kind)[key]? = some record) :
    (reg.tabulars kind)[key]? = some record ∨
    (key, record.metadataLocation) ∈ tx.places reg kind := by
  cases tx with
  | createNamespace ns properties =>
      obtain ⟨-, -, rfl⟩ := createNamespaceTx_eq_ok.mp h
      cases kind <;> exact Or.inl hrecord
  | updateNamespace ns properties =>
      obtain ⟨-, rfl⟩ := updateNamespaceTx_eq_ok.mp h
      cases kind <;> exact Or.inl hrecord
  | dropNamespace ns =>
      obtain ⟨-, -, rfl⟩ := dropNamespaceTx_eq_ok.mp h
      cases kind <;> exact Or.inl hrecord
  | stage ident metadataLocation =>
      cases h
      cases kind <;> exact Or.inl hrecord
  | create kind' ident metadataLocation display =>
      obtain ⟨-, -, rfl⟩ := createTx_eq_ok.mp h
      rcases Registry.setTabulars_cases hrecord with hold | ⟨rfl, hmem⟩
      · exact Or.inl hold
      · refine (Relation.insert_cases hmem).imp_right ?_
        rintro ⟨rfl, rfl⟩
        simp [places]
  | drop kind' ident =>
      obtain ⟨-, rfl⟩ := dropTx_eq_ok.mp h
      rcases Registry.setTabulars_cases hrecord with hold | ⟨rfl, hmem⟩
      · exact Or.inl hold
      · exact Or.inl (Relation.of_erase hmem)
  | rename kind' src dest =>
      obtain ⟨old, hold, -, -, rfl⟩ := renameTx_eq_ok.mp h
      rcases Registry.setTabulars_cases hrecord with hold' | ⟨rfl, hmem⟩
      · exact Or.inl hold'
      · refine (Relation.insert_cases (Relation.of_erase hmem)).imp_right ?_
        rintro ⟨rfl, rfl⟩
        simp [places, hold, TabularRecord.renamed]
  | updateView view expected expectedLocation newLocation =>
      obtain ⟨live, -, -, -, rfl⟩ := updateViewTx_eq_ok.mp h
      cases kind with
      | table => exact Or.inl hrecord
      | view =>
          refine (Relation.insert_cases hrecord).imp_right ?_
          rintro ⟨rfl, rfl⟩
          simp [places]
  | swap swaps =>
      refine swapTx_keeps (I := fun mid => ∀ {key : Text} {record : TabularRecord},
        (mid.tabulars kind)[key]? = some record → (reg.tabulars kind)[key]? = some record ∨
          (key, record.metadataLocation) ∈ (Transaction.swap swaps).places reg kind)
        (fun swap hswap mid mid' hmid hone key record hrecord => ?_) Or.inl h hrecord
      have hmid' : mid'.views = mid.views ∧
          mid'.tables = mid.tables.insert (tableKey swap.ident) swap.next := by
        rcases swapOne_eq_ok.mp hone with ⟨_, _, -, -, -, -, rfl⟩ | ⟨-, -, -, -, rfl⟩ <;>
          exact ⟨rfl, rfl⟩
      cases kind with
      | view =>
          change mid'.views[key]? = some record at hrecord
          rw [hmid'.1] at hrecord
          exact hmid hrecord
      | table =>
          change mid'.tables[key]? = some record at hrecord
          rw [hmid'.2] at hrecord
          rcases Relation.insert_cases hrecord with hold | ⟨rfl, rfl⟩
          · exact hmid hold
          · refine Or.inr ?_
            rw [places, if_pos rfl]
            exact List.mem_map_of_mem (f := fun swap : Swap =>
              (tableKey swap.ident, swap.newLocation))
              hswap

end Rustberg

namespace Rustberg.V1

open Process Auth Api

variable {ib : Iceberg} {d : Crates ib}

/-! ## Removals, and what comes between their steps -/

/-- What a client of the server asks: to remove a resource, or anything else of
the catalog. -/
inductive Client (ib : Iceberg) where
  | dropTable (principal : Principal) (request : RequestContext) (table : TableIdent)
      (purgeRequested : Bool)
  | dropView (principal : Principal) (request : RequestContext) (view : TableIdent)
  | call (q : Rustberg.Request ib)
  | purge (table : TableIdent)

namespace Client

/-- What a removal removes. -/
def removes : Client ib → Option (Tabular × TableIdent)
  | .dropTable _ _ table _ => some (.table, table)
  | .dropView _ _ view => some (.view, view)
  | _ => none

/-- The program of a request, and whether it succeeded. -/
def program (d : Crates ib) (st : Store ib) (app : AppState) : Client ib → Server d Bool
  | .dropTable principal request table purgeRequested =>
      Except.isOk <$> st.served (V1.dropTable app principal request table purgeRequested)
  | .dropView principal request view =>
      Except.isOk <$> st.served (V1.dropView app principal request view)
  | .call q => Except.isOk <$> onCatalog (Redb.serve st.catalog q)
  | .purge table => Except.isOk <$> onCatalog (Redb.purgeTable st.files st.readable table)

end Client

section

variable (d : Crates ib) (st : Store ib) (views : Text → Option ib.ViewMetadata)

/-- Metadata files never change: what is read of one, or written to it, is what it holds at any
time. `views` says it of the views' files. -/
def FilesAgree : (e : ServerEffect d) → e.Answer → Prop
  | .catalog (.readViewMetadata location), r => ∀ metadata, r = .ok metadata →
      views location = some metadata
  | .catalog (.writeViewMetadata metadata location), r => r = .ok () →
      views location = some metadata
  | .catalog e, r => e.Agrees st.files r
  | _, _ => True

abbrev ClientConfig (d : Crates ib) :=
  Config (ServerEffect d) ServerEffect.Answer Bool Registry (Client ib)

abbrev ClientEvent (d : Crates ib) :=
  Process.Event (ServerEffect d) ServerEffect.Answer Registry (Client ib)

/-- A run of any removals and any other requests, from a registry that only they change. -/
abbrev ClientRun (app : AppState) (start : Registry) (tr : List (ClientEvent d))
    (cfg : ClientConfig d) : Prop :=
  Run (Client.program d st app) (fun e s r s' => ServerSem e s r s' ∧ FilesAgree d st views e r)
    (fun _ _ => False) ⟨start, []⟩ tr cfg

/-- Whether the metadata file at a location marks its resource protected. -/
def Marked : Tabular → Text → Prop
  | .table, location => ∃ metadata, st.files.metadata location = some metadata ∧
      isProtected (d.properties metadata) = true
  | .view, location => ∃ metadata, views location = some metadata ∧
      isProtected (d.viewProperties metadata) = true

/-- The name stands for a resource that is marked. -/
def MarkedAt (kind : Tabular) (ident : TableIdent) (reg : Registry) : Prop :=
  ∃ record, (reg.tabulars kind)[tableKey ident]? = some record ∧
    Marked d st views kind record.metadataLocation

end

/-! ## What a removal has seen -/

/-- What a request has asked of the registry and the other parties. -/
abbrev Seen (d : Crates ib) := Prog.History (ServerEffect d) ServerEffect.Answer

section

variable (kind : Tabular) (ident : TableIdent)

def Loaded (h : Seen d) (record : TabularRecord) : Prop :=
  ⟨.catalog (.getTabular kind (tableKey ident)), .ok (some record)⟩ ∈ h

/-- The resource that was read is not marked. -/
def Unprotected (h : Seen d) (location : Text) : Prop :=
  match kind with
  | .table => ∃ metadata, ⟨.catalog (.readMetadata location), .ok metadata⟩ ∈ h ∧
      isProtected (d.properties metadata) = false
  | .view => ∃ metadata, ⟨.catalog (.readViewMetadata location), .ok metadata⟩ ∈ h ∧
      isProtected (d.viewProperties metadata) = false

/-- The check a removal has made. -/
def Checked (h : Seen d) : Prop :=
  ∃ record, Loaded kind ident h record ∧ Unprotected kind h record.metadataLocation

def Unwritten (h : Seen d) : Prop :=
  ∀ (tx : Transaction) (r : Except Error Unit), ⟨.catalog (.write tx), r⟩ ∉ h

def Removed (h : Seen d) : Prop :=
  ⟨.catalog (.write (.drop kind ident)), .ok ()⟩ ∈ h

/-- A removal writes once, the drop, and only after its check. -/
def RemovalIssues (h : Seen d) : ServerEffect d → Prop
  | .catalog (.write tx) => tx = .drop kind ident ∧ Checked kind ident h ∧ Unwritten h
  | _ => True

end

section

variable {kind : Tabular} {ident : TableIdent} {h h' : Seen d}

theorem Unprotected.append {location : Text} (hread : Unprotected kind h location) (h' : Seen d) :
    Unprotected kind (h ++ h') location := by
  cases kind with
  | table =>
      obtain ⟨metadata, hmem, hfree⟩ := hread
      exact ⟨metadata, List.mem_append_left _ hmem, hfree⟩
  | view =>
      obtain ⟨metadata, hmem, hfree⟩ := hread
      exact ⟨metadata, List.mem_append_left _ hmem, hfree⟩

theorem Checked.append (hchecked : Checked kind ident h) (h' : Seen d) :
    Checked kind ident (h ++ h') := by
  obtain ⟨record, hloaded, hfree⟩ := hchecked
  exact ⟨record, List.mem_append_left _ hloaded, hfree.append h'⟩

theorem Unwritten.append (hnone : Unwritten h) (hnone' : Unwritten h') : Unwritten (h ++ h') := by
  intro tx r hmem
  rcases List.mem_append.mp hmem with hmem | hmem
  · exact hnone tx r hmem
  · exact hnone' tx r hmem

/-- The effects that are no write transaction. -/
def Reads : ServerEffect d → Prop
  | .catalog (.write _) => False
  | _ => True

/-- A program that writes nothing is one step of a removal. -/
theorem Reads.traced {α : Type} {p : Server d α} {Q : α → Prop} (hp : Prog.Meets Reads Q p)
    (hnone : Unwritten h) :
    Prog.Traced (RemovalIssues kind ident)
      (fun h' a => Q a ∧ Unwritten h' ∧ (Checked kind ident h → Checked kind ident h')) h p := by
  induction p generalizing h with
  | done a => exact ⟨hp, hnone, id⟩
  | perform e k ih =>
      refine ⟨?_, fun r => ?_⟩
      · cases e with
        | catalog e =>
            cases e with
            | write tx => exact hp.1.elim
            | _ => trivial
        | _ => trivial
      · have hone : Unwritten ([⟨e, r⟩] : Seen d) := by
          intro tx r' hmem
          cases List.mem_singleton.mp hmem
          exact hp.1
        refine Prog.Traced.mono (ih r (hp.2 r) (hnone.append hone)) (fun _ _ hP => hP) ?_
        exact fun h' a hQ => ⟨hQ.1, hQ.2.1, fun hchecked => hQ.2.2 (hchecked.append _)⟩

/-! ## What a removal does -/

/-- An operation of the catalog that issues no transaction. -/
theorem onCatalog_reads {α : Type} {op : Op ib α} {Q : α → Prop}
    (hop : op.Writes (fun _ => False) Q) :
    Prog.Meets Reads (Prog.OrError Q) (onCatalog op : Server d (Except Error α)) := by
  refine Prog.Meets.through hop fun e he => ⟨?_, fun _ => trivial⟩
  cases e with
  | write tx => exact he
  | _ => trivial

theorem authorize_reads (st : Store ib) (app : AppState) (principal : Principal)
    (request : RequestContext) (ns : NamespaceIdent) (target : Target) (action : Auth.Action) :
    Prog.Meets Reads (fun _ => True)
      (st.served (authorize app principal request ns target action : Served d Authorized)) := by
  let asks : Call d → Prop := fun
    | .store (.getNamespace _) | .write _ => True
    | _ => False
  refine Prog.Meets.through (P := asks) (authorize_traced (P := fun _ => asks) (h := []) trivial
    (fun _ _ => trivial) principal request target action).meets fun c hc => ?_
  cases c with
  | write event => exact ⟨trivial, fun _ => trivial⟩
  | vendCredentials request => exact hc.elim
  | store call =>
      cases call with
      | getNamespace ns =>
          refine Prog.Meets.mono (onCatalog_reads (Q := fun _ => True) ?_) fun _ _ => trivial
          refine Op.Performs.seq (Op.Performs.seq (Op.Performs.one trivial) fun found => ?_)
            fun _ =>
            Op.Performs.ret trivial
          cases found with
          | some record => exact Op.Performs.ret trivial
          | none => exact Op.Performs.fail _
      | _ => exact hc.elim

/-- A call of the store, its error mapped. -/
theorem call_traced {st : Store ib} {c : StoreCall ib}
    {P : Seen d → ServerEffect d → Prop} {T : Seen d → Except Error c.Payload → Prop}
    {T' : Seen d → Except Stop c.Payload → Prop} (hop : Prog.Traced P T h (onCatalog (st.answer c)))
    (hend : ∀ h r, T h r → T' h (r.mapError fun e => .failed (AppError.fromIceberg e))) :
    Prog.Traced P T' h (st.served (call c : Served d c.Payload)) :=
  Prog.Traced.bind hop hend

/-- The tables' load: the entry, then its file. -/
theorem loadTable_checked (table : TableIdent) (hnone : Unwritten h) :
    Prog.Traced (RemovalIssues .table table) (fun h' r => Unwritten h' ∧ ∀ loaded : Table ib,
        r = .ok loaded → ∃ record, Loaded .table table h' record ∧
          ⟨.catalog (.readMetadata record.metadataLocation), .ok loaded.metadata⟩ ∈ h') h
      (onCatalog (Redb.loadTable table) : Server d (Except Error (Table ib))) := by
  have hone : ∀ {h : Seen d} (e : Effect ib) (r : e.Answer), Unwritten h →
      (∀ tx, e ≠ .write tx) → Unwritten (h ++ [⟨.catalog e, r⟩]) := by
    intro h e r hh he
    refine hh.append fun tx r' hmem => ?_
    cases List.mem_singleton.mp hmem
    exact he tx rfl
  refine ⟨trivial, fun r => ?_⟩
  cases r with
  | error err => exact ⟨hone _ _ hnone (fun _ heq => by cases heq), fun loaded hok => by cases hok⟩
  | ok found =>
      cases found with
      | none => exact ⟨hone _ _ hnone (fun _ heq => by cases heq), fun loaded hok => by cases hok⟩
      | some record =>
          refine ⟨trivial, fun r => ?_⟩
          have hnone' := hone (.readMetadata record.metadataLocation) r
            (hone (.getTabular .table (tableKey table)) (.ok (some record)) hnone
              fun _ heq => by cases heq)
            fun _ heq => by cases heq
          cases r with
          | error err => exact ⟨hnone', fun loaded hok => by cases hok⟩
          | ok metadata =>
              refine ⟨hnone', fun loaded hok => ⟨record, ?_, ?_⟩⟩
              · exact List.mem_append_left _ (List.mem_append_right _ (List.mem_singleton_self _))
              · cases hok
                exact List.mem_append_right _ (List.mem_singleton_self _)

/-- The views' load, alike. -/
theorem loadView_checked (view : TableIdent) (hnone : Unwritten h) :
    Prog.Traced (RemovalIssues .view view) (fun h' r => Unwritten h' ∧
        ∀ loaded : Text × ib.ViewMetadata, r = .ok loaded → ∃ record, Loaded .view view h' record ∧
          ⟨.catalog (.readViewMetadata record.metadataLocation), .ok loaded.2⟩ ∈ h') h
      (onCatalog (Redb.loadView view) : Server d (Except Error (Text × ib.ViewMetadata))) := by
  have hone : ∀ {h : Seen d} (e : Effect ib) (r : e.Answer), Unwritten h →
      (∀ tx, e ≠ .write tx) → Unwritten (h ++ [⟨.catalog e, r⟩]) := by
    intro h e r hh he
    refine hh.append fun tx r' hmem => ?_
    cases List.mem_singleton.mp hmem
    exact he tx rfl
  refine ⟨trivial, fun r => ?_⟩
  cases r with
  | error err => exact ⟨hone _ _ hnone (fun _ heq => by cases heq), fun loaded hok => by cases hok⟩
  | ok found =>
      cases found with
      | none => exact ⟨hone _ _ hnone (fun _ heq => by cases heq), fun loaded hok => by cases hok⟩
      | some record =>
          refine ⟨trivial, fun r => ?_⟩
          have hnone' := hone (.readViewMetadata record.metadataLocation) r
            (hone (.getTabular .view (tableKey view)) (.ok (some record)) hnone
              fun _ heq => by cases heq)
            fun _ heq => by cases heq
          cases r with
          | error err => exact ⟨hnone', fun loaded hok => by cases hok⟩
          | ok metadata =>
              refine ⟨hnone', fun loaded hok => ⟨record, ?_, ?_⟩⟩
              · exact List.mem_append_left _ (List.mem_append_right _ (List.mem_singleton_self _))
              · cases hok
                exact List.mem_append_right _ (List.mem_singleton_self _)

/-- The drop, once it is checked. -/
theorem drop_removes (hchecked : Checked kind ident h) (hnone : Unwritten h) :
    Prog.Traced (RemovalIssues kind ident) (fun h' r => r = .ok () → Removed kind ident h') h
      (onCatalog (Op.write (.drop kind ident)) : Server d (Except Error Unit)) :=
  ⟨⟨rfl, hchecked, hnone⟩, fun r hr => by
    cases hr
    exact List.mem_append_right _ (List.mem_singleton_self _)⟩

/-- The drop of a purge: its own load changes nothing of the check. -/
theorem purge_removes (f : TableFiles ib) (readable : Text → Bool) {table : TableIdent}
    (hchecked : Checked .table table h) (hnone : Unwritten h) :
    Prog.Traced (RemovalIssues .table table) (fun h' r => r = .ok () → Removed .table table h') h
      (onCatalog (Redb.purgeTable f readable table) : Server d (Except Error Unit)) := by
  have hload : (Redb.loadTable table : Op ib (Table ib)).Writes (fun _ => False) fun _ => True := by
    refine Op.Performs.seq (Op.Performs.one trivial) fun found => ?_
    cases found with
    | none => exact Op.Performs.fail _
    | some record => exact Op.Performs.seq (Op.Performs.one trivial) fun _ =>
        Op.Performs.ret trivial
  rw [onCatalog, Redb.purgeTable, Prog.through_bind_except]
  refine Prog.Traced.bind_except (Reads.traced (onCatalog_reads hload) hnone)
    (fun _ _ _ hok => by cases hok) fun h' loaded hloaded => ?_
  rw [Prog.through_bind_except]
  refine Prog.Traced.bind_except (drop_removes (hloaded.2.2 hchecked) hloaded.2.1)
    (fun _ _ _ hok => by cases hok) fun h'' _ hremoved => ?_
  have hwalk : (Redb.purgeTableData f readable loaded).Writes (fun _ => False) fun _ => True :=
    Prog.Meets.weaken (purgeTableData_performs f readable loaded) fun e he => by
      cases e with
      | delete path => trivial
      | _ => exact he.elim
  refine (onCatalog_reads (d := d) hwalk).traced (fun h₂ e he => ?_) fun h₂ _ _ _ =>
    List.mem_append_left _ (hremoved rfl)
  cases e with
  | catalog e =>
      cases e with
      | write tx => exact he.elim
      | _ => trivial
  | _ => trivial

theorem isOk_traced {ε α : Type} {P : Seen d → ServerEffect d → Prop} {R : Seen d → Prop}
    {p : Server d (Except ε α)}
    (hp : Prog.Traced P (fun h r => (∃ a, r = .ok a) → R h) h p) :
    Prog.Traced P (fun h ok => ok = true → R h) h (Except.isOk <$> p) := by
  rw [map_eq_pure_bind]
  refine Prog.Traced.bind hp fun h' r hr hok => hr ?_
  cases r with
  | ok a => exact ⟨a, rfl⟩
  | error e => cases hok

theorem check_traced {α : Type} {st : Store ib} {r : Except AppError α}
    {P : Seen d → ServerEffect d → Prop} {T : Seen d → Except Stop α → Prop}
    (h : Seen d) (hend : T h (r.mapError .failed)) :
    Prog.Traced P T h (st.served (check r : Served d α)) := hend

theorem return_traced {α : Type} {st : Store ib} {P : Seen d → ServerEffect d → Prop}
    {T : Seen d → Except Stop α → Prop} {a : α} (hend : T h (.ok a)) :
    Prog.Traced P T h (st.served (pure a : Served d α)) := hend

theorem unprotected_of_check {properties : Properties} {what : Text} {u : Unit}
    (h : (rejectIfProtected properties what).mapError Stop.failed = .ok u) :
    isProtected properties = false := by
  unfold rejectIfProtected at h
  cases hprotected : isProtected properties with
  | false => rfl
  | true =>
      rw [hprotected, if_pos rfl] at h
      cases h

/-- What a removal has done where it succeeds. -/
abbrev Succeeds (kind : Tabular) (ident : TableIdent) {ε α : Type} (h : Seen d) (r : Except ε α) :
    Prop := (∃ a, r = .ok a) → Removed kind ident h

variable (st : Store ib) (app : AppState) (principal : Principal) (request : RequestContext)

theorem loadTable_traced (table : TableIdent) (hnone : Unwritten h) :
    Prog.Traced (RemovalIssues .table table) (fun h' r => Unwritten h' ∧ ∀ loaded : Table ib,
        r = .ok loaded → ∃ record, Loaded .table table h' record ∧
          ⟨.catalog (.readMetadata record.metadataLocation), .ok loaded.metadata⟩ ∈ h') h
      (st.served (call (.loadTable table) : Served d (Table ib))) :=
  call_traced (loadTable_checked table hnone) fun _ _ hread =>
    ⟨hread.1, fun loaded hok => hread.2 loaded (mapError_eq_ok hok)⟩

theorem loadView_traced (view : TableIdent) (hnone : Unwritten h) :
    Prog.Traced (RemovalIssues .view view) (fun h' r => Unwritten h' ∧
        ∀ loaded : Text × ib.ViewMetadata, r = .ok loaded → ∃ record, Loaded .view view h' record ∧
          ⟨.catalog (.readViewMetadata record.metadataLocation), .ok loaded.2⟩ ∈ h') h
      (st.served (call (.loadView view) : Served d (Text × ib.ViewMetadata))) :=
  call_traced (loadView_checked view hnone) fun _ _ hread =>
    ⟨hread.1, fun loaded hok => hread.2 loaded (mapError_eq_ok hok)⟩

theorem dropTable_removes (table : TableIdent) (purgeRequested : Bool) :
    Prog.Traced (RemovalIssues .table table) (Succeeds .table table) []
      (st.served (V1.dropTable app principal request table purgeRequested : Served d
        (Reply d))) := by
  have hfail : ∀ {α : Type} (h : Seen d) (e : Stop), (∃ a : α, (.error e : Except Stop α) = .ok a) →
      Removed .table table h := fun _ _ hok => hok.elim fun _ heq => by cases heq
  unfold V1.dropTable
  refine Store.traced_bind (Reads.traced (authorize_reads st app principal request _ _ _)
    fun _ _ hmem => absurd hmem List.not_mem_nil) (fun h e _ => hfail h e) ?_
  rintro h authorized ⟨-, hnone, -⟩
  refine Store.traced_bind (loadTable_traced st table hnone) (fun h e _ => hfail h e) ?_
  rintro h loaded ⟨hnone, hread⟩
  obtain ⟨record, hloaded, hfile⟩ := hread loaded rfl
  refine Store.traced_bind (T := fun h' r => h' = h ∧
    r = (rejectIfProtected (d.properties loaded.metadata)
      ("Table '".toList ++ table.display ++ ['\''])).mapError .failed)
    (check_traced h ⟨rfl, rfl⟩) (fun h e _ => hfail h e) ?_
  rintro _ u ⟨rfl, hcheck⟩
  have hchecked : Checked .table table _ :=
    ⟨record, hloaded, loaded.metadata, hfile, unprotected_of_check hcheck.symm⟩
  refine Store.traced_bind (T := Succeeds .table table) ?_ (fun h e _ => hfail h e)
    fun h' _ hremoved => return_traced fun _ => hremoved ⟨_, rfl⟩
  unfold removeTable
  cases purgeRequested with
  | true =>
      refine call_traced (c := .purgeTable table)
        (purge_removes st.files st.readable hchecked hnone) ?_
      rintro _ _ hremoved ⟨_, hu⟩
      exact hremoved (mapError_eq_ok hu)
  | false =>
      refine call_traced (c := .dropTable table) (drop_removes hchecked hnone) ?_
      rintro _ _ hremoved ⟨_, hu⟩
      exact hremoved (mapError_eq_ok hu)

theorem dropView_removes (view : TableIdent) :
    Prog.Traced (RemovalIssues .view view) (Succeeds .view view) []
      (st.served (V1.dropView app principal request view : Served d (Reply d))) := by
  have hfail : ∀ {α : Type} (h : Seen d) (e : Stop), (∃ a : α, (.error e : Except Stop α) = .ok a) →
      Removed .view view h := fun _ _ hok => hok.elim fun _ heq => by cases heq
  unfold V1.dropView
  refine Store.traced_bind (Reads.traced (authorize_reads st app principal request _ _ _)
    fun _ _ hmem => absurd hmem List.not_mem_nil) (fun h e _ => hfail h e) ?_
  rintro h authorized ⟨-, hnone, -⟩
  refine Store.traced_bind (loadView_traced st view hnone) (fun h e _ => hfail h e) ?_
  rintro h ⟨location, metadata⟩ ⟨hnone, hread⟩
  obtain ⟨record, hloaded, hfile⟩ := hread _ rfl
  refine Store.traced_bind (T := fun h' r => h' = h ∧
    r = (rejectIfProtected (d.viewProperties metadata)
      ("View '".toList ++ view.display ++ ['\''])).mapError .failed)
    (check_traced h ⟨rfl, rfl⟩) (fun h e _ => hfail h e) ?_
  rintro _ u ⟨rfl, hcheck⟩
  have hchecked : Checked .view view _ :=
    ⟨record, hloaded, metadata, hfile, unprotected_of_check hcheck.symm⟩
  refine Store.traced_bind (T := Succeeds .view view) ?_ (fun h e _ => hfail h e)
    fun h' _ hremoved => return_traced fun _ => hremoved ⟨_, rfl⟩
  refine call_traced (c := .dropView view) (drop_removes hchecked hnone) ?_
  rintro _ _ hremoved ⟨_, hu⟩
  exact hremoved (mapError_eq_ok hu)

end

theorem Client.removal_traced (st : Store ib) (app : AppState) {c : Client ib} {kind : Tabular}
    {ident : TableIdent} (h : c.removes = some (kind, ident)) :
    Prog.Traced (RemovalIssues kind ident) (fun h ok => ok = true → Removed kind ident h) []
      (c.program d st app) := by
  cases c with
  | dropTable principal request table purgeRequested =>
      cases h
      exact isOk_traced (dropTable_removes st app principal request _ purgeRequested)
  | dropView principal request view =>
      cases h
      exact isOk_traced (dropView_removes st app principal request _)
  | call q => cases h
  | purge table => cases h

/-! ## Runs -/

section

variable (d : Crates ib) (st : Store ib) (views : Text → Option ib.ViewMetadata)
  (kind : Tabular) (ident : TableIdent)

/-- The resource that was loaded is not marked. -/
def Cleared (h : Seen d) : Prop :=
  ∃ record, Loaded kind ident h record ∧ ¬ Marked d st views kind record.metadataLocation

/-- Between the load of call `i` and its removal no other client puts a marked
resource under the name. -/
def Undisturbed (i : Nat) (tr : List (ClientEvent d)) : Prop :=
  ∀ tr₁ ev tr₂, tr = tr₁ ++ ev :: tr₂ → Cleared d st views kind ident (actsOf i tr₁) →
    ¬ Removed kind ident (actsOf i tr₁) → ∀ j tx, j ≠ i →
      ev.label = .act j (.catalog (.write tx)) (.ok ()) → ∀ location,
        (tableKey ident, location) ∈ tx.places ev.pre kind → ¬ Marked d st views kind location

/-- Until it is removed, what was found unmarked has not become marked. -/
def Held (h : Seen d) (reg : Registry) : Prop :=
  Cleared d st views kind ident h → ¬ Removed kind ident h → ¬ MarkedAt d st views kind ident reg

end

section

variable {st : Store ib} {views : Text → Option ib.ViewMetadata} {kind : Tabular}
    {ident : TableIdent}
  {reg reg' : Registry} {h : Seen d}

theorem serverSem_unchanged {e : ServerEffect d} {r : e.Answer} (hsem : ServerSem e reg r reg')
    (hreads : Reads e) : reg' = reg := by
  cases e with
  | catalog e =>
      cases e with
      | write tx => exact hreads.elim
      | _ => exact hsem.1
  | _ => exact hsem

theorem commits_cases {tx : Transaction} {r : Except Error Unit} (h : Commits tx reg r reg') :
    r = .ok () ∧ tx.apply reg = .ok reg' ∨ (∃ e, r = .error e) ∧ reg' = reg := by
  cases h with
  | committed happly => exact .inl ⟨rfl, happly⟩
  | aborted happly => exact .inr ⟨⟨_, rfl⟩, rfl⟩
  | failed hengine => exact .inr ⟨⟨_, rfl⟩, rfl⟩

theorem MarkedAt.of_apply {tx : Transaction} (happly : tx.apply reg = .ok reg')
    (hplaces : ∀ location, (tableKey ident, location) ∈ tx.places reg kind →
      ¬ Marked d st views kind location)
    (hmarked : MarkedAt d st views kind ident reg') : MarkedAt d st views kind ident reg := by
  obtain ⟨record, hrecord, hmarked⟩ := hmarked
  rcases tx.placed_cases happly hrecord with hold | hplaced
  · exact ⟨record, hold, hmarked⟩
  · exact absurd hmarked (hplaces _ hplaced)

/-- What the call itself does keeps it: it reads, or it removes. -/
theorem Held.own {e : ServerEffect d} {r : e.Answer} (hheld : Held d st views kind ident h reg)
    (hissues : RemovalIssues kind ident h e) (hsem : ServerSem e reg r reg') :
    Held d st views kind ident (h ++ [⟨e, r⟩]) reg' := by
  intro hcleared hremains hmarked
  have hremains' : ¬ Removed kind ident h := fun hremoved =>
    hremains (List.mem_append_left _ hremoved)
  by_cases hreads : Reads e
  · obtain rfl := serverSem_unchanged hsem hreads
    obtain ⟨record, hloaded, hfree⟩ := hcleared
    rcases List.mem_append.mp hloaded with hloaded | hloaded
    · exact hheld ⟨record, hloaded, hfree⟩ hremains' hmarked
    · -- it is read in this very step
      cases List.mem_singleton.mp hloaded
      obtain ⟨record', hrecord', hmarked⟩ := hmarked
      rcases hsem.2 _ rfl with hread | ⟨_, -, herror⟩
      · rw [hrecord'] at hread
        obtain rfl := Option.some.inj (Except.ok.inj hread)
        exact hfree hmarked
      · cases herror
  · cases e with
    | catalog e =>
        cases e with
        | write tx =>
            obtain ⟨rfl, -, -⟩ := hissues
            rcases commits_cases hsem with ⟨rfl, -⟩ | ⟨⟨err, rfl⟩, rfl⟩
            · exact hremains (List.mem_append_right _ (List.mem_singleton_self _))
            · obtain ⟨record, hloaded, hfree⟩ := hcleared
              rcases List.mem_append.mp hloaded with hloaded | hloaded
              · exact hheld ⟨record, hloaded, hfree⟩ hremains' hmarked
              · cases List.mem_singleton.mp hloaded
        | _ => exact hreads trivial
    | _ => exact hreads trivial

/-- What another client does keeps it, unless it puts a marked resource there. -/
theorem Held.other {e : ServerEffect d} {r : e.Answer} (hheld : Held d st views kind ident h reg)
    (hsem : ServerSem e reg r reg')
    (hplaces : Cleared d st views kind ident h → ¬ Removed kind ident h → ∀ tx,
      (⟨e, r⟩ : Σ e : ServerEffect d, e.Answer) = ⟨.catalog (.write tx), .ok ()⟩ → ∀ location,
        (tableKey ident, location) ∈ tx.places reg kind → ¬ Marked d st views kind location) :
    Held d st views kind ident h reg' := by
  intro hcleared hremains hmarked
  by_cases hreads : Reads e
  · obtain rfl := serverSem_unchanged hsem hreads
    exact hheld hcleared hremains hmarked
  · cases e with
    | catalog e =>
        cases e with
        | write tx =>
            rcases commits_cases hsem with ⟨rfl, happly⟩ | ⟨-, rfl⟩
            · exact hheld hcleared hremains
                (hmarked.of_apply happly (hplaces hcleared hremains tx rfl))
            · exact hheld hcleared hremains hmarked
        | _ => exact hreads trivial
    | _ => exact hreads trivial

end

section

variable {st : Store ib} {views : Text → Option ib.ViewMetadata} {app : AppState} {start : Registry}
  {tr : List (ClientEvent d)} {cfg : ClientConfig d} {kind : Tabular} {ident : TableIdent} {i : Nat}

theorem ClientRun.held (hrun : ClientRun d st views app start tr cfg)
    (hissues : ∀ tr₁ ev tr₂ (e : ServerEffect d) (r : e.Answer), tr = tr₁ ++ ev :: tr₂ →
      ev.label = .act i e r → RemovalIssues kind ident (actsOf i tr₁) e)
    (hundisturbed : Undisturbed d st views kind ident i tr) :
    Held d st views kind ident (actsOf i tr) cfg.state := by
  induction hrun with
  | nil => exact fun ⟨_, hloaded, _⟩ => absurd hloaded List.not_mem_nil
  | @snoc tr cfg cfg' l hrun hstep ih =>
      have hheld := ih
        (fun tr₁ ev tr₂ e r heq hlabel =>
          hissues tr₁ ev (tr₂ ++ [_]) e r (by rw [heq, List.append_assoc, List.cons_append]) hlabel)
        fun tr₁ ev tr₂ heq =>
          hundisturbed tr₁ ev (tr₂ ++ [_]) (by rw [heq, List.append_assoc, List.cons_append])
      cases hstep with
      | start q =>
          rw [actsOf_append, show actsOf i [(⟨cfg.state, .start q, _⟩ : ClientEvent d)] =
            [] from rfl,
            List.append_nil]
          exact hheld
      | act j q e k r s' hj hsem =>
          by_cases hij : j = i
          · subst hij
            rw [actsOf_append, actsOf_act]
            exact hheld.own (hissues tr _ [] e r rfl rfl) hsem.1
          · have hacts : actsOf i (tr ++ [(⟨cfg.state, .act j e r, s'⟩ : ClientEvent d)]) =
                actsOf i tr := by
              simp [actsOf, hij]
            rw [hacts]
            refine hheld.other hsem.1 fun hcleared hremains tx heq location hplaced => ?_
            cases heq
            exact hundisturbed tr _ [] rfl hcleared hremains j tx hij rfl location hplaced
      | env s' henv => exact henv.elim

/-- What a removal has checked is unmarked: files stay what they are. -/
theorem ClientRun.cleared (hrun : ClientRun d st views app start tr cfg)
    (hchecked : Checked kind ident (actsOf i tr)) :
    Cleared d st views kind ident (actsOf i tr) := by
  obtain ⟨record, hloaded, hread⟩ := hchecked
  have hagrees : ∀ {e : ServerEffect d} {r : e.Answer}, ⟨e, r⟩ ∈ actsOf i tr →
      FilesAgree d st views e r := by
    intro e r hmem
    obtain ⟨ev, hev, hlabel⟩ := exists_of_mem_actsOf hmem
    rcases hrun.event_cases hev with ⟨q, hstart, -⟩ | ⟨j, e', r', hact, hsem⟩ | ⟨henv, -⟩
    · rw [hstart] at hlabel
      cases hlabel
    · rw [hact] at hlabel
      cases hlabel
      exact hsem.2
    · rw [henv] at hlabel
      cases hlabel
  refine ⟨record, hloaded, ?_⟩
  cases kind with
  | table =>
      obtain ⟨metadata, hmem, hfree⟩ := hread
      rintro ⟨metadata', hfile, hmarked⟩
      have hfile' : st.files.metadata record.metadataLocation = some metadata :=
        hagrees hmem metadata rfl
      rw [hfile'] at hfile
      cases hfile
      rw [hfree] at hmarked
      cases hmarked
  | view =>
      obtain ⟨metadata, hmem, hfree⟩ := hread
      rintro ⟨metadata', hfile, hmarked⟩
      have hfile' : views record.metadataLocation = some metadata := hagrees hmem metadata rfl
      rw [hfile'] at hfile
      cases hfile
      rw [hfree] at hmarked
      cases hmarked

/-- A removal that succeeds removed a resource, and one that was not marked, in a run in
which no metadata file changes and no other client puts a marked one under the name between
its load and its removal. -/
theorem removed_unprotected (d : Crates ib) (st : Store ib) (views : Text → Option ib.ViewMetadata)
    (app : AppState) (start : Registry) (tr : List (ClientEvent d)) (cfg : ClientConfig d)
    (hrun : ClientRun d st views app start tr cfg) (i : Nat) (c : Client ib) (kind : Tabular)
    (ident : TableIdent) (hcall : cfg.calls[i]? = some ⟨c, .done true⟩)
    (hremoves : c.removes = some (kind, ident))
    (hundisturbed : Undisturbed d st views kind ident i tr) :
    (∃ ev ∈ tr, ev.label = .act i (.catalog (.write (.drop kind ident))) (.ok ())) ∧
      ∀ ev ∈ tr, ev.label = .act i (.catalog (.write (.drop kind ident))) (.ok ()) →
        (∃ record, (ev.pre.tabulars kind)[tableKey ident]? = some record) ∧
          ¬ MarkedAt d st views kind ident ev.pre := by
  have htraced := Client.removal_traced (d := d) st app hremoves
  have hfollows := hrun.follows hcall
  have hissues : ∀ tr₁ ev tr₂ (e : ServerEffect d) (r : e.Answer), tr = tr₁ ++ ev :: tr₂ →
      ev.label = .act i e r → RemovalIssues kind ident (actsOf i tr₁) e := by
    intro tr₁ ev tr₂ e r heq hlabel
    have hacts : actsOf i tr = actsOf i tr₁ ++ ⟨e, r⟩ :: actsOf i tr₂ := by
      rw [heq, ← List.singleton_append, actsOf_append, actsOf_append]
      simp [actsOf, hlabel]
    rw [hacts] at hfollows
    exact htraced.issued hfollows
  constructor
  · exact exists_of_mem_actsOf ((htraced.of_follows hfollows : _) rfl)
  · intro ev hev hlabel
    obtain ⟨tr₁, tr₂, rfl⟩ := List.append_of_mem hev
    obtain ⟨cfg₁, cfg₂, hrun₁, hstep, hpre, hpost⟩ := Run.reaches hrun
    obtain ⟨-, hchecked, hnone⟩ := hissues tr₁ ev tr₂ _ _ rfl hlabel
    have hheld := ClientRun.held hrun₁
      (fun tr' ev' tr'' e r heq hl =>
        hissues tr' ev' (tr'' ++ ev :: tr₂) e r (by rw [heq]; simp) hl)
      fun tr' ev' tr'' heq => hundisturbed tr' ev' (tr'' ++ ev :: tr₂) (by rw [heq]; simp)
    rw [hpre]
    refine ⟨?_, hheld (ClientRun.cleared hrun₁ hchecked) fun hremoved => hnone _ _ hremoved⟩
    rw [hlabel] at hstep
    obtain ⟨q, k, -, hsem, -⟩ := hstep.act_cases
    rcases commits_cases hsem.1 with ⟨-, happly⟩ | ⟨⟨e, he⟩, -⟩
    · obtain ⟨hmem, -⟩ := dropTx_eq_ok.mp happly
      exact Option.ne_none_iff_exists'.mp (Relation.getElem?_ne_none_iff.mpr hmem)
    · cases he

end

/-! ## A removal among other clients -/

/-- The plainest tables, and no views. -/
def tablesOnly : Env .plain :=
  { Env.plain with writeViewMetadata := fun _ _ => .error ⟨.unexpected, "read-only".toList⟩ }

def plainStore : Store .plain :=
    ⟨bucket, .plain, fun _ => true, return ⟨"memory".toList, true, 0, none⟩⟩

def tablesServer {d : Crates .plain} : (e : ServerEffect d) → Registry → e.Answer × Registry
  | .catalog e, reg => tablesOnly.onRegistry e reg
  | .write _, reg => (.ok (), reg)
  | .vendCredentials _, reg => (.ok [], reg)

theorem tablesServer_sem {d : Crates .plain} (e : ServerEffect d) (reg : Registry) :
    ServerSem e reg (tablesServer e reg).1 (tablesServer e reg).2 ∧
      FilesAgree d plainStore (fun _ => none) e (tablesServer e reg).1 := by
  cases e with
  | catalog e =>
      refine ⟨tablesOnly.onRegistry_sem e reg, ?_⟩
      cases e with
      | readMetadata location => exact (Env.plain_sem (.readMetadata location) reg).2
      | writeMetadata metadata location =>
          exact (Env.plain_sem (.writeMetadata metadata location) reg).2
      | readViewMetadata location =>
          intro metadata h
          cases h
      | writeViewMetadata metadata location =>
          intro h
          cases h
      | _ => trivial
  | write event => exact ⟨rfl, trivial⟩
  | vendCredentials request => exact ⟨rfl, trivial⟩

/-- `db`, of the tenant `acme`, with the table `t`. -/
def acmeTable : Registry where
  namespaces := (∅ : Relation NamespaceRecord).insert (namespaceKey ["db".toList])
    ⟨["db".toList], setOwner ∅ "acme".toList⟩
  tables := (∅ : Relation TabularRecord).insert (tableKey tableT)
    ⟨["db".toList], "t".toList, "/metadata/".toList, 0⟩
  views := ∅
  staged := ∅

def tableS : TableIdent := ⟨["db".toList], "s".toList⟩

def tableU : TableIdent := ⟨["db".toList], "u".toList⟩

/-- Beside `t` a table `s`, and a table `u` at `kept`. -/
def acmeTables : Registry :=
  { acmeTable with
    tables := (acmeTable.tables.insert (tableKey tableS)
      ⟨["db".toList], "s".toList, "s/metadata/".toList, 0⟩).insert (tableKey tableU)
        ⟨["db".toList], "u".toList, "kept/metadata/".toList, 0⟩ }

/-- What is at `kept` is marked protected. -/
def keepingCrates : Crates .plain :=
  { plainCrates with
    properties := fun (metadata : Text) =>
      if metadata = "kept".toList then (∅ : Properties).insert protectedProperty "true".toList
      else ∅ }

def dropT : Client .plain := .dropTable lakeUser ⟨none, none, []⟩ tableT false

def dropU : Client .plain := .dropTable lakeUser ⟨none, none, []⟩ tableU false

def moveT : Client .plain := .call (.renameTable tableT ⟨["db".toList], "v".toList⟩)

def moveS : Client .plain := .call (.renameTable tableS tableT)

/-- The run a schedule determines. -/
def tablesRunOf (ms : List (Move (Client .plain))) :
    List (ClientEvent keepingCrates) × ClientConfig keepingCrates :=
  Config.moves (Client.program keepingCrates plainStore lakeApp) tablesServer ⟨acmeTables, []⟩ ms

theorem tablesRunOf_run (ms : List (Move (Client .plain))) :
    ClientRun keepingCrates plainStore (fun _ => none) lakeApp acmeTables (tablesRunOf ms).1
      (tablesRunOf ms).2 :=
  Run.nil.moves tablesServer_sem ms

/-- Between the check of `t` and its removal `u` is refused to a second client, and `s`, which is
not protected either, comes in the place of `t`. -/
def droppedRun : List (ClientEvent keepingCrates) × ClientConfig keepingCrates :=
  tablesRunOf [.start dropT, .step 0, .step 0, .step 0, .step 0, .start dropU, .step 1, .step 1,
    .step 1, .step 1, .start moveT, .step 2, .step 2, .start moveS, .step 3, .step 3, .step 0]

/-- What a client other than `i` puts under the name in the event is not marked. -/
def sparesName (i : Nat) (ident : TableIdent) (ev : ClientEvent keepingCrates) : Bool :=
  match ev.label with
  | .act j (.catalog (.write tx)) (.ok ()) =>
      j == i || (tx.places ev.pre .table).all fun placed =>
        placed.1 != tableKey ident || !isProtected
          (keepingCrates.properties (plainMetadata placed.2))
  | _ => true

theorem droppedRun_undisturbed :
    Undisturbed keepingCrates plainStore (fun _ => none) .table tableT 0 droppedRun.1 := by
  have hspares : droppedRun.1.all (sparesName 0 tableT) = true := by decide
  intro tr₁ ev tr₂ heq _ _ j tx hj hlabel location hplaced
  have hone := List.all_eq_true.mp hspares ev (by rw [heq]; simp)
  rw [sparesName, hlabel] at hone
  rcases Bool.or_eq_true_iff.mp hone with hown | hother
  · exact absurd (eq_of_beq hown) hj
  · rintro ⟨metadata, hfile, hmarked⟩
    cases hfile
    simpa [hmarked] using List.all_eq_true.mp hother _ hplaced

/-- The table that comes in between is the one that is removed, and it was not marked. -/
theorem removed_unprotected_dropT :
    (∃ ev ∈ droppedRun.1, ev.label = .act 0 (.catalog (.write (.drop .table tableT))) (.ok ()) ∧
      ¬ MarkedAt keepingCrates plainStore (fun _ => none) .table tableT ev.pre) ∧
    droppedRun.2.calls[1]? = some ⟨dropU, .done false⟩ := by
  obtain ⟨⟨ev, hev, hlabel⟩, hremoved⟩ := removed_unprotected keepingCrates plainStore
    (fun _ => none) lakeApp acmeTables droppedRun.1 _ (tablesRunOf_run _) 0 dropT .table
      tableT rfl rfl
    droppedRun_undisturbed
  exact ⟨⟨ev, hev, hlabel, (hremoved ev hev hlabel).2⟩, rfl⟩

end Rustberg.V1
