import Rustberg.Catalog.Purge

/-!
# A purge and the registry

`purge_table` removes the registry entry before it walks the files, so an
error of the walk is answered for a drop that has already happened. The walk
leaves out what it cannot read and only logs what it cannot delete, with one
exception: a `gc.enabled` that does not parse.

`purge_atomic_iff`: run alone, a purge that fails has left the entry as it was,
and one that succeeds has removed it, exactly when the stored metadata's
`gc.enabled` can be read.
-/

namespace Rustberg

open Process

variable {ib : Iceberg}

section

variable (f : TableFiles ib) (readable : Text → Bool) (table : TableIdent) (reg : Registry)

/-- One effect of a purge, on the registry and the files. -/
abbrev PurgeSem (e : Effect ib) (s : Registry) (r : e.Answer) (s' : Registry) : Prop :=
  Sem e s r s' ∧ e.Agrees f r

/-- However storage answers, a purge that fails leaves the table's entry as it
was, and one that succeeds leaves none. -/
def PurgesAtomically : Prop :=
  ∀ r reg', Prog.Exec (PurgeSem f) (Redb.purgeTable f readable table).run reg r reg' →
    match r with
    | .ok () => reg'.tables[tableKey table]? = none
    | .error _ => reg'.tables[tableKey table]? = reg.tables[tableKey table]?

/-- The metadata the table's entry points at declares a `gc.enabled` that
parses, or none. -/
def GcReadable : Prop :=
  ∀ (record : TabularRecord) (metadata : ib.Metadata),
    reg.tables[tableKey table]? = some record → f.metadata record.metadataLocation = some metadata →
      ∃ gc, f.gcEnabled metadata = .ok gc

end

section

variable {f : TableFiles ib} {readable : Text → Bool} {table : TableIdent} {reg reg' : Registry}

/-- Deleting files neither fails nor touches the registry. -/
theorem deleteConfined_exec {root : Text} {paths : List Text} {r : Except Error Unit}
    (h : Prog.Exec (PurgeSem f) (Redb.deleteConfined root paths : Op ib Unit).run reg r reg') :
    r = .ok () ∧ reg' = reg := by
  induction paths generalizing reg with
  | nil => exact Prog.exec_done.mp h
  | cons path paths ih =>
      rw [Redb.deleteConfined] at h
      split at h
      · -- The failure is captured, so the deletion is past the first error either way.
        rcases Prog.exec_bind_except.mp h with ⟨err, hdelete, -⟩ | ⟨a, mid, hdelete, hrest⟩
        · obtain ⟨answer, last, -, hdone⟩ := Prog.exec_perform.mp hdelete
          cases (Prog.exec_done.mp hdone).1
        · obtain ⟨answer, last, hsem, hdone⟩ := Prog.exec_perform.mp hdelete
          obtain ⟨-, rfl⟩ := Prog.exec_done.mp hdone
          obtain ⟨rfl, rfl⟩ := ih hrest
          exact ⟨rfl, hsem.1.1⟩
      · exact ih h

/-- Deleting files before anything else leaves what comes next as it was. -/
theorem deleteConfined_bind_exec {root : Text} {paths : List Text} {op : Op ib Unit}
    {r : Except Error Unit}
    (h : Prog.Exec (PurgeSem f) (Redb.deleteConfined root paths >>= fun _ => op).run reg r reg') :
    Prog.Exec (PurgeSem f) op.run reg r reg' := by
  rcases Prog.exec_bind_except.mp h with ⟨err, hdelete, -⟩ | ⟨a, mid, hdelete, hrest⟩
  · cases (deleteConfined_exec hdelete).1
  · obtain ⟨-, rfl⟩ := deleteConfined_exec hdelete
    exact hrest

/-- The walk over the files leaves the registry alone, and fails only where
`gc.enabled` does not parse. -/
theorem purgeTableData_exec {loaded : Table ib} {r : Except Error Unit}
    (h : Prog.Exec (PurgeSem f) (Redb.purgeTableData f readable loaded).run reg r reg') :
    reg' = reg ∧ ∀ err, r = .error err → f.gcEnabled loaded.metadata = .error err := by
  rcases Prog.exec_bind_except.mp h with ⟨err, hgc, rfl⟩ | ⟨gc, mid, hgc, hrest⟩
  · obtain ⟨hfails, rfl⟩ := Prog.exec_done.mp hgc
    refine ⟨rfl, fun err' herr => ?_⟩
    cases herr
    exact hfails.symm
  · obtain ⟨-, rfl⟩ := Prog.exec_done.mp hgc
    have hend : r = .ok () ∧ reg' = mid := by
      cases gc with
      | false =>
          iterate 5 replace hrest := deleteConfined_bind_exec hrest
          exact deleteConfined_exec hrest
      | true =>
          iterate 6 replace hrest := deleteConfined_bind_exec hrest
          exact deleteConfined_exec hrest
    obtain ⟨rfl, rfl⟩ := hend
    exact ⟨rfl, fun err herr => by cases herr⟩

/-- What a load answers without error: the entry, and what its file holds. -/
theorem loadTable_exec {r : Except Error (Table ib)}
    (h : Prog.Exec (PurgeSem f) (Redb.loadTable table : Op ib (Table ib)).run reg r reg') :
    reg' = reg ∧ ∀ loaded, r = .ok loaded → ∃ record,
      reg.tables[tableKey table]? = some record ∧
        f.metadata record.metadataLocation = some loaded.metadata := by
  rcases Prog.exec_bind_except.mp h with ⟨err, hget, rfl⟩ | ⟨found, mid, hget, hrest⟩
  · obtain ⟨answer, last, hsem, hdone⟩ := Prog.exec_perform.mp hget
    obtain ⟨-, rfl⟩ := Prog.exec_done.mp hdone
    exact ⟨hsem.1.1, fun loaded hloaded => by cases hloaded⟩
  · obtain ⟨answer, last, ⟨⟨hlast, hanswer⟩, -⟩, hdone⟩ := Prog.exec_perform.mp hget
    obtain ⟨rfl, hmid⟩ := Prog.exec_done.mp hdone
    obtain rfl : reg = mid := (hmid.trans hlast).symm
    have hfound : reg.tables[tableKey table]? = found := by
      rcases hanswer _ rfl with hok | ⟨err, -, herr⟩
      · exact (Except.ok.inj hok).symm
      · cases herr
    cases found with
    | none =>
        obtain ⟨rfl, rfl⟩ := Prog.exec_done.mp hrest
        exact ⟨rfl, fun loaded hloaded => by cases hloaded⟩
    | some record =>
        rcases Prog.exec_bind_except.mp hrest with
          ⟨err, hread, rfl⟩ | ⟨metadata, last, hread, hdone⟩
        · obtain ⟨answer, last, hsem, hdone⟩ := Prog.exec_perform.mp hread
          obtain ⟨-, rfl⟩ := Prog.exec_done.mp hdone
          exact ⟨hsem.1.1, fun loaded hloaded => by cases hloaded⟩
        · obtain ⟨answer, last', hsem, hread⟩ := Prog.exec_perform.mp hread
          obtain ⟨rfl, rfl⟩ := Prog.exec_done.mp hread
          obtain ⟨rfl, rfl⟩ := Prog.exec_done.mp hdone
          refine ⟨hsem.1.1, fun loaded hloaded => ⟨record, hfound, ?_⟩⟩
          cases hloaded
          exact hsem.2 metadata rfl

/-- A drop removes the entry, or fails and leaves the registry as it was. -/
theorem dropTable_exec {r : Except Error Unit}
    (h : Prog.Exec (PurgeSem f) (Redb.dropTable table : Op ib Unit).run reg r reg') :
    match r with
    | .ok () => reg'.tables[tableKey table]? = none
    | .error _ => reg' = reg := by
  obtain ⟨answer, last, ⟨hcommits, -⟩, hdone⟩ := Prog.exec_perform.mp h
  obtain ⟨rfl, rfl⟩ := Prog.exec_done.mp hdone
  have hcommits : Commits (.drop .table table) reg r reg' := hcommits
  cases hcommits with
  | committed happly =>
      obtain ⟨-, rfl⟩ := dropTx_eq_ok.mp happly
      exact Std.ExtTreeMap.getElem?_erase_self
  | aborted _ => rfl
  | failed _ => rfl

/-- A purge that storage answers and that then meets a `gc.enabled` that does not
parse: the entry is gone. -/
theorem purgeTable_fails (readable : Text → Bool) {record : TabularRecord} {metadata : ib.Metadata}
    {err : Error} (hrecord : reg.tables[tableKey table]? = some record)
    (hmetadata : f.metadata record.metadataLocation = some metadata)
    (hgc : f.gcEnabled metadata = .error err) :
    Prog.Exec (PurgeSem f) (Redb.purgeTable f readable table : Op ib Unit).run reg (.error err)
      { reg with tables := reg.tables.erase (tableKey table) } := by
  have hload : Prog.Exec (PurgeSem f) (Redb.loadTable table : Op ib (Table ib)).run reg
      (.ok ⟨table, metadata, record.metadataLocation⟩) reg := by
    refine Prog.exec_bind_except.mpr (Or.inr ⟨some record, reg, ?_, ?_⟩)
    · refine Prog.exec_perform.mpr ⟨.ok (some record), reg, ⟨⟨rfl, fun v hv => Or.inl ?_⟩, trivial⟩,
        Prog.exec_done.mpr ⟨rfl, rfl⟩⟩
      exact congrArg Except.ok (hrecord.symm.trans (Option.some.inj hv))
    · refine Prog.exec_bind_except.mpr (Or.inr ⟨metadata, reg, ?_, Prog.exec_done.mpr ⟨rfl, rfl⟩⟩)
      refine Prog.exec_perform.mpr ⟨.ok metadata, reg, ⟨⟨rfl, fun v hv => by cases hv⟩, ?_⟩,
        Prog.exec_done.mpr ⟨rfl, rfl⟩⟩
      rintro _ ⟨⟩
      exact hmetadata
  have hdrop : Commits (.drop .table table) reg (.ok ())
      { reg with tables := reg.tables.erase (tableKey table) } :=
    .committed (dropTx_eq_ok.mpr ⟨Relation.mem_of_getElem? hrecord, rfl⟩)
  refine Prog.exec_bind_except.mpr (Or.inr ⟨_, _, hload, Prog.exec_bind_except.mpr (Or.inr
    ⟨(), _, Prog.exec_perform.mpr ⟨.ok (), _, ⟨hdrop, trivial⟩,
      Prog.exec_done.mpr ⟨rfl, rfl⟩⟩, ?_⟩)⟩)
  exact Prog.exec_bind_except.mpr (Or.inl ⟨err, Prog.exec_done.mpr ⟨hgc.symm, rfl⟩, rfl⟩)

/-- The entry is dropped before `gc.enabled` is read, and everything else that
can fail fails before the drop. -/
theorem purge_atomic_iff (f : TableFiles ib) (readable : Text → Bool) (table : TableIdent)
    (reg : Registry) : PurgesAtomically f readable table reg ↔ GcReadable f table reg := by
  constructor
  · intro h record metadata hrecord hmetadata
    cases hgc : f.gcEnabled metadata with
    | ok gc => exact ⟨gc, rfl⟩
    | error err =>
        have hgone := h _ _ (purgeTable_fails readable hrecord hmetadata hgc)
        rw [hrecord] at hgone
        exact absurd (hgone.symm.trans (Std.ExtTreeMap.getElem?_erase_self)) fun h => by
          cases h
  · intro h r reg' hexec
    rcases Prog.exec_bind_except.mp hexec with ⟨err, hload, rfl⟩ | ⟨loaded, mid, hload, hrest⟩
    · obtain ⟨rfl, -⟩ := loadTable_exec hload
      rfl
    · obtain ⟨hmid, hloaded⟩ := loadTable_exec hload
      obtain rfl : reg = mid := hmid.symm
      obtain ⟨record, hrecord, hmetadata⟩ := hloaded loaded rfl
      rcases Prog.exec_bind_except.mp hrest with ⟨err, hdrop, rfl⟩ | ⟨_, last, hdrop, hwalk⟩
      · have hlast : _ = reg := dropTable_exec hdrop
        exact congrArg (fun s => s.tables[tableKey table]?) hlast
      · have hgone := dropTable_exec hdrop
        obtain ⟨rfl, hfails⟩ := purgeTableData_exec hwalk
        cases r with
        | ok _ => exact hgone
        | error err =>
            obtain ⟨gc, hgc⟩ := h record loaded.metadata hrecord hmetadata
            cases hgc.symm.trans (hfails err rfl)

end

/-! ## A property that does not parse -/

/-- What is read of a declared `gc.enabled`; none declared is `true`. -/
def gcProperty : Option String → Except Error Bool
  | none => .ok true
  | some "true" => .ok true
  | some "false" => .ok false
  | some value => .error ⟨.dataInvalid, ("Invalid value for gc.enabled: " ++ value).toList⟩

/-- The plainest tables' files, every table declaring the same `gc.enabled`. -/
def TableFiles.declaring (declared : Option String) : TableFiles Iceberg.plain :=
  { TableFiles.plain with gcEnabled _ := gcProperty declared }

/-- A table that declares `gc.enabled` as `maybe` is dropped by the purge that fails. -/
theorem maybe_purge :
    ¬ PurgesAtomically (TableFiles.declaring (some "maybe")) (fun _ => true) tableT oneTable := by
  intro h
  have hrecord : oneTable.tables[tableKey tableT]? = some recordT :=
    (Relation.getElem?_insert ..).trans (if_pos rfl)
  have hkept := h _ _ (purgeTable_fails (fun _ => true) hrecord rfl rfl)
  rw [hrecord] at hkept
  exact absurd (hkept.symm.trans (Std.ExtTreeMap.getElem?_erase_self)) fun h => by
    cases h

end Rustberg
