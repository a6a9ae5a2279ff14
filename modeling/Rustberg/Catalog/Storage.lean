import Rustberg.Catalog.Files
import Rustberg.Catalog.Integrity

/-!
# Tables and the storage they share

A table is created under the prefix its name assigns, and a rename moves
the name but not the files. So the name is free again while its prefix is
still in use, and the next table created under it gets the same storage
(`storage_shared`). `StorageFree` is the condition under which a call
does not do that, and `noSharing_of_storageFree` that in every state
reached by such calls no two registered tables share storage.
-/

namespace Rustberg

open Process

variable {ib : Iceberg}

/-- Neither location lies within the other. -/
def Apart (a b : Text) : Prop := isWithin a b = false ∧ isWithin b a = false

theorem Apart.symm {a b : Text} (h : Apart a b) : Apart b a := And.symm h

/-- What lies inside one of two locations that are apart is apart from the other. -/
theorem Apart.of_within {a b l : Text} (h : Apart a b) (hl : isWithin a l = true) : Apart l b := by
  constructor
  · rw [Bool.eq_false_iff]
    intro hlb
    exact Bool.eq_false_iff.mp h.1 (isWithin_trans hl hlb)
  · rw [Bool.eq_false_iff]
    intro hbl
    rcases isWithin_of_both hl hbl with hab | hba
    · exact Bool.eq_false_iff.mp h.1 hab
    · exact Bool.eq_false_iff.mp h.2 hba

/-! ## Where a table's files are -/

/-- The location a registered table's metadata file declares. -/
def Stored.locationAt (s : Stored ib) (key : Text) : Option Text :=
  s.registry.tables[key]?.bind fun record =>
    s.files[record.metadataLocation]?.map ib.location

/-- Distinct registered tables have their files apart. -/
def NoSharing (s : Stored ib) : Prop :=
  ∀ key key' location location', key ≠ key' → s.locationAt key = some location →
    s.locationAt key' = some location' → Apart location location'

/-- What the crate promises about the location of the metadata it builds:
it is the one given last, without trailing slashes. -/
structure Iceberg.Locates (ib : Iceberg) where
  builderLocation : ib.Builder → Text
  created : ∀ creation metadata, ib.fromTableCreation creation = .ok metadata →
    ib.location metadata = (creation.location.getD []).trimEndMatches '/'
  intoBuilder : ∀ metadata file,
    builderLocation (ib.intoBuilder metadata file) = ib.location metadata
  setLocation : ∀ location builder builder',
    ib.apply (.setLocation location) builder = .ok builder' →
      builderLocation builder' = location.trimEndMatches '/'
  otherUpdate : ∀ update builder builder', (∀ location, update ≠ .setLocation location) →
    ib.apply update builder = .ok builder' → builderLocation builder' = builderLocation builder
  build : ∀ builder metadata, ib.build builder = .ok metadata →
    ib.location metadata = builderLocation builder

/-- A commit leaves the location, or takes it from one of its updates. -/
theorem applyUpdates_location (loc : ib.Locates) {base metadata : ib.Metadata} {file : Text}
    {updates : List ib.Update}
    (h : Redb.applyUpdates base file updates = .ok metadata) :
    ib.location metadata = ib.location base ∨ ∃ target, .setLocation target ∈ updates ∧
      ib.location metadata = Text.trimEndMatches '/' target := by
  have hfold : ∀ (updates : List ib.Update) (builder builder' : ib.Builder),
      updates.foldlM (fun builder update => ib.apply update builder) builder = .ok builder' →
      loc.builderLocation builder' = loc.builderLocation builder ∨
        ∃ target, .setLocation target ∈ updates ∧
          loc.builderLocation builder' = Text.trimEndMatches '/' target := by
    intro updates
    induction updates with
    | nil =>
        intro builder builder' h
        obtain rfl : builder = builder' := by simpa [pure, Except.pure] using h
        exact Or.inl rfl
    | cons update updates ih =>
        intro builder builder' h
        rw [List.foldlM_cons] at h
        cases happly : ib.apply update builder with
        | error e => rw [happly] at h; cases h
        | ok mid =>
            rw [happly] at h
            rcases ih mid builder' h with hsame | ⟨target, hmem, htarget⟩
            · cases update with
              | setLocation target =>
                  exact Or.inr ⟨target, List.mem_cons_self ..,
                    hsame.trans (loc.setLocation _ _ _ happly)⟩
              | _ =>
                  exact Or.inl (hsame.trans
                    (loc.otherUpdate _ _ _ (fun _ heq => by cases heq) happly))
            · exact Or.inr ⟨target, List.mem_cons_of_mem _ hmem, htarget⟩
  unfold Redb.applyUpdates at h
  cases hupdates : updates.foldlM (fun builder update => ib.apply update builder)
      (ib.intoBuilder base (some file)) with
  | error e => rw [hupdates] at h; cases h
  | ok builder =>
      rw [hupdates] at h
      have hbuild := loc.build _ _ (show ib.build builder = .ok metadata from h)
      rcases hfold _ _ _ hupdates with hsame | ⟨target, hmem, htarget⟩
      · exact Or.inl (by rw [hbuild, hsame, loc.intoBuilder])
      · exact Or.inr ⟨target, hmem, by rw [hbuild, htarget]⟩

/-! ## The invariant -/

/-- No sharing, with what keeps it: every record has its file, so no new
file can become one; and nothing is staged. -/
structure Kept (s : Stored ib) : Prop where
  apart : NoSharing s
  hasFile : ∀ {key : Text} {record : TabularRecord}, s.registry.tables[key]? = some record →
    ∃ metadata, s.files[record.metadataLocation]? = some metadata
  unstaged : ∀ key : Text, s.registry.staged[key]? = none

variable {s s' : Stored ib}

theorem Stored.locationAt_eq_some {key location : Text} :
    s.locationAt key = some location ↔ ∃ record metadata,
      s.registry.tables[key]? = some record ∧
        s.files[record.metadataLocation]? = some metadata ∧ ib.location metadata = location := by
  simp [Stored.locationAt, Option.bind_eq_some_iff, Option.map_eq_some_iff]

/-- A registered table that has its file keeps its location. -/
theorem Kept.locationAt_of_extends (h : Kept s) (hext : s.Extends s') (key : Text) :
    s'.locationAt key = s.locationAt key := by
  rw [Stored.locationAt, Stored.locationAt, hext.registry]
  cases hrecord : s.registry.tables[key]? with
  | none => rfl
  | some record =>
      obtain ⟨metadata, hfile⟩ := h.hasFile hrecord
      simp only [Option.bind_some, hfile, hext.files hfile]

theorem Kept.of_extends (h : Kept s) (hext : s.Extends s') : Kept s' where
  apart key key' location location' hne hl hl' := by
    rw [h.locationAt_of_extends hext] at hl hl'
    exact h.apart key key' location location' hne hl hl'
  hasFile hrecord := by
    rw [hext.registry] at hrecord
    obtain ⟨metadata, hfile⟩ := h.hasFile hrecord
    exact ⟨metadata, hext.files hfile⟩
  unstaged key := by rw [hext.registry]; exact h.unstaged key

/-- Putting a record whose files are apart from every other table's. -/
theorem Kept.insert (h : Kept s) {key : Text} (record : TabularRecord) {metadata : ib.Metadata}
    (hfile : s.files[record.metadataLocation]? = some metadata)
    (htables : s'.registry.tables = s.registry.tables.insert key record)
    (hstaged : ∀ k : Text, s'.registry.staged[k]? = none) (hfiles : s'.files = s.files)
    (hfree : ∀ key' location', key ≠ key' → s.locationAt key' = some location' →
      Apart (ib.location metadata) location') : Kept s' := by
  have hat : ∀ key', s'.locationAt key' =
      if key = key' then some (ib.location metadata) else s.locationAt key' := fun key' => by
    rw [Stored.locationAt, Stored.locationAt, htables, hfiles, Relation.getElem?_insert]
    split
    · simp [hfile]
    · rfl
  refine ⟨fun k k' l l' hne hl hl' => ?_, fun {k r} hr => ?_, hstaged⟩
  · rw [hat] at hl hl'
    split at hl
    · next hk =>
        subst hk
        rw [if_neg hne] at hl'
        obtain rfl := Option.some.inj hl
        exact hfree k' l' hne hl'
    · next hk =>
        split at hl'
        · next hk' =>
            subst hk'
            obtain rfl := Option.some.inj hl'
            exact (hfree k l hk hl).symm
        · exact h.apart k k' l l' hne hl hl'
  · rw [htables, Relation.getElem?_insert] at hr
    rw [hfiles]
    split at hr
    · obtain rfl := Option.some.inj hr
      exact ⟨metadata, hfile⟩
    · exact h.hasFile hr

theorem Kept.erase (h : Kept s) {key : Text}
    (htables : s'.registry.tables = s.registry.tables.erase key)
    (hstaged : ∀ k : Text, s'.registry.staged[k]? = none) (hfiles : s'.files = s.files) :
    Kept s' := by
  have hold : ∀ {k r}, s'.registry.tables[k]? = some r → s.registry.tables[k]? = some r :=
    fun {k r} hr => by
      rw [htables, Relation.getElem?_erase] at hr
      split at hr
      · cases hr
      · exact hr
  have hat : ∀ {k l}, s'.locationAt k = some l → s.locationAt k = some l := fun {k l} hl => by
    obtain ⟨record, metadata, hrecord, hfile, hloc⟩ := Stored.locationAt_eq_some.mp hl
    rw [hfiles] at hfile
    exact Stored.locationAt_eq_some.mpr ⟨record, metadata, hold hrecord, hfile, hloc⟩
  exact ⟨fun k k' l l' hne hl hl' => h.apart k k' l l' hne (hat hl) (hat hl'),
    fun hr => hfiles ▸ h.hasFile (hold hr), hstaged⟩

theorem Kept.same (h : Kept s) (htables : s'.registry.tables = s.registry.tables)
    (hstaged : s'.registry.staged = s.registry.staged) (hfiles : s'.files = s.files) : Kept s' where
  apart key key' location location' hne hl hl' := by
    rw [Stored.locationAt, htables, hfiles] at hl hl'
    exact h.apart key key' location location' hne hl hl'
  hasFile hr := hfiles ▸ h.hasFile (htables ▸ hr)
  unstaged key := by rw [hstaged]; exact h.unstaged key

/-! ## The four calls -/

/-- A call the storage of a namespace changes by: a table created where its
name puts it, renamed, dropped or committed. -/
def Request.Within (ns : NamespaceIdent) : Request ib → Prop
  | .createTable ns' creation => ns' = ns ∧ creation.location = none
  | .renameTable src dest => src.namespc = ns ∧ dest.namespc = ns
  | .dropTable table => table.namespc = ns
  | .commitTable change => change.ident.namespc = ns
  | _ => False

/-- The call puts a table only where no other registered table has its
files: under its own name's prefix when it creates one, and when a commit
moves one out of its present location. -/
def StorageFree (c : Catalog) (s : Stored ib) : Request ib → Prop
  | .createTable ns creation => ∀ key location, s.locationAt key = some location →
      Apart ((c.tableLocation ⟨ns, creation.name⟩).trimEndMatches '/') location
  | .commitTable change => ∀ current target,
      s.locationAt (tableKey change.ident) = some current →
      .setLocation target ∈ change.updates →
        isWithin current (Text.trimEndMatches '/' target) = true ∨
          ∀ key location, tableKey change.ident ≠ key → s.locationAt key = some location →
            Apart (Text.trimEndMatches '/' target) location
  | _ => True

theorem Kept.rename (h : Kept s) {src dest : TableIdent}
    (happly : renameTx .table src dest s.registry = .ok s'.registry)
    (hfiles : s'.files = s.files) : Kept s' := by
  obtain ⟨record, hsrc, hdest, -, hreg⟩ := renameTx_eq_ok.mp happly
  have hsrc' : s.registry.tables[tableKey src]? = some record := hsrc
  obtain ⟨metadata, hfile⟩ := h.hasFile hsrc'
  have hat : s.locationAt (tableKey src) = some (ib.location metadata) :=
    Stored.locationAt_eq_some.mpr ⟨record, metadata, hsrc', hfile, rfl⟩
  -- Dropped under the old key, it is put back under the new one.
  have hdropped : Kept { s with
      registry := { s.registry with tables := s.registry.tables.erase (tableKey src) } } :=
    h.erase rfl h.unstaged rfl
  have hne : tableKey dest ≠ tableKey src := fun heq =>
    hdest (heq ▸ Relation.mem_of_getElem? hsrc')
  have hmoved : Kept { s with registry := { s.registry with
      tables := (s.registry.tables.erase (tableKey src)).insert (tableKey dest)
        (record.renamed dest) } } := by
    refine hdropped.insert (record.renamed dest) hfile rfl h.unstaged rfl
      fun key location hkey hloc => ?_
    obtain ⟨record', metadata', hrecord, hfile', rfl⟩ := Stored.locationAt_eq_some.mp hloc
    rw [Relation.getElem?_erase] at hrecord
    split at hrecord
    · cases hrecord
    · next hsrckey =>
        exact h.apart _ _ _ _ hsrckey hat
          (Stored.locationAt_eq_some.mpr ⟨record', metadata', hrecord, hfile', rfl⟩)
  refine hmoved.same ?_ ?_ hfiles
  · rw [hreg]
    refine Std.ExtTreeMap.ext_getElem? fun k => ?_
    have hget : (((s.registry.tables.insert (tableKey dest) (record.renamed dest)).erase
        (tableKey src) : Relation TabularRecord)[k]?) =
      (((s.registry.tables.erase (tableKey src)).insert (tableKey dest)
        (record.renamed dest) : Relation TabularRecord)[k]?) := by
      simp only [Relation.getElem?_insert, Relation.getElem?_erase]
      by_cases hs : tableKey src = k
      · simp [hs, hs ▸ hne]
      · simp [hs]
    exact hget
  · rw [hreg]
    rfl

/-- What `writeFirst` makes is in its file. -/
theorem writeFirst_steps {c : Catalog} {ident : TableIdent} {creation : ib.Creation}
    {h : Path ib} {metadata : ib.Metadata} {file : Text}
    (hf : Prog.Follows (Redb.writeFirst c ident creation).run h (.done (.ok (metadata, file))))
    (hsteps : Prog.Steps Does s h s') :
    ib.fromTableCreation { creation with
        location := some (creation.location.getD (c.tableLocation ident)) } = .ok metadata ∧
      s'.files[file]? = some metadata := by
  obtain ⟨made, hmade, hf₁⟩ := Follows.lift_ok hf
  obtain ⟨uuid, h₁, rfl, hf₂⟩ := Follows.act_ok (e := .newUuid) hf₁
  obtain ⟨path, -, hf₃⟩ := Follows.lift_ok hf₂
  obtain ⟨_, h₂, rfl, hf₄⟩ := Follows.act_ok (e := .writeMetadata made path) hf₃
  obtain ⟨rfl, heq⟩ := Follows.pure_ok hf₄
  cases heq
  obtain ⟨_, -, last, hwrite, rfl⟩ := hsteps
  refine ⟨hmade, ?_⟩
  rcases hwrite with ⟨-, -, rfl⟩ | ⟨⟨err, herr⟩, -⟩
  · rw [Relation.getElem?_insert, if_pos rfl]
  · cases herr

theorem Kept.createTable (loc : ib.Locates) {c : Catalog} {ns : NamespaceIdent}
    {creation : ib.Creation} {r : Except Error (Reply ib)} (h : Kept s)
    (hplace : creation.location = none) (hfree : StorageFree c s (.createTable ns creation))
    (hexec : Prog.Exec Does (Redb.serve c (.createTable ns creation)).run s r s') : Kept s' := by
  have hserve : Redb.serve c (.createTable ns creation) =
      (Redb.requireNamespace ns (Text.join ['.'] ns) >>= fun _ =>
        Redb.refuseTable ⟨ns, creation.name⟩ creation.name >>= fun _ =>
          Redb.writeFirst c ⟨ns, creation.name⟩ creation) >>= fun x =>
        Op.write (.create .table ⟨ns, creation.name⟩ x.2 creation.name) >>= fun _ =>
          pure (.table ⟨⟨ns, creation.name⟩, x.1, x.2⟩) := by
    simp only [Redb.serve, Redb.createTable, map_eq_pure_bind, bind_assoc, pure_bind]
  have hreads : (Redb.requireNamespace ns (Text.join ['.'] ns) >>= fun _ =>
      Redb.refuseTable ⟨ns, creation.name⟩ creation.name >>= fun _ =>
        Redb.writeFirst c ⟨ns, creation.name⟩ creation).Performs Effect.ReadsOrAdds
          fun _ => True :=
    (requireNamespace_reads _ _).seq fun _ => (refuseTable_reads _ _).seq fun _ =>
      writeFirst_reads c _ creation
  rw [hserve] at hexec
  rcases Exec.then_write hreads hexec with
    hext | ⟨⟨metadata, file⟩, path, mid, hf, hsteps, hmid, happly, hfiles⟩
  · exact h.of_extends hext
  · obtain ⟨h₁, h₂, _, rfl, -, hf₁⟩ := Follows.bind_ok hf
    obtain ⟨h₃, h₄, _, rfl, -, hf₂⟩ := Follows.bind_ok hf₁
    obtain ⟨mid₁, -, hsteps₁⟩ := Prog.steps_append.mp hsteps
    obtain ⟨mid₂, -, hsteps₂⟩ := Prog.steps_append.mp hsteps₁
    obtain ⟨hmade, hfile⟩ := writeFirst_steps hf₂ hsteps₂
    obtain ⟨-, -, hreg⟩ := createTx_eq_ok.mp happly
    have hkept := h.of_extends hmid
    refine hkept.insert ⟨ns, creation.name, file, 0⟩ hfile (by rw [hreg]; rfl)
      (fun k => by rw [hreg]; exact hkept.unstaged k) hfiles fun key location _ hloc => ?_
    rw [h.locationAt_of_extends hmid] at hloc
    rw [loc.created _ _ hmade, hplace]
    exact hfree key location hloc

theorem Kept.renameTable {c : Catalog} {src dest : TableIdent} {r : Except Error (Reply ib)}
    (h : Kept s)
    (hexec : Prog.Exec Does (Redb.serve c (.renameTable src dest)).run s r s') : Kept s' := by
  rw [Redb.serve, Redb.renameTable, Redb.rename] at hexec
  split at hexec
  · obtain ⟨path, hf, hsteps⟩ := hexec
    obtain ⟨rfl, -⟩ := Prog.follows_done.mp hf
    obtain rfl := hsteps
    exact h
  · rw [map_eq_pure_bind, bind_assoc] at hexec
    rcases Exec.then_write (requireNamespace_reads _ _) hexec with
      hext | ⟨_, path, mid, -, -, hmid, happly, hfiles⟩
    · exact h.of_extends hext
    · exact (h.of_extends hmid).rename happly hfiles

theorem Kept.dropTable {c : Catalog} {table : TableIdent} {r : Except Error (Reply ib)}
    (h : Kept s) (hexec : Prog.Exec Does (Redb.serve c (.dropTable table)).run s r s') :
    Kept s' := by
  have hserve : Redb.serve c (.dropTable table) = (pure () : Op ib Unit) >>= fun _ =>
      Op.write (.drop .table table) >>= fun _ => pure .done := by
    rw [Redb.serve, Redb.dropTable, map_eq_pure_bind, pure_bind]
  have hreads : (pure () : Op ib Unit).Performs Effect.ReadsOrAdds fun _ => True := .ret trivial
  rw [hserve] at hexec
  rcases Exec.then_write hreads hexec with hext | ⟨_, path, mid, -, -, hmid, happly, hfiles⟩
  · exact h.of_extends hext
  · obtain ⟨-, hreg⟩ := dropTx_eq_ok.mp happly
    have hkept := h.of_extends hmid
    exact hkept.erase (by rw [hreg]; rfl) (fun k => by rw [hreg]; exact hkept.unstaged k) hfiles

/-! ## A commit -/

theorem Does.getTabular {kind : Tabular} {key : Text} {v : Option TabularRecord}
    (h : Does (.getTabular kind key) s (.ok v) s') :
    s' = s ∧ v = (s.registry.tabulars kind)[key]? := by
  obtain ⟨rfl, -, hanswer⟩ := h
  rcases hanswer _ rfl with heq | ⟨err, -, herr⟩
  · exact ⟨rfl, Except.ok.inj heq⟩
  · cases herr

theorem Does.getStaged {key : Text} {v : Option TabularRecord}
    (h : Does (.getStaged key) s (.ok v) s') : s' = s ∧ v = s.registry.staged[key]? := by
  obtain ⟨rfl, -, hanswer⟩ := h
  rcases hanswer _ rfl with heq | ⟨err, -, herr⟩
  · exact ⟨rfl, Except.ok.inj heq⟩
  · cases herr

theorem Does.writeMetadata {metadata : ib.Metadata} {file : Text}
    (h : Does (.writeMetadata metadata file) s (.ok ()) s') :
    file ∉ s.files ∧ s' = { s with files := s.files.insert file metadata } := by
  rcases h with ⟨-, hnew, rfl⟩ | ⟨⟨err, herr⟩, -⟩
  · exact ⟨hnew, rfl⟩
  · cases herr

/-- Computing one table alone: from the record in the registry and the
metadata in its file, into a new file. -/
theorem Computed.steps {c : Catalog} {change : ib.TableChange} {h : Path ib}
    {base : TabularRecord} {p : Redb.Prepared ib} (hc : Computed c change h base p)
    (hsteps : Prog.Steps Does s h s') :
    p.newLocation ∉ s.files ∧
      s' = { s with files := s.files.insert p.newLocation p.metadata } ∧
      ((s.registry.tables[tableKey change.ident]? = some base ∧
          ∃ metadata, s.files[base.metadataLocation]? = some metadata ∧
            Redb.compute c change (some base) metadata base.metadataLocation = .ok p.metadata) ∨
        s.registry.staged[tableKey change.ident]? = some base) := by
  cases hc with
  | update hcompute hname =>
      obtain ⟨s₁, hrecord, s₂, hread, s₃, huuid, s₄, hwrite, rfl⟩ := hsteps
      obtain ⟨rfl, hrecord⟩ := Does.getTabular hrecord
      obtain ⟨rfl, hfile⟩ := hread
      obtain ⟨rfl, -⟩ := huuid
      obtain ⟨hnew, rfl⟩ := Does.writeMetadata hwrite
      exact ⟨hnew, rfl, Or.inl ⟨hrecord.symm, _, hfile _ rfl, hcompute⟩⟩
  | create hcreating hcompute hname =>
      obtain ⟨s₁, hrecord, s₂, hstaged, s₃, hread, s₄, huuid, s₅, hwrite, rfl⟩ := hsteps
      obtain ⟨rfl, -⟩ := Does.getTabular hrecord
      obtain ⟨rfl, hstaged⟩ := Does.getStaged hstaged
      obtain ⟨rfl, -⟩ := hread
      obtain ⟨rfl, -⟩ := huuid
      obtain ⟨hnew, rfl⟩ := Does.writeMetadata hwrite
      exact ⟨hnew, rfl, Or.inr hstaged.symm⟩

/-- Computing tables adds files, none of which was there before. -/
theorem ComputedAll.steps {c : Catalog} {changes : List ib.TableChange} {h : Path ib}
    {computed : List (TabularRecord × Redb.Prepared ib)} (hall : ComputedAll c changes h computed)
    (hsteps : Prog.Steps Does s h s') :
    s.Extends s' ∧ ∀ x ∈ computed, x.2.newLocation ∉ s.files := by
  induction hall generalizing s with
  | nil =>
      obtain rfl := hsteps
      exact ⟨.refl s', fun x hx => by cases hx⟩
  | @cons change changes h hs base p computed hone hrest ih =>
      obtain ⟨mid, hsteps₁, hsteps₂⟩ := Prog.steps_append.mp hsteps
      obtain ⟨hnew, rfl, -⟩ := hone.steps hsteps₁
      have hmid := Stored.extends_insert p.metadata hnew
      obtain ⟨hext, hfresh⟩ := ih hsteps₂
      refine ⟨hmid.trans hext, fun x hx => ?_⟩
      rcases List.mem_cons.mp hx with rfl | hx
      · exact hnew
      · exact fun hold => hfresh x hx (hmid.mem hold)

/-- The one swap of a commit lands, on what was computed just before. -/
def SwapLands (c : Catalog) (changes : List ib.TableChange) (s s' : Stored ib) : Prop :=
  ∃ h mid computed, Prog.Steps Does s h mid ∧ ComputedAll c changes h computed ∧
    swapTx (swapsOf computed) mid.registry = .ok s'.registry ∧ s'.files = mid.files

/-- An attempt alone: everything stays, or its swap lands and it succeeds. -/
theorem tryCommit_steps {c : Catalog} {changes : List ib.TableChange} {h : Path ib}
    {r : Except Error (List (Table ib))}
    (hf : Prog.Follows (Redb.tryCommitTablesAtomic c changes).run h (.done r))
    (hsteps : Prog.Steps Does s h s') :
    s.Extends s' ∨ (∃ tables, r = .ok tables) ∧ SwapLands c changes s s' := by
  rcases Prog.Follows.bind_except_cases hf with
    ⟨e, k, -, hne⟩ | ⟨err, hf', -⟩ | ⟨h₁, h₂, ps, rfl, hf', hswap⟩
  · exact absurd rfl (hne _)
  · exact Or.inl (Steps.extends_of_meets (prepareAll_reads c changes) hf' hsteps)
  obtain ⟨mid, hsteps₁, hsteps₂⟩ := Prog.steps_append.mp hsteps
  obtain ⟨computed, hall, rfl⟩ := prepareAll_computed hf'
  obtain ⟨hmid, hfresh⟩ := hall.steps hsteps₁
  cases h₂ with
  | nil => cases (show _ = _ from hswap)
  | cons x h₂ =>
      obtain ⟨answer, rfl, hafter⟩ := hswap
      obtain ⟨last, hdoes, hrest⟩ := hsteps₂
      cases answer with
      | ok v =>
          obtain ⟨rfl, hresult⟩ := Prog.follows_done.mp hafter
          cases hresult
          obtain rfl := hrest
          obtain ⟨hcommits, hfiles⟩ := hdoes
          refine Or.inr ⟨⟨_, rfl⟩, h₁, mid, computed, hsteps₁, hall, ?_, hfiles⟩
          have hswaps : (computed.map Prod.snd).map Redb.Prepared.swap = swapsOf computed :=
            List.map_map ..
          rw [hswaps] at hcommits
          generalize s'.registry = reg' at hcommits
          cases hcommits with
          | committed happly => exact happly
      | error e =>
          -- The files it deletes are the ones it wrote.
          have hlast : s.Extends last :=
            hdoes.extends (e := .write _) (fun heq => by cases heq) hmid
          have hdeletes : (Redb.deleteAll (computed.map Prod.snd) >>= fun _ =>
              (throw e : Op ib (List (Table ib)))).Performs
              (fun e => ∃ location, e = .delete location ∧ location ∉ s.files) fun _ => True :=
            (deleteAll_performs fun p hp => by
              obtain ⟨x, hx, rfl⟩ := List.mem_map.mp hp
              exact ⟨_, rfl, hfresh x hx⟩).seq fun _ => .fail e
          refine Or.inl (hrest.keeps (I := s.Extends) hlast fun x hx s₁ s₂ hext hdoes => ?_)
          obtain ⟨location, hx', hnew⟩ := (hdeletes.of_follows hafter).1 x hx
          obtain ⟨e', r'⟩ := x
          obtain rfl := hx'
          exact hdoes.extends hnew hext

/-- All attempts, one after the other. -/
theorem retryCommit_steps {c : Catalog} {changes : List ib.TableChange} {attempts : Nat}
    {lastConflict : Option Error} {h : Path ib} {r : Except Error (List (Table ib))}
    (hf : Prog.Follows (Redb.retryCommit c changes attempts lastConflict).run h (.done r))
    (hsteps : Prog.Steps Does s h s') :
    s.Extends s' ∨ ∃ t, s.Extends t ∧ SwapLands c changes t s' := by
  induction attempts generalizing lastConflict h s with
  | zero =>
      obtain ⟨rfl, -⟩ := Prog.follows_done.mp hf
      obtain rfl := hsteps
      exact Or.inl (.refl s')
  | succ attempts ih =>
      rw [Redb.retryCommit, run_capture_bind] at hf
      rcases Prog.Follows.bind_cases hf with ⟨e, k, -, heq⟩ | ⟨h₁, h₂, answer, rfl, hf', hafter⟩
      · cases heq
      obtain ⟨mid, hsteps₁, hsteps₂⟩ := Prog.steps_append.mp hsteps
      have hattempt := tryCommit_steps hf' hsteps₁
      cases answer with
      | ok tables =>
          obtain ⟨rfl, -⟩ := Prog.follows_done.mp hafter
          obtain rfl := hsteps₂
          exact hattempt.imp_right fun hlands => ⟨s, .refl s, hlands.2⟩
      | error e =>
          have hmid : s.Extends mid := hattempt.resolve_right fun hlands => by
            obtain ⟨tables, htables⟩ := hlands.1
            cases htables
          simp only at hafter
          split at hafter
          · rcases ih hafter hsteps₂ with hext | ⟨t, ht, hlands⟩
            · exact Or.inl (hmid.trans hext)
            · exact Or.inr ⟨t, hmid.trans ht, hlands⟩
          · obtain ⟨rfl, -⟩ := Prog.follows_done.mp hafter
            obtain rfl := hsteps₂
            exact Or.inl hmid

theorem commitTable_steps {c : Catalog} {change : ib.TableChange} {r : Except Error (Reply ib)}
    (hexec : Prog.Exec Does (Redb.serve c (.commitTable change)).run s r s') :
    s.Extends s' ∨ ∃ t, s.Extends t ∧ SwapLands c [change] t s' := by
  obtain ⟨h, hf, hsteps⟩ := hexec
  rw [Redb.serve, run_map] at hf
  rcases Prog.Follows.bind_cases hf with ⟨e, k, -, heq⟩ | ⟨h₁, h₂, answer, rfl, hf', hafter⟩
  · cases heq
  obtain ⟨rfl, -⟩ := Prog.follows_done.mp hafter
  rw [List.append_nil] at hsteps
  rcases Prog.Follows.bind_except_cases hf' with
    ⟨e, k, -, hne⟩ | ⟨err, hcommit, -⟩ | ⟨h₃, h₄, tables, rfl, hcommit, hlast⟩
  · exact absurd rfl (hne _)
  · exact retryCommit_steps hcommit hsteps
  · obtain ⟨mid, hsteps₁, hsteps₂⟩ := Prog.steps_append.mp hsteps
    obtain rfl : h₄ = [] := by
      cases htables : tables.getLast? with
      | none => rw [htables] at hlast; exact (Prog.follows_done.mp hlast).1
      | some table => rw [htables] at hlast; exact (Prog.follows_done.mp hlast).1
    obtain rfl := hsteps₂
    exact retryCommit_steps hcommit hsteps₁

/-- The last thing a commit computes are the client's updates. -/
theorem compute_eq_ok {c : Catalog} {change : ib.TableChange} {expected : Option TabularRecord}
    {base metadata : ib.Metadata} {file : Text}
    (h : Redb.compute c change expected base file = .ok metadata) :
    Redb.applyUpdates base file change.updates = .ok metadata := by
  have hbind : ∀ {x : Except Error Unit} {y : Except Error ib.Metadata},
      (x >>= fun _ => y) = .ok metadata → y = .ok metadata := fun {x y} hxy => by
    cases x with
    | ok v => exact hxy
    | error e => cases hxy
  exact hbind (hbind (hbind h))

theorem Kept.commitTable (loc : ib.Locates) {c : Catalog} {change : ib.TableChange}
    {r : Except Error (Reply ib)} (h : Kept s) (hfree : StorageFree c s (.commitTable change))
    (hexec : Prog.Exec Does (Redb.serve c (.commitTable change)).run s r s') : Kept s' := by
  rcases commitTable_steps hexec with
    hext | ⟨t, ht, path, mid, computed, hsteps, hall, happly, hfiles⟩
  · exact h.of_extends hext
  have hkept := h.of_extends ht
  cases hall with
  | @cons _ _ path _ base p computed hone hrest =>
      cases hrest
      rw [List.append_nil] at hsteps
      obtain ⟨hnew, rfl, hbase⟩ := hone.steps hsteps
      have hident : p.swap.ident = change.ident := by cases hone <;> rfl
      rcases hbase with ⟨hrecord, metadata, hfile, hcompute⟩ | hstaged
      swap
      · rw [hkept.unstaged] at hstaged
        cases hstaged
      have hat : t.locationAt (tableKey change.ident) = some (ib.location metadata) :=
        Stored.locationAt_eq_some.mpr ⟨base, metadata, hrecord, hfile, rfl⟩
      have hmid := hkept.of_extends (Stored.extends_insert p.metadata hnew)
      have happly' : swapOne t.registry p.swap = .ok s'.registry :=
        swapTx_singleton.symm.trans happly
      rcases swapOne_eq_ok.mp happly' with
        ⟨expected, current, -, -, -, -, hreg⟩ | ⟨-, -, -, hnone, -⟩
      swap
      · rw [hident] at hnone
        exact absurd (Relation.mem_of_getElem? hrecord) hnone
      have hwritten :
        (t.files.insert p.newLocation p.metadata)[p.newLocation]? = some p.metadata := by
        rw [Relation.getElem?_insert, if_pos rfl]
      refine hmid.insert p.swap.next hwritten (by rw [hreg, hident])
        (fun k => by rw [hreg]; exact hmid.unstaged k)
        hfiles fun key location hne hloc => ?_
      rw [hkept.locationAt_of_extends (Stored.extends_insert p.metadata hnew)] at hloc
      have hother := hkept.apart _ _ _ _ hne hat hloc
      rcases applyUpdates_location loc (compute_eq_ok hcompute) with hsame | ⟨target, hmem, htarget⟩
      · rwa [hsame]
      · rw [htarget]
        rw [h.locationAt_of_extends ht] at hat hloc
        rcases hfree _ target hat hmem with hwithin | hapart
        · exact hother.of_within hwithin
        · exact hapart key location hne hloc

/-! ## Every state reached -/

/-- The states the four calls reach within one namespace, one call at a
time, from a registry without tables. -/
inductive Reached (c : Catalog) (ns : NamespaceIdent)
    (guard : Stored ib → Request ib → Prop) : Stored ib → Prop
  | start {s : Stored ib} (htables : s.registry.tables = ∅) (hstaged : s.registry.staged = ∅) :
      Reached c ns guard s
  | call {s s' : Stored ib} {q : Request ib} {r : Except Error (Reply ib)}
      (hs : Reached c ns guard s) (hq : q.Within ns) (hguard : guard s q)
      (hexec : Prog.Exec Does (Redb.serve c q).run s r s') : Reached c ns guard s'

theorem Reached.kept (loc : ib.Locates) {c : Catalog} {ns : NamespaceIdent}
    (h : Reached c ns (StorageFree c) s) : Kept s := by
  induction h with
  | start htables hstaged =>
      refine ⟨fun key key' location location' _ hl _ => ?_, fun hr => ?_, fun key => ?_⟩
      · rw [Stored.locationAt, htables] at hl
        cases hl
      · rw [htables] at hr
        cases hr
      · rw [hstaged]
        rfl
  | @call s s' q r hs hq hguard hexec ih =>
      cases q with
      | createTable ns creation => exact ih.createTable loc hq.2 hguard hexec
      | renameTable src dest => exact ih.renameTable hexec
      | dropTable table => exact ih.dropTable hexec
      | commitTable change => exact ih.commitTable loc hguard hexec
      | _ => exact hq.elim

/-- Registered tables never share storage, where every call puts its table
only where it is free. -/
theorem noSharing_of_storageFree (loc : ib.Locates) (c : Catalog) (ns : NamespaceIdent)
    (s : Stored ib) (h : Reached c ns (StorageFree c) s) : NoSharing s :=
  (h.kept loc).apart

/-! ## A name used twice -/

def Iceberg.plainLocates : Iceberg.plain.Locates where
  builderLocation builder := builder
  created creation metadata h := (Except.ok.inj h).symm
  intoBuilder metadata file := rfl
  setLocation location builder builder' h := (Except.ok.inj h).symm
  otherUpdate update builder builder' hne h := by
    cases update with
    | setLocation location => exact absurd rfl (hne location)
    | other u => exact u.elim
    | _ => exact (Except.ok.inj h).symm
  build builder metadata h := Except.ok.inj h.symm

/-- The state after a call, with storage that does not fail. -/
def Stored.after (c : Catalog) (s : Stored ib) (q : Request ib) : Stored ib :=
  (Prog.run Stored.handle (Redb.serve c q).run s).2

theorem Reached.after {c : Catalog} {ns : NamespaceIdent} {guard : Stored ib → Request ib → Prop}
    (h : Reached c ns guard s) {q : Request ib} (hq : q.Within ns) (hguard : guard s q) :
    Reached c ns guard (s.after c q) :=
  .call h hq hguard (Prog.exec_run Stored.handle_does _ s)

def db : NamespaceIdent := ["db".toList]

def emptyDb : Stored Iceberg.plain := ⟨dbRegistry, ∅⟩

def createT : Request Iceberg.plain := .createTable db ⟨"t".toList, none, ()⟩

def renameT : Request Iceberg.plain := .renameTable ⟨db, "t".toList⟩ ⟨db, "u".toList⟩

/-- `t` is created and renamed to `u`. -/
def renamedT : Stored Iceberg.plain := (emptyDb.after bucket createT).after bucket renameT

def createV : Request Iceberg.plain := .createTable db ⟨"v".toList, none, ()⟩

def moveV : Request Iceberg.plain :=
  .commitTable ⟨⟨db, "v".toList⟩, [], [.setLocation "s3://bucket/wh/db/v/2".toList]⟩

/-- Then `v` is created, and moved further down. -/
def besideV : Stored Iceberg.plain := (renamedT.after bucket createV).after bucket moveV

theorem Stored.mem_of_locationAt {key location : Text} (h : s.locationAt key = some location) :
    key ∈ s.registry.tables := by
  obtain ⟨record, metadata, hrecord, -, -⟩ := Stored.locationAt_eq_some.mp h
  exact Relation.mem_of_getElem? hrecord

theorem createV_free : StorageFree bucket renamedT createV := by
  have hkeys : renamedT.registry.tables.keys = [tableKey ⟨db, "u".toList⟩] := by decide
  have hlocation : renamedT.locationAt (tableKey ⟨db, "u".toList⟩) =
      some "s3://bucket/wh/db/t".toList := by decide
  intro key location hloc
  have hmem := Std.ExtTreeMap.mem_keys.mpr (Stored.mem_of_locationAt hloc)
  rw [hkeys, List.mem_singleton] at hmem
  rw [hmem, hlocation] at hloc
  cases hloc
  exact ⟨by decide, by decide⟩

theorem moveV_free : StorageFree bucket (renamedT.after bucket createV) moveV := by
  have hlocation : (renamedT.after bucket createV).locationAt (tableKey ⟨db, "v".toList⟩) =
      some "s3://bucket/wh/db/v".toList := by decide
  intro current target hcurrent htarget
  rw [hlocation] at hcurrent
  cases hcurrent
  cases List.mem_singleton.mp htarget
  exact .inl (by decide)

theorem noSharing_of_storageFree_besideV : NoSharing besideV ∧
    besideV.locationAt (tableKey ⟨db, "u".toList⟩) = some "s3://bucket/wh/db/t".toList ∧
      besideV.locationAt (tableKey ⟨db, "v".toList⟩) = some "s3://bucket/wh/db/v/2".toList := by
  have hstart : Reached bucket db (StorageFree bucket) emptyDb := .start rfl rfl
  have hcreated : Reached bucket db (StorageFree bucket) (emptyDb.after bucket createT) :=
    hstart.after ⟨rfl, rfl⟩ fun key location hloc => by cases hloc
  have hrenamed : Reached bucket db (StorageFree bucket) renamedT :=
    hcreated.after ⟨rfl, rfl⟩ trivial
  have hbeside : Reached bucket db (StorageFree bucket) (renamedT.after bucket createV) :=
    hrenamed.after ⟨rfl, rfl⟩ createV_free
  exact ⟨noSharing_of_storageFree Iceberg.plainLocates bucket db _ (hbeside.after rfl moveV_free),
    by decide, by decide⟩

/-- `t` is created, renamed to `u`, and created again. -/
def createdTwice : Stored Iceberg.plain := renamedT.after bucket createT

theorem createdTwice_locations :
    createdTwice.locationAt (tableKey ⟨db, "t".toList⟩) = some "s3://bucket/wh/db/t".toList ∧
      createdTwice.locationAt (tableKey ⟨db, "u".toList⟩) = some "s3://bucket/wh/db/t".toList := by
  decide

theorem storage_shared :
    ¬ ∀ (ib : Iceberg) (_ : ib.Locates) (c : Catalog) (ns : NamespaceIdent) (s : Stored ib),
      Reached c ns (fun _ _ => True) s → NoSharing s := by
  intro hall
  have hcreate : createT.Within db := ⟨rfl, rfl⟩
  have hrename : renameT.Within db := ⟨rfl, rfl⟩
  have hstart : Reached bucket db (fun _ _ => True) emptyDb := .start rfl rfl
  have hreached : Reached bucket db (fun _ _ => True) createdTwice :=
    ((hstart.after hcreate trivial).after hrename trivial).after hcreate trivial
  have hapart := hall _ Iceberg.plainLocates bucket db _ hreached _ _ _ _ (by decide)
    createdTwice_locations.1 createdTwice_locations.2
  exact absurd hapart.1 (by decide)

end Rustberg
