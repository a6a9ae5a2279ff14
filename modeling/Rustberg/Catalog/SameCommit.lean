import Rustberg.Catalog.Files
import Rustberg.Catalog.Integrity

/-!
# One commit, sent more than once

Any number of requests commit the same requirements and updates to one table.
A swap that loses is retried, and the retry checks the requirements against
what it then reads. So the commit is applied once, and every other request
answers a conflict, when what the updates leave no longer meets the
requirements (`same_commit_once`); requirements that still hold let it be
applied again (`same_commit_twice`).
-/

namespace Rustberg

open Process

variable {ib : Iceberg}

/-- The checks of a commit refuse the table as a conflict. -/
def Refuses (change : ib.TableChange) (metadata : ib.Metadata) : Prop :=
  ∃ e : Error, e.kind = .catalogCommitConflicts ∧ (do
    change.requirements.forM (Redb.checkRequirement change.ident (some metadata))
    rejectStaleRowLineage change.ident metadata change.updates) = Except.error e

theorem Refuses.compute {change : ib.TableChange} {metadata : ib.Metadata}
    (h : Refuses change metadata) (c : Catalog) (record : TabularRecord) (file : Text) :
    ∃ e : Error, e.kind = .catalogCommitConflicts ∧
      Redb.compute c change (some record) metadata file = .error e := by
  obtain ⟨e, hkind, hchecks⟩ := h
  refine ⟨e, hkind, ?_⟩
  unfold Redb.compute
  simp only [Option.isSome_some, if_true]
  cases hrequirements :
      change.requirements.forM (Redb.checkRequirement change.ident (some metadata)) with
  | error e' =>
      rw [hrequirements] at hchecks
      cases hchecks
      rfl
  | ok v =>
      rw [hrequirements] at hchecks
      have hlineage : rejectStaleRowLineage change.ident metadata change.updates = .error e :=
        hchecks
      rw [hlineage]
      rfl

/-! ## What a commit has read -/

/-- The effects of `h` have read a base of the change. -/
inductive Based (change : ib.TableChange) (h : Path ib) :
    Option TabularRecord → ib.Metadata → Text → Prop
  | update {record : TabularRecord} {base : ib.Metadata}
      (hrecord : ⟨.getTabular .table (tableKey change.ident), .ok (some record)⟩ ∈ h)
      (hbase : ⟨.readMetadata record.metadataLocation, .ok base⟩ ∈ h) :
      Based change h (some record) base record.metadataLocation
  | create {staged : TabularRecord} {base : ib.Metadata}
      (hcreating : Redb.isCreating change.requirements = true)
      (hrecord : ⟨.getTabular .table (tableKey change.ident), .ok none⟩ ∈ h)
      (hstaged : ⟨.getStaged (tableKey change.ident), .ok (some staged)⟩ ∈ h)
      (hbase : ⟨.readMetadata staged.metadataLocation, .ok base⟩ ∈ h) :
      Based change h none base staged.metadataLocation

/-- The table has been computed from a base and given a name. -/
inductive Made (c : Catalog) (change : ib.TableChange) (h : Path ib) : Redb.Prepared ib → Prop
  | of {expected : Option TabularRecord} {base metadata : ib.Metadata} {file uuid newFile : Text}
      (hbased : Based change h expected base file)
      (hcompute : Redb.compute c change expected base file = .ok metadata)
      (huuid : ⟨.newUuid, .ok uuid⟩ ∈ h)
      (hname : MetadataFile.nextTable ib uuid file metadata = .ok newFile) :
      Made c change h ⟨change.ident, expected, metadata, newFile⟩

/-- The call has written the file of its present attempt, and no swap has published it. -/
def Pending (h : Path ib) (file : Text) (metadata : ib.Metadata) : Prop :=
  h.getLast? = some ⟨.writeMetadata metadata file, .ok ()⟩ ∨
    ∃ h' tx err, h = h' ++ [⟨.writeMetadata metadata file, .ok ()⟩, ⟨.write tx, .error err⟩]

/-- The effects of a commit, each after what it is made of. -/
inductive CommitIssues (c : Catalog) (change : ib.TableChange) (h : Path ib) : Effect ib → Prop
  | getTabular : CommitIssues c change h (.getTabular .table (tableKey change.ident))
  | getStaged : CommitIssues c change h (.getStaged (tableKey change.ident))
  | readMetadata {record : TabularRecord}
      (hrecord : ⟨.getTabular .table (tableKey change.ident), .ok (some record)⟩ ∈ h ∨
        ⟨.getStaged (tableKey change.ident), .ok (some record)⟩ ∈ h) :
      CommitIssues c change h (.readMetadata record.metadataLocation)
  | newUuid : CommitIssues c change h .newUuid
  | writeMetadata {p : Redb.Prepared ib} (hmade : Made c change h p) :
      CommitIssues c change h (.writeMetadata p.metadata p.newLocation)
  | swap {p : Redb.Prepared ib} (hmade : Made c change h p)
      (hlast : h.getLast? = some ⟨.writeMetadata p.metadata p.newLocation, .ok ()⟩) :
      CommitIssues c change h (.write (.swap [p.swap]))
  | delete {file : Text} {metadata : ib.Metadata} (hpending : Pending h file metadata) :
      CommitIssues c change h (.delete file)

/-- Why a commit fails. -/
inductive Fails (c : Catalog) (change : ib.TableChange) (h : Path ib) (e : Error) : Prop
  | conflict (hkind : e.kind = .catalogCommitConflicts)
  | effect {x : Effect ib} {err : Error} (hx : ⟨x, .error err⟩ ∈ h) (hread : ∀ tx, x ≠ .write tx)
  | unknown (hrecord : ⟨.getTabular .table (tableKey change.ident), .ok none⟩ ∈ h)
      (hcreating : Redb.isCreating change.requirements = false)
  | unstaged (hrecord : ⟨.getTabular .table (tableKey change.ident), .ok none⟩ ∈ h)
      (hstaged : ⟨.getStaged (tableKey change.ident), .ok none⟩ ∈ h)
  | compute {expected : Option TabularRecord} {base : ib.Metadata} {file : Text}
      (hbased : Based change h expected base file)
      (hcompute : Redb.compute c change expected base file = .error e)
  | name {expected : Option TabularRecord} {base metadata : ib.Metadata} {file uuid : Text}
      (hbased : Based change h expected base file)
      (hcompute : Redb.compute c change expected base file = .ok metadata)
      (huuid : ⟨.newUuid, .ok uuid⟩ ∈ h)
      (hname : MetadataFile.nextTable ib uuid file metadata = .error e)
  | swap {p : Redb.Prepared ib} (hmade : Made c change h p)
      (hswap : ⟨.write (.swap [p.swap]), .error e⟩ ∈ h)

/-- A swap of the call has landed. -/
def Lands (h : Path ib) : Prop := ∃ tx, committed tx ∈ h

variable {c : Catalog} {change : ib.TableChange} {h h' : Path ib}

theorem Based.mono {expected : Option TabularRecord} {base : ib.Metadata} {file : Text}
    (hbased : Based change h expected base file) (hsub : h ⊆ h') :
    Based change h' expected base file := by
  cases hbased with
  | update hrecord hbase => exact .update (hsub hrecord) (hsub hbase)
  | create hcreating hrecord hstaged hbase =>
      exact .create hcreating (hsub hrecord) (hsub hstaged) (hsub hbase)

theorem Made.mono {p : Redb.Prepared ib} (hmade : Made c change h p) (hsub : h ⊆ h') :
    Made c change h' p := by
  cases hmade with
  | of hbased hcompute huuid hname => exact .of (hbased.mono hsub) hcompute (hsub huuid) hname

/-! ## The effects of a commit, in order -/

section

variable {α β : Type} {P : Path ib → Effect ib → Prop} {T : Path ib → Except Error β → Prop}

theorem traced_act {e : Effect ib} {f : e.Payload → Op ib β} (he : P h e)
    (hok : ∀ v, Prog.Traced P T (h ++ [⟨e, .ok v⟩]) (f v).run)
    (herror : ∀ err, T (h ++ [⟨e, .error err⟩]) (.error err)) :
    Prog.Traced P T h (act e >>= f).run :=
  ⟨he, fun
    | .ok v => hok v
    | .error err => herror err⟩

theorem traced_ofExcept {r : Except Error α} {f : α → Op ib β}
    (hok : ∀ a, r = .ok a → Prog.Traced P T h (f a).run)
    (herror : ∀ e, r = .error e → T h (.error e)) :
    Prog.Traced P T h (ofExcept r >>= f).run := by
  cases r with
  | ok a => exact hok a rfl
  | error e => exact herror e rfl

end

theorem mem_snoc_self (x : Σ e : Effect ib, e.Answer) : x ∈ h ++ [x] :=
  List.mem_append_right _ (List.mem_singleton_self _)

theorem subset_snoc (x : Σ e : Effect ib, e.Answer) : h ⊆ h ++ [x] := List.subset_append_left _ _

theorem readBase_traced : Prog.Traced (CommitIssues c change) (fun h r => match r with
      | .ok (expected, base, file) => Based change h expected base file
      | .error e => Fails c change h e) h (Redb.readBase change).run := by
  refine traced_act .getTabular (fun record => ?_) fun err =>
    .effect (mem_snoc_self _) fun _ h => by cases h
  cases record with
  | some record =>
      refine traced_act (.readMetadata (Or.inl (mem_snoc_self _))) (fun base => ?_) fun err =>
        .effect (mem_snoc_self _) fun _ h => by cases h
      exact .update (subset_snoc _ (mem_snoc_self _)) (mem_snoc_self _)
  | none =>
      dsimp only
      split
      · next hcreating =>
          refine traced_act .getStaged (fun staged => ?_) fun err =>
            .effect (mem_snoc_self _) fun _ h => by cases h
          cases staged with
          | none => exact .unstaged (subset_snoc _ (mem_snoc_self _)) (mem_snoc_self _)
          | some staged =>
              refine traced_act (.readMetadata (Or.inr (mem_snoc_self _))) (fun base => ?_)
                fun err => .effect (mem_snoc_self _) fun _ h => by cases h
              exact .create hcreating (subset_snoc _ (subset_snoc _ (mem_snoc_self _)))
                (subset_snoc _ (mem_snoc_self _)) (mem_snoc_self _)
      · next hcreating => exact .unknown (mem_snoc_self _) (by simpa using hcreating)

theorem prepare_traced : Prog.Traced (CommitIssues c change) (fun h r => match r with
      | .ok p => Made c change h p ∧
          h.getLast? = some ⟨.writeMetadata p.metadata p.newLocation, .ok ()⟩
      | .error e => Fails c change h e) h (Redb.prepare c change).run := by
  refine Prog.Traced.bind_except readBase_traced (fun _ _ h => h)
    fun h ⟨expected, base, file⟩ hbased => ?_
  have hbased : Based change h expected base file := hbased
  refine traced_ofExcept (fun metadata hcompute => ?_) fun e hcompute => .compute hbased hcompute
  refine traced_act .newUuid (fun uuid => ?_) fun err =>
    .effect (mem_snoc_self _) fun _ h => by cases h
  refine traced_ofExcept (fun newFile hname => ?_) fun e hname =>
    .name (hbased.mono (subset_snoc _)) hcompute (mem_snoc_self _) hname
  have hmade :
    Made c change (h ++ [⟨.newUuid, .ok uuid⟩]) ⟨change.ident, expected, metadata, newFile⟩ :=
    .of (hbased.mono (subset_snoc _)) hcompute (mem_snoc_self _) hname
  refine traced_act (.writeMetadata hmade) (fun _ => ?_) fun err =>
    .effect (mem_snoc_self _) fun _ h => by cases h
  exact ⟨hmade.mono (subset_snoc _), List.getLast?_concat⟩

theorem tryCommit_traced : Prog.Traced (CommitIssues c change) (fun h r => match r with
      | .ok tables => Lands h ∧ tables ≠ []
      | .error e => Fails c change h e) h (Redb.tryCommitTablesAtomic c [change]).run := by
  have hall : Prog.Traced (CommitIssues c change) (fun h r => match r with
      | .ok ps => ∃ p, ps = [p] ∧ Made c change h p ∧
          h.getLast? = some ⟨.writeMetadata p.metadata p.newLocation, .ok ()⟩
      | .error e => Fails c change h e) h (Redb.prepareAll c [change]).run :=
    Prog.Traced.bind_except prepare_traced (fun _ _ h => h) fun h p hp => ⟨p, rfl, hp⟩
  refine Prog.Traced.bind_except hall (fun _ _ h => h) ?_
  rintro h _ ⟨p, rfl, hmade, hlast⟩
  refine ⟨.swap hmade hlast, fun r => ?_⟩
  cases r with
  | ok v => exact ⟨⟨.swap [p.swap], mem_snoc_self _⟩, by simp⟩
  | error err =>
      -- The file of a lost swap is deleted, and the attempt fails with the swap's error.
      obtain ⟨h', rfl⟩ := List.getLast?_eq_some_iff.mp hlast
      have hpending : Pending ((h' ++ [⟨.writeMetadata p.metadata p.newLocation, .ok ()⟩]) ++
          [⟨.write (.swap [p.swap]), .error err⟩]) p.newLocation p.metadata :=
        Or.inr ⟨h', .swap [p.swap], err, by simp⟩
      refine ⟨.delete hpending, fun r => ?_⟩
      · exact .swap ((hmade.mono (subset_snoc _)).mono (subset_snoc _))
          (subset_snoc _ (mem_snoc_self _))

theorem retryCommit_traced {attempts : Nat} {lastConflict : Option Error} :
    Prog.Traced (CommitIssues c change) (fun h r => match r with
      | .ok tables => Lands h ∧ tables ≠ []
      | .error e => Fails c change h e) h
      (Redb.retryCommit c [change] attempts lastConflict).run := by
  induction attempts generalizing h lastConflict with
  | zero => exact .conflict rfl
  | succ attempts ih =>
      rw [Redb.retryCommit, run_capture_bind]
      refine Prog.Traced.bind tryCommit_traced fun h r hr => ?_
      cases r with
      | ok tables => exact hr
      | error e =>
          dsimp only
          split
          · exact ih
          · exact hr

theorem commitTable_traced : Prog.Traced (CommitIssues c change) (fun h r => match r with
      | .ok _ => Lands h
      | .error e => Fails c change h e) [] (Redb.serve c (.commitTable change)).run := by
  rw [Redb.serve, Redb.commitTable, map_bind]
  refine Prog.Traced.bind_except retryCommit_traced (fun _ _ h => h) ?_
  rintro h tables ⟨hlands, hne⟩
  cases htables : tables.getLast? with
  | some table => exact hlands
  | none => exact absurd (List.getLast?_eq_none_iff.mp htables) hne

theorem pending_snoc {x : Σ e : Effect ib, e.Answer} {file : Text} {metadata : ib.Metadata}
    (hpending : Pending (h ++ [x]) file metadata) :
    x = ⟨.writeMetadata metadata file, .ok ()⟩ ∨
      (∃ tx err, x = ⟨.write tx, .error err⟩) ∧ Pending h file metadata := by
  rcases hpending with hlast | ⟨h', tx, err, heq⟩
  · rw [List.getLast?_concat] at hlast
    exact Or.inl (Option.some.inj hlast)
  · rw [show h' ++ [(⟨.writeMetadata metadata file, .ok ()⟩ : Σ e : Effect ib, e.Answer),
      ⟨.write tx, .error err⟩] = (h' ++ [⟨.writeMetadata metadata file, .ok ()⟩]) ++
        [⟨.write tx, .error err⟩] by simp] at heq
    obtain ⟨rfl, hx⟩ := List.append_inj' heq rfl
    exact Or.inr ⟨⟨tx, err, List.singleton_inj.mp hx⟩, Or.inl List.getLast?_concat⟩

/-! ## Runs -/

abbrev CommitConfig (ib : Iceberg) :=
  Config (Effect ib) Effect.Answer (Except Error (Reply ib)) (Stored ib) Unit

abbrev CommitEvent (ib : Iceberg) := Event (Effect ib) Effect.Answer (Stored ib) Unit

/-- Any number of requests for the one commit, interleaved. -/
abbrev CommitRun (c : Catalog) (change : ib.TableChange) (start : Stored ib)
    (tr : List (CommitEvent ib)) (cfg : CommitConfig ib) : Prop :=
  Run (fun _ => (Redb.serve c (.commitTable change)).run) Does (fun _ _ => False) ⟨start, []⟩ tr cfg

/-- What `readBase` reads, when nothing comes in between. -/
def Stored.base (s : Stored ib) (change : ib.TableChange) :
    Option (Option TabularRecord × ib.Metadata × Text) :=
  match s.registry.tables[tableKey change.ident]? with
  | some record => s.files[record.metadataLocation]?.map fun base =>
      (some record, base, record.metadataLocation)
  | none =>
      if Redb.isCreating change.requirements then
        s.registry.staged[tableKey change.ident]?.bind fun staged =>
          s.files[staged.metadataLocation]?.map fun base => (none, base, staged.metadataLocation)
      else none

/-- The requirements are used up: what the updates leave does not meet them. -/
def Spent (c : Catalog) (change : ib.TableChange) (start : Stored ib) : Prop :=
  ∀ expected base file metadata, start.base change = some (expected, base, file) →
    Redb.compute c change expected base file = .ok metadata → Refuses change metadata

/-- Storage has the base and does not fail, names do not depend on which UUIDs are
drawn, and a staging is looked up before another request has used it. -/
structure FaultFree (change : ib.TableChange) (start : Stored ib) (tr : List (CommitEvent ib)) :
    Prop where
  filed : ∀ record, start.registry.tables[tableKey change.ident]? = some record ∨
    start.registry.staged[tableKey change.ident]? = some record →
      record.metadataLocation ∈ start.files
  answered : ∀ ev ∈ tr, ∀ i e err, ev.label = .act i e (.error err) →
    ∃ swaps, e = .write (.swap swaps) ∧ swapTx swaps ev.pre.registry = .error err
  named : ∀ i j uuid uuid', ⟨.newUuid, .ok uuid⟩ ∈ actsOf i tr →
    ⟨.newUuid, .ok uuid'⟩ ∈ actsOf j tr →
    ∀ file metadata newFile, MetadataFile.nextTable ib uuid file metadata = .ok newFile →
      ∃ newFile', MetadataFile.nextTable ib uuid' file metadata = .ok newFile'
  staged : ∀ ev ∈ tr, ∀ i key r, ev.label = .act i (.getStaged key) r →
    ev.pre.registry.staged[key]? = start.registry.staged[key]?

variable {start : Stored ib} {tr : List (CommitEvent ib)} {cfg : CommitConfig ib}

/-! ## What one commit leaves to the others -/

/-- The swap that has landed. -/
structure Landing (ib : Iceberg) where
  call : Nat
  record : TabularRecord
  metadata : ib.Metadata

/-- What an effect has seen is of the start, or of the commit that has landed. -/
def Shown (start : Stored ib) (landing : Option (Landing ib)) : (e : Effect ib) → e.Answer → Prop
  | .getTabular .table key, .ok (some record) => start.registry.tables[key]? = some record ∨
      ∃ l, landing = some l ∧ record = l.record
  | .getTabular .table key, .ok none => start.registry.tables[key]? = none
  | .getStaged key, .ok staged => start.registry.staged[key]? = staged
  | .readMetadata file, .ok metadata => start.files[file]? = some metadata ∨
      ∃ l, landing = some l ∧ file = l.record.metadataLocation ∧ metadata = l.metadata
  | .write tx, .error err => ∃ reg : Registry, reg.namespaces = start.registry.namespaces ∧
      reg.views = start.registry.views ∧ tx.apply reg = .error err
  | _, _ => True

/-- The landed table was computed from the base of the start. -/
structure LandedFrom (c : Catalog) (change : ib.TableChange) (start : Stored ib)
    (tr : List (CommitEvent ib)) (l : Landing ib) : Prop where
  new : l.record.metadataLocation ∉ start.files
  made : ∃ expected base file uuid, start.base change = some (expected, base, file) ∧
    Redb.compute c change expected base file = .ok l.metadata ∧
      (⟨.newUuid, .ok uuid⟩ : Σ e : Effect ib, e.Answer) ∈ actsOf l.call tr ∧
        MetadataFile.nextTable ib uuid file l.metadata = .ok l.record.metadataLocation ∧
          (expected = none → namespaceKey change.ident.namespc ∈ start.registry.namespaces ∧
            tableKey change.ident ∉ start.registry.views)

structure Once (c : Catalog) (change : ib.TableChange) (start : Stored ib)
    (tr : List (CommitEvent ib)) (s : Stored ib) (landing : Option (Landing ib)) : Prop where
  namespaces : s.registry.namespaces = start.registry.namespaces
  views : s.registry.views = start.registry.views
  tables : s.registry.tables[tableKey change.ident]? =
    (landing.map Landing.record).or start.registry.tables[tableKey change.ident]?
  files : ∀ {file : Text} {metadata : ib.Metadata}, start.files[file]? = some metadata →
    s.files[file]? = some metadata
  landed : ∀ l, landing = some l → s.files[l.record.metadataLocation]? = some l.metadata ∧
    LandedFrom c change start tr l
  shown : ∀ i x, x ∈ actsOf i tr → Shown start landing x.1 x.2
  /-- A file on its way has one owner, and is neither the base nor what has landed. -/
  pending : ∀ i file metadata, Pending (actsOf i tr) file metadata →
    s.files[file]? = some metadata ∧ file ∉ start.files ∧
      (∀ l, landing = some l → file ≠ l.record.metadataLocation) ∧
        ∀ j metadata', Pending (actsOf j tr) file metadata' → j = i
  lander : ∀ i, Lands (actsOf i tr) → ∃ l, landing = some l ∧ l.call = i

section

variable {s s' : Stored ib} {landing : Option (Landing ib)} {j : Nat} {e : Effect ib} {r : e.Answer}

theorem shown_cons {l : Landing ib} {x : Σ e : Effect ib, e.Answer} (h : Shown start none x.1 x.2) :
    Shown start (some l) x.1 x.2 := by
  obtain ⟨e, r⟩ := x
  cases e with
  | getTabular kind key =>
      cases kind with
      | view => exact trivial
      | table =>
          rcases r with err | _ | record
          · trivial
          · exact h
          · exact h.imp_right fun ⟨_, hnone, _⟩ => (by cases hnone)
  | readMetadata file =>
      cases r with
      | error err => trivial
      | ok metadata => exact h.imp_right fun ⟨_, hnone, _⟩ => (by cases hnone)
  | _ => cases r <;> exact h

/-- What a call has read is the base of the start, or what has landed. -/
theorem Once.base (honce : Once c change start tr s landing)
    (hfiled : ∀ record, start.registry.tables[tableKey change.ident]? = some record ∨
      start.registry.staged[tableKey change.ident]? = some record →
        record.metadataLocation ∈ start.files) {i : Nat} {expected : Option TabularRecord}
    {base : ib.Metadata} {file : Text} (hbased : Based change (actsOf i tr) expected base file) :
    start.base change = some (expected, base, file) ∨ ∃ l, landing = some l ∧
      expected = some l.record ∧ base = l.metadata ∧ file = l.record.metadataLocation := by
  -- A file of the start is not the landed one.
  have hstart : ∀ {file : Text} {metadata : ib.Metadata}, file ∈ start.files →
      (⟨.readMetadata file, .ok metadata⟩ : Σ e : Effect ib, e.Answer) ∈ actsOf i tr →
        start.files[file]? = some metadata := by
    intro file metadata hfile hmem
    rcases honce.shown i _ hmem with hstart | ⟨l, hl, rfl, -⟩
    · exact hstart
    · exact absurd hfile (honce.landed l hl).2.new
  cases hbased with
  | @update record base hrecord hbase =>
      rcases honce.shown i _ hrecord with hrecord | ⟨l, hl, rfl⟩
      · refine Or.inl ?_
        rw [Stored.base, hrecord]
        simp only
        rw [hstart (hfiled record (Or.inl hrecord)) hbase]
        rfl
      · refine Or.inr ⟨l, hl, rfl, ?_, rfl⟩
        rcases honce.shown i _ hbase with hstart | ⟨l', hl', -, hmetadata⟩
        · exact absurd (Relation.mem_of_getElem? hstart) (honce.landed l hl).2.new
        · obtain rfl := Option.some.inj (hl.symm.trans hl')
          exact hmetadata
  | @create staged base hcreating hrecord hstaged hbase =>
      have hrecord : start.registry.tables[tableKey change.ident]? = none := honce.shown i _ hrecord
      have hstaged : start.registry.staged[tableKey change.ident]? = some staged :=
        honce.shown i _ hstaged
      refine Or.inl ?_
      rw [Stored.base, hrecord]
      simp only
      rw [if_pos hcreating, hstaged, Option.bind_some,
        hstart (hfiled staged (Or.inr hstaged)) hbase]
      rfl

/-- A new event of call `j`. -/
theorem mem_actsOf_snoc {i : Nat} {x : Σ e : Effect ib, e.Answer}
    (hx : x ∈ actsOf i (tr ++ [⟨s, .act j e r, s'⟩])) : x ∈ actsOf i tr ∨ i = j ∧ x = ⟨e, r⟩ := by
  rw [actsOf_append] at hx
  rcases List.mem_append.mp hx with hold | hnew
  · exact Or.inl hold
  · by_cases hij : j = i
    · subst hij
      rw [actsOf_act] at hnew
      exact Or.inr ⟨rfl, List.mem_singleton.mp hnew⟩
    · simp [actsOf, hij] at hnew

theorem pending_actsOf_snoc {i : Nat} {file : Text} {metadata : ib.Metadata}
    (hpending : Pending (actsOf i (tr ++ [⟨s, .act j e r, s'⟩])) file metadata) :
    (i = j ∧ (⟨e, r⟩ : Σ e : Effect ib, e.Answer) = ⟨.writeMetadata metadata file, .ok ()⟩) ∨
      Pending (actsOf i tr) file metadata ∧
        (i = j → ∃ tx err, (⟨e, r⟩ : Σ e : Effect ib, e.Answer) =
        ⟨.write tx, .error err⟩) := by
  rw [actsOf_append] at hpending
  by_cases hij : j = i
  · subst hij
    rw [actsOf_act] at hpending
    rcases pending_snoc hpending with hwrite | ⟨hfail, hold⟩
    · exact Or.inl ⟨rfl, hwrite⟩
    · exact Or.inr ⟨hold, fun _ => hfail⟩
  · refine Or.inr ⟨?_, fun h => absurd h.symm hij⟩
    simpa [actsOf, hij] using hpending

theorem LandedFrom.snoc {l : Landing ib} (h : LandedFrom c change start tr l)
    (ev : CommitEvent ib) :
    LandedFrom c change start (tr ++ [ev]) l := by
  obtain ⟨hnew, expected, base, file, uuid, hbase, hcompute, huuid, hrest⟩ := h
  refine ⟨hnew, expected, base, file, uuid, hbase, hcompute, ?_, hrest⟩
  rw [actsOf_append]
  exact List.mem_append_left _ huuid

/-- An effect that changes nothing. -/
theorem Once.keep (honce : Once c change start tr s landing) (hseen : Shown start landing e r)
    (hwrite : ∀ metadata file, (⟨e, r⟩ : Σ e : Effect ib, e.Answer) ≠
      ⟨.writeMetadata metadata file, .ok ()⟩)
    (hcommit : ∀ tx, (⟨e, r⟩ : Σ e : Effect ib, e.Answer) ≠ committed tx) :
    Once c change start (tr ++ [⟨s, .act j e r, s⟩]) s landing where
  namespaces := honce.namespaces
  views := honce.views
  tables := honce.tables
  files := honce.files
  landed l hl := ⟨(honce.landed l hl).1, (honce.landed l hl).2.snoc _⟩
  shown i x hx := by
    rcases mem_actsOf_snoc hx with hold | ⟨-, rfl⟩
    · exact honce.shown i x hold
    · exact hseen
  pending i file metadata hpending := by
    have hold : ∀ {i : Nat} {metadata : ib.Metadata},
        Pending (actsOf i (tr ++ [⟨s, .act j e r, s⟩])) file metadata →
          Pending (actsOf i tr) file metadata := fun h => by
      rcases pending_actsOf_snoc h with ⟨-, heq⟩ | ⟨hold, -⟩
      · exact absurd heq (hwrite _ file)
      · exact hold
    obtain ⟨hfile, hnew, hlanded, howner⟩ := honce.pending i file metadata (hold hpending)
    exact ⟨hfile, hnew, hlanded, fun k m hk => howner k m (hold hk)⟩
  lander i := by
    rintro ⟨tx, htx⟩
    rcases mem_actsOf_snoc htx with hold | ⟨-, heq⟩
    · exact honce.lander i ⟨tx, hold⟩
    · exact absurd heq.symm (hcommit tx)

theorem Once.write (honce : Once c change start tr s landing) {metadata : ib.Metadata} {file : Text}
    (hnew : file ∉ s.files) :
    Once c change start (tr ++ [⟨s, .act j (.writeMetadata metadata file) (.ok ()),
      { s with files := s.files.insert file metadata }⟩])
      { s with files := s.files.insert file metadata } landing where
  namespaces := honce.namespaces
  views := honce.views
  tables := honce.tables
  files h := (Stored.extends_insert metadata hnew).files (honce.files h)
  landed l hl := ⟨(Stored.extends_insert metadata hnew).files (honce.landed l hl).1,
    (honce.landed l hl).2.snoc _⟩
  shown i x hx := by
    rcases mem_actsOf_snoc hx with hold | ⟨-, rfl⟩
    · exact honce.shown i x hold
    · trivial
  pending i file' metadata' hpending := by
    rcases pending_actsOf_snoc hpending with ⟨rfl, heq⟩ | ⟨hold, -⟩
    · obtain ⟨rfl, rfl⟩ : metadata = metadata' ∧ file = file' := by
        cases heq
        exact ⟨rfl, rfl⟩
      refine ⟨(Relation.getElem?_insert ..).trans (if_pos rfl), fun hstart => ?_,
        fun l hl heq => ?_,
        fun k m hk => ?_⟩
      · obtain ⟨m, hm⟩ := Option.ne_none_iff_exists'.mp
          (mt Relation.getElem?_eq_none_iff.mp (not_not.mpr hstart))
        exact hnew (Relation.mem_of_getElem? (honce.files hm))
      · exact hnew (heq ▸ Relation.mem_of_getElem? (honce.landed l hl).1)
      · rcases pending_actsOf_snoc hk with ⟨rfl, -⟩ | ⟨hk, -⟩
        · rfl
        · exact absurd (Relation.mem_of_getElem? (honce.pending k file m hk).1) hnew
    · obtain ⟨hfile, hstart, hlanded, howner⟩ := honce.pending i file' metadata' hold
      refine ⟨(Stored.extends_insert metadata hnew).files hfile, hstart, hlanded, fun k m hk => ?_⟩
      rcases pending_actsOf_snoc hk with ⟨-, heq⟩ | ⟨hk, -⟩
      · cases heq
        exact absurd (Relation.mem_of_getElem? hfile) hnew
      · exact howner k m hk
  lander i := by
    rintro ⟨tx, htx⟩
    rcases mem_actsOf_snoc htx with hold | ⟨-, heq⟩
    · exact honce.lander i ⟨tx, hold⟩
    · cases heq

/-- A call deletes the file it has on its way. -/
theorem Once.delete (honce : Once c change start tr s landing) {file : Text}
    {metadata : ib.Metadata}
    (hpending : Pending (actsOf j tr) file metadata) {r : Except Error Unit}
    (hreg : s'.registry = s.registry)
    (hfiles : s'.files = s.files ∨ s'.files = s.files.erase file) :
    Once c change start (tr ++ [⟨s, .act j (.delete file) r, s'⟩]) s' landing := by
  obtain ⟨-, hnew, hlanded, howner⟩ := honce.pending j file metadata hpending
  have hkept : ∀ {f : Text} {m : ib.Metadata}, f ≠ file → s.files[f]? = some m →
      s'.files[f]? = some m := by
    intro f m hne hf
    rcases hfiles with heq | heq
    · rw [heq]
      exact hf
    · rw [heq, Relation.getElem?_erase, if_neg (Ne.symm hne)]
      exact hf
  refine ⟨by rw [hreg]; exact honce.namespaces, by rw [hreg]; exact honce.views,
    by rw [hreg]; exact honce.tables, fun {f m} hf => ?_, fun l hl => ?_, fun i x hx => ?_,
    fun i f m hf => ?_, fun i => ?_⟩
  · exact hkept (fun heq => hnew (heq ▸ Relation.mem_of_getElem? hf)) (honce.files hf)
  · exact ⟨hkept (fun heq => hlanded l hl heq.symm) (honce.landed l hl).1,
      (honce.landed l hl).2.snoc _⟩
  · rcases mem_actsOf_snoc hx with hold | ⟨-, rfl⟩
    · exact honce.shown i x hold
    · cases r <;> trivial
  · have hold : ∀ {i : Nat} {f : Text} {m : ib.Metadata},
        Pending (actsOf i (tr ++ [⟨s, .act j (.delete file) r, s'⟩])) f m →
          Pending (actsOf i tr) f m ∧ i ≠ j := fun h => by
      rcases pending_actsOf_snoc h with ⟨-, heq⟩ | ⟨hold, hfail⟩
      · cases heq
      · refine ⟨hold, fun hij => ?_⟩
        obtain ⟨tx, err, heq⟩ := hfail hij
        cases heq
    obtain ⟨hpend, hij⟩ := hold hf
    obtain ⟨hfile, hstart, hland, hown⟩ := honce.pending i f m hpend
    -- The deleted file is another one: this one's owner is `i`.
    have hne : f ≠ file := fun heq => hij (howner i m (heq ▸ hpend))
    exact ⟨hkept hne hfile, hstart, hland, fun k m hk => hown k m (hold hk).1⟩
  · rintro ⟨tx, htx⟩
    rcases mem_actsOf_snoc htx with hold | ⟨-, heq⟩
    · exact honce.lander i ⟨tx, hold⟩
    · cases heq

/-- The first swap to land. -/
theorem Once.land (honce : Once c change start tr s none)
    (hfiled : ∀ record, start.registry.tables[tableKey change.ident]? = some record ∨
      start.registry.staged[tableKey change.ident]? = some record →
        record.metadataLocation ∈ start.files) {p : Redb.Prepared ib}
    (hmade : Made c change (actsOf j tr) p)
    (hlast : (actsOf j tr).getLast? = some ⟨.writeMetadata p.metadata p.newLocation, .ok ()⟩)
    (happly : swapOne s.registry p.swap = .ok s'.registry) (hfiles : s'.files = s.files) :
    Once c change start (tr ++ [⟨s, .act j (.write (.swap [p.swap])) (.ok ()), s'⟩]) s'
      (some ⟨j, p.swap.next, p.metadata⟩) := by
  have hpend : Pending (actsOf j tr) p.newLocation p.metadata := Or.inl hlast
  obtain ⟨hfile, hnew, -, howner⟩ := honce.pending j _ _ hpend
  obtain ⟨expected, base, metadata, file, uuid, newFile, hbased, hcompute, huuid, hname, rfl⟩ :
      ∃ expected base metadata file uuid newFile, Based change (actsOf j tr) expected base file ∧
        Redb.compute c change expected base file = .ok metadata ∧
          (⟨.newUuid, .ok uuid⟩ : Σ e : Effect ib, e.Answer) ∈ actsOf j tr ∧
            MetadataFile.nextTable ib uuid file metadata = .ok newFile ∧
              p = ⟨change.ident, expected, metadata, newFile⟩ := by
    cases hmade with
    | of hbased hcompute huuid hname =>
        exact ⟨_, _, _, _, _, _, hbased, hcompute, huuid, hname, rfl⟩
  have hbase : start.base change = some (expected, base, file) :=
    (honce.base hfiled hbased).resolve_right fun ⟨_, hl, _⟩ => by cases hl
  have hsame : s'.registry.namespaces = s.registry.namespaces ∧
    s'.registry.views = s.registry.views ∧
      s'.registry.tables[tableKey change.ident]? =
        some (Redb.Prepared.swap ⟨change.ident, expected, metadata, newFile⟩).next ∧
        (expected = none → namespaceKey change.ident.namespc ∈ s.registry.namespaces ∧
          tableKey change.ident ∉ s.registry.views) := by
    rcases swapOne_eq_ok.mp happly with
      ⟨old, current, hexp, -, -, -, hreg⟩ | ⟨-, hns, hview, -, hreg⟩
    · rw [hreg]
      refine ⟨rfl, rfl, ?_, fun hnone => ?_⟩
      · exact (Relation.getElem?_insert ..).trans (if_pos rfl)
      · obtain rfl := hnone
        cases hexp
    · rw [hreg]
      exact ⟨rfl, rfl, (Relation.getElem?_insert ..).trans (if_pos rfl), fun _ => ⟨hns, hview⟩⟩
  obtain ⟨hns, hviews, htables, hcreate⟩ := hsame
  have huuid' : (⟨.newUuid, .ok uuid⟩ : Σ e : Effect ib, e.Answer) ∈ actsOf j (tr ++
      [⟨s, .act j (.write (.swap [Redb.Prepared.swap ⟨change.ident, expected, metadata, newFile⟩]))
        (.ok ()), s'⟩]) := by
    rw [actsOf_append]
    exact List.mem_append_left _ huuid
  rw [honce.namespaces, honce.views] at hcreate
  refine ⟨hns.trans honce.namespaces, hviews.trans honce.views, htables,
    fun h => by rw [hfiles]; exact honce.files h,
    fun l hl => ?_, fun i x hx => ?_, fun i f m hf => ?_, fun i => ?_⟩
  · obtain rfl := Option.some.inj hl
    refine ⟨by rw [hfiles]; exact hfile, hnew, ?_⟩
    exact ⟨expected, base, file, uuid, hbase, hcompute, huuid', hname, hcreate⟩
  · rcases mem_actsOf_snoc hx with hold | ⟨-, rfl⟩
    · exact shown_cons (honce.shown i x hold)
    · trivial
  · -- The call's own file is no longer on its way.
    have hold : ∀ {i : Nat} {f : Text} {m : ib.Metadata},
        Pending (actsOf i (tr ++ [⟨s, .act j (.write (.swap
          [Redb.Prepared.swap ⟨change.ident, expected, metadata, newFile⟩])) (.ok ()), s'⟩])) f m →
          Pending (actsOf i tr) f m ∧ i ≠ j := fun h => by
      rcases pending_actsOf_snoc h with ⟨-, heq⟩ | ⟨hold, hfail⟩
      · cases heq
      · refine ⟨hold, fun hij => ?_⟩
        obtain ⟨tx, err, heq⟩ := hfail hij
        cases heq
    obtain ⟨hpend', hij⟩ := hold hf
    obtain ⟨hfile', hstart, -, hown⟩ := honce.pending i f m hpend'
    refine ⟨by rw [hfiles]; exact hfile', hstart, fun l hl heq => ?_, fun k m' hk =>
      hown k m' (hold hk).1⟩
    obtain rfl := Option.some.inj hl
    obtain rfl : f = newFile := heq
    exact hij (howner i m hpend')
  · rintro ⟨tx, htx⟩
    rcases mem_actsOf_snoc htx with hold | ⟨rfl, -⟩
    · obtain ⟨l, hl, -⟩ := honce.lander i ⟨tx, hold⟩
      cases hl
    · exact ⟨_, rfl, rfl⟩

/-- No second swap lands: what it was computed from, the checks refuse. -/
theorem Once.not_land {l : Landing ib} (honce : Once c change start tr s (some l))
    (hfiled : ∀ record, start.registry.tables[tableKey change.ident]? = some record ∨
      start.registry.staged[tableKey change.ident]? = some record →
        record.metadataLocation ∈ start.files) (hspent : Spent c change start)
    {p : Redb.Prepared ib} (hmade : Made c change (actsOf j tr) p) {reg : Registry} :
    swapOne s.registry p.swap ≠ .ok reg := by
  intro happly
  obtain ⟨hlanded, hnew, expected₀, base₀, file₀, uuid₀, hbase₀, hcompute₀, -⟩ := honce.landed l rfl
  have htable : s.registry.tables[tableKey change.ident]? = some l.record := honce.tables
  cases hmade with
  | @of expected base metadata file uuid newFile hbased hcompute huuid hname =>
      rcases honce.base hfiled hbased with hbase | ⟨l', hl, rfl, rfl, rfl⟩
      · rcases swapOne_eq_ok.mp happly with
          ⟨old, current, hexp, hcurrent, -, hlocation, -⟩ | ⟨-, -, -, hnone, -⟩
        · -- It expects the start's record, whose file is not the one that landed.
          obtain rfl : expected = some old := hexp
          obtain rfl := Option.some.inj (htable.symm.trans hcurrent)
          cases hbased with
          | update hrecord hread =>
              obtain ⟨b, hb⟩ : ∃ b, start.files[old.metadataLocation]? = some b := by
                rw [Stored.base] at hbase
                split at hbase
                · next record hrecord' =>
                    obtain ⟨_, hb, heq⟩ := Option.map_eq_some_iff.mp hbase
                    cases heq
                    exact ⟨_, hb⟩
                · split at hbase
                  · obtain ⟨staged, -, hstaged⟩ := Option.bind_eq_some_iff.mp hbase
                    obtain ⟨b, -, heq⟩ := Option.map_eq_some_iff.mp hstaged
                    cases heq
                  · cases hbase
              exact hnew (hlocation ▸ Relation.mem_of_getElem? hb)
        · exact hnone (Relation.mem_of_getElem? htable)
      · obtain rfl := Option.some.inj hl
        obtain ⟨e, -, hrefused⟩ := (hspent _ _ _ _ hbase₀ hcompute₀).compute c l.record
          l.record.metadataLocation
        rw [hrefused] at hcompute
        cases hcompute

end

theorem FaultFree.of_append {tr' : List (CommitEvent ib)}
    (h : FaultFree change start (tr ++ tr')) : FaultFree change start tr where
  filed := h.filed
  answered ev hev := h.answered ev (List.mem_append_left _ hev)
  named i j uuid uuid' hi hj := by
    refine h.named i j uuid uuid' ?_ ?_ <;> rw [actsOf_append] <;>
      exact List.mem_append_left _ ‹_›
  staged ev hev := h.staged ev (List.mem_append_left _ hev)

/-- At most one commit has landed, and every call has seen the start or what it left. -/
theorem CommitRun.once (hrun : CommitRun c change start tr cfg) (hfault : FaultFree change start tr)
    (hspent : Spent c change start) : ∃ landing, Once c change start tr cfg.state landing := by
  induction hrun with
  | nil =>
      refine ⟨none, rfl, rfl, rfl, id, fun l hl => ?_, fun i x hx => ?_, fun i f m hf => ?_,
        fun i => ?_⟩
      · cases hl
      · cases hx
      · rcases hf with hlast | ⟨h', tx, err, heq⟩
        · cases hlast
        · have hlen := congrArg List.length heq
          simp [actsOf] at hlen
      · rintro ⟨tx, htx⟩
        cases htx
  | @snoc tr cfg cfg' lab hr hs ih =>
      obtain ⟨landing, honce⟩ := ih hfault.of_append
      have hanswered := hfault.answered _
        (List.mem_append_right _ (List.mem_singleton_self _))
      have hstaged := hfault.staged _ (List.mem_append_right _ (List.mem_singleton_self _))
      cases hs with
      | start q =>
          have hacts : ∀ i, actsOf i (tr ++ [⟨cfg.state, .start q, cfg.state⟩]) = actsOf i tr :=
            fun i => by simp [actsOf]
          refine ⟨landing, honce.namespaces, honce.views, honce.tables, honce.files,
            fun l hl => ⟨(honce.landed l hl).1, (honce.landed l hl).2.snoc _⟩, fun i => ?_,
              fun i => ?_,
            fun i => ?_⟩
          · rw [hacts]
            exact honce.shown i
          · simp only [hacts]
            exact honce.pending i
          · rw [hacts]
            exact honce.lander i
      | env s' hs => exact hs.elim
      | act j q e k r s' hj hs =>
          have hissues : CommitIssues c change (actsOf j tr) e :=
            (hr.traced hj commitTable_traced).1
          have hok : (∀ swaps, e ≠ .write (.swap swaps)) → ∃ v, r = .ok v := by
            intro hne
            cases r with
            | ok v => exact ⟨v, rfl⟩
            | error err =>
                obtain ⟨swaps, he, -⟩ := hanswered j e err rfl
                exact absurd he (hne swaps)
          cases hissues with
          | getTabular =>
              obtain ⟨record, rfl⟩ := hok fun _ h => by cases h
              obtain ⟨rfl, -, hsem⟩ := hs
              have hrecord : cfg.state.registry.tables[tableKey change.ident]? = record := by
                rcases hsem _ rfl with heq | ⟨err, -, heq⟩
                · exact (Except.ok.inj heq).symm
                · cases heq
              refine ⟨landing, honce.keep ?_ (fun _ _ h => by cases h) (fun _ h => by cases h)⟩
              rw [honce.tables] at hrecord
              cases landing with
              | none =>
                  rw [Option.map_none, Option.none_or] at hrecord
                  cases record with
                  | none => exact hrecord
                  | some record => exact Or.inl hrecord
              | some l =>
                  obtain rfl : some l.record = record := hrecord
                  exact Or.inr ⟨l, rfl, rfl⟩
          | getStaged =>
              obtain ⟨staged, rfl⟩ := hok fun _ h => by cases h
              have hsame := hstaged j _ _ rfl
              obtain ⟨rfl, -, hsem⟩ := hs
              have hrecord : cfg.state.registry.staged[tableKey change.ident]? = staged := by
                rcases hsem _ rfl with heq | ⟨err, -, heq⟩
                · exact (Except.ok.inj heq).symm
                · cases heq
              exact ⟨landing, honce.keep (hsame.symm.trans hrecord) (fun _ _ h => by cases h)
                (fun _ h => by cases h)⟩
          | @readMetadata record hrecord =>
              obtain ⟨metadata, rfl⟩ := hok fun _ h => by cases h
              obtain ⟨rfl, hread⟩ := hs
              have hread := hread metadata rfl
              refine ⟨landing, honce.keep ?_ (fun _ _ h => by cases h) (fun _ h => by cases h)⟩
              have hstart : ∀ {file : Text}, file ∈ start.files →
                cfg.state.files[file]? = some metadata →
                  start.files[file]? = some metadata := by
                intro file hfile hnow
                obtain ⟨m, hm⟩ := Option.ne_none_iff_exists'.mp
                  (mt Relation.getElem?_eq_none_iff.mp (not_not.mpr hfile))
                rw [hm, ← honce.files hm, hnow]
              rcases hrecord with hrecord | hrecord
              · rcases honce.shown j _ hrecord with hbase | ⟨l, hl, rfl⟩
                · exact Or.inl (hstart (hfault.filed _ (Or.inl hbase)) hread)
                · exact Or.inr
                    ⟨l, hl, rfl, Option.some.inj (hread.symm.trans (honce.landed l hl).1)⟩
              · have hbase : start.registry.staged[tableKey change.ident]? = some record :=
                  honce.shown j _ hrecord
                exact Or.inl (hstart (hfault.filed _ (Or.inr hbase)) hread)
          | newUuid =>
              obtain ⟨uuid, rfl⟩ := hok fun _ h => by cases h
              obtain ⟨rfl, -⟩ := hs
              exact ⟨landing, honce.keep trivial (fun _ _ h => by cases h) (fun _ h => by cases h)⟩
          | writeMetadata hmade =>
              obtain ⟨v, rfl⟩ := hok fun _ h => by cases h
              rcases hs with ⟨-, hnew, rfl⟩ | ⟨⟨err, heq⟩, -⟩
              · exact ⟨landing, honce.write hnew⟩
              · cases heq
          | @swap p hmade hlast =>
              obtain ⟨hcommits, hfiles⟩ := hs
              cases r with
              | ok v =>
                  have happly : swapOne cfg.state.registry p.swap = .ok s'.registry := by
                    rw [← swapTx_singleton]
                    generalize s'.registry = reg at hcommits
                    cases hcommits with
                    | committed happly => exact happly
                  cases landing with
                  | none => exact ⟨_, honce.land hfault.filed hmade hlast happly hfiles⟩
                  | some l =>
                      exact absurd happly (honce.not_land hfault.filed hspent hmade)
              | error err =>
                  obtain ⟨swaps, he, habort⟩ := hanswered j _ err rfl
                  cases he
                  obtain rfl : s' = cfg.state := by
                    obtain ⟨reg, files⟩ := s'
                    obtain rfl : files = cfg.state.files := hfiles
                    have hreg : reg = cfg.state.registry := by
                      cases hcommits <;> rfl
                    rw [hreg]
                  exact ⟨landing, honce.keep ⟨cfg.state.registry, honce.namespaces,
                    honce.views, habort⟩
                    (fun _ _ h => by cases h) (fun _ h => by cases h)⟩
          | delete hpending => exact ⟨landing, honce.delete hpending hs.1 hs.2⟩

/-- Where the updates use up the requirements: of any requests for one commit, once one
has been applied, every other one that has ended has answered a conflict. -/
theorem same_commit_once (ib : Iceberg) (c : Catalog) (change : ib.TableChange) (start : Stored ib)
    (tr : List (CommitEvent ib)) (cfg : CommitConfig ib) (hrun : CommitRun c change start tr cfg)
    (hfault : FaultFree change start tr) (hspent : Spent c change start) (i j : Nat)
    (hij : i ≠ j) (reply : Reply ib) (hi : cfg.calls[i]? = some ⟨(), .done (.ok reply)⟩)
    (r : Except Error (Reply ib)) (hj : cfg.calls[j]? = some ⟨(), .done r⟩) :
    ∃ e, r = .error e ∧ e.kind = .catalogCommitConflicts := by
  obtain ⟨landing, honce⟩ := CommitRun.once hrun hfault hspent
  have hlands : Lands (actsOf i tr) := Run.traced hrun hi commitTable_traced
  obtain ⟨l, rfl, hcall⟩ := honce.lander i hlands
  obtain ⟨-, hnew, expected₀, base₀, file₀, uuid₀, hbase₀, hcompute₀, huuid₀, hname₀, hcreate₀⟩ :=
    honce.landed l rfl
  -- What the other call has computed from is the same base, or is refused.
  have hbase : ∀ {expected base file}, Based change (actsOf j tr) expected base file →
      (expected = expected₀ ∧ base = base₀ ∧ file = file₀) ∨ (expected = some l.record ∧
        ∃ e : Error, e.kind = .catalogCommitConflicts ∧
          Redb.compute c change expected base file = .error e) := by
    intro expected base file hbased
    rcases honce.base hfault.filed hbased with hstart | ⟨l', hl, rfl, rfl, rfl⟩
    · cases hbase₀.symm.trans hstart
      exact Or.inl ⟨rfl, rfl, rfl⟩
    · obtain rfl := Option.some.inj hl
      exact Or.inr ⟨rfl, (hspent _ _ _ _ hbase₀ hcompute₀).compute c _ _⟩
  have hnotable : (⟨.getTabular .table (tableKey change.ident), .ok none⟩ :
      Σ e : Effect ib, e.Answer) ∈ actsOf j tr →
        start.registry.tables[tableKey change.ident]? = none := fun h => honce.shown j _ h
  cases r with
  | ok reply' =>
      have hlands' : Lands (actsOf j tr) := Run.traced hrun hj commitTable_traced
      obtain ⟨l', hl, hcall'⟩ := honce.lander j hlands'
      obtain rfl := Option.some.inj hl
      exact absurd (hcall.symm.trans hcall') hij
  | error e =>
      refine ⟨e, rfl, ?_⟩
      have hfails : Fails c change (actsOf j tr) e := Run.traced hrun hj commitTable_traced
      cases hfails with
      | conflict hkind => exact hkind
      | @effect x err hx hread =>
          obtain ⟨ev, hev, hlabel⟩ := exists_of_mem_actsOf hx
          obtain ⟨swaps, heq, -⟩ := hfault.answered ev hev j x err hlabel
          exact absurd heq (hread _)
      | unknown hrecord hcreating =>
          rw [Stored.base, hnotable hrecord, hcreating] at hbase₀
          cases hbase₀
      | unstaged hrecord hstaged =>
          have hstaged : start.registry.staged[tableKey change.ident]? = none :=
            honce.shown j _ hstaged
          rw [Stored.base, hnotable hrecord, hstaged] at hbase₀
          simp at hbase₀
      | compute hbased hcompute =>
          rcases hbase hbased with ⟨rfl, rfl, rfl⟩ | ⟨-, e', hkind, hrefused⟩
          · cases hcompute₀.symm.trans hcompute
          · cases hrefused.symm.trans hcompute
            exact hkind
      | name hbased hcompute huuid hname =>
          rcases hbase hbased with ⟨rfl, rfl, rfl⟩ | ⟨-, e', -, hrefused⟩
          · cases hcompute₀.symm.trans hcompute
            obtain ⟨newFile, hok⟩ := hfault.named _ _ _ _ huuid₀ huuid _ _ _ hname₀
            cases hok.symm.trans hname
          · cases hrefused.symm.trans hcompute
      | @swap p hmade hswap =>
          obtain ⟨reg, hns, hviews, happly⟩ := honce.shown j _ hswap
          have happly : swapOne reg p.swap = .error e := swapTx_singleton.symm.trans happly
          rcases swapOne_eq_error happly with hkind | ⟨hnone, hrefused⟩
          · exact hkind
          · cases hmade with
            | of hbased hcompute huuid hname =>
                rcases hbase hbased with ⟨rfl, rfl, rfl⟩ | ⟨rfl, -⟩
                · obtain ⟨hns₀, hview₀⟩ := hcreate₀ hnone
                  rw [hns, hviews] at hrefused
                  exact hrefused.elim (absurd hns₀) fun hview => absurd hview hview₀
                · cases hnone

/-! ### A creation sent twice, and an update -/

def sentIdent : TableIdent := ⟨["db".toList], "t".toList⟩

def sentFile : Text := "s3://bucket/wh/db/t/metadata/00000-0.metadata.json".toList

def sentRecord : TabularRecord := ⟨["db".toList], "t".toList, sentFile, 0⟩

/-- The table's first metadata file, and what the registry holds of it. -/
def sentStart (registry : Registry) : Stored Iceberg.plain where
  registry := registry
  files := (∅ : Relation Text).insert sentFile "s3://bucket/wh/db/t".toList

def sentMoves (change : Iceberg.plain.TableChange) (start : Stored Iceberg.plain)
    (ms : List (Move Unit)) : List (CommitEvent Iceberg.plain) × CommitConfig Iceberg.plain :=
  Config.moves (fun _ => (Redb.serve bucket (.commitTable change)).run)
    (fun e s => Stored.handle e s) ⟨start, []⟩ ms

theorem sentMoves_run (change : Iceberg.plain.TableChange) (start : Stored Iceberg.plain)
    (ms : List (Move Unit)) : CommitRun bucket change start (sentMoves change start ms).1
      (sentMoves change start ms).2 := Run.moves Stored.handle_does .nil ms

/-- Only a swap may fail, and a staging is looked up while it is there. -/
def goesWell (start : Stored Iceberg.plain) (ev : CommitEvent Iceberg.plain) : Bool :=
  match ev.label with
  | .act _ (.write (.swap swaps)) (.error err) =>
      match swapTx swaps ev.pre.registry with
      | .ok _ => false
      | .error err' => err' = err
  | .act _ (.getStaged key) (.ok _) =>
      ev.pre.registry.staged[key]? = start.registry.staged[key]?
  | .act _ _ (.error _) => false
  | _ => true

theorem faultFree_of_all {change : Iceberg.plain.TableChange} {start : Stored Iceberg.plain}
    {tr : List (CommitEvent Iceberg.plain)}
    (hfiled : ∀ record, start.registry.tables[tableKey change.ident]? = some record ∨
      start.registry.staged[tableKey change.ident]? = some record →
        record.metadataLocation ∈ start.files)
    (hwell : tr.all (goesWell start) = true) : FaultFree change start tr where
  filed := hfiled
  answered ev hev i e err hlabel := by
    have hgoes := List.all_eq_true.mp hwell ev hev
    rw [goesWell, hlabel] at hgoes
    cases e with
    | write tx =>
        cases tx with
        | swap swaps =>
            refine ⟨swaps, rfl, ?_⟩
            cases hswap : swapTx swaps ev.pre.registry with
            | ok reg => simp [hswap] at hgoes
            | error err' =>
                simp only [hswap, decide_eq_true_eq] at hgoes
                rw [hgoes]
        | _ => cases hgoes
    | _ => cases hgoes
  named _ _ uuid uuid' _ _ file metadata newFile _ := ⟨_, rfl⟩
  staged ev hev i key r hlabel := by
    have hgoes := List.all_eq_true.mp hwell ev hev
    rw [goesWell, hlabel] at hgoes
    cases r with
    | ok staged => exact of_decide_eq_true hgoes
    | error err => cases hgoes

/-- A table staged in `db`. -/
def stagedStart : Stored Iceberg.plain :=
  sentStart { dbRegistry with
    staged := (∅ : Relation TabularRecord).insert (tableKey sentIdent) sentRecord }

def creation : Iceberg.plain.TableChange :=
  ⟨sentIdent, [.notExist], [.setLocation "s3://bucket/wh/db/t".toList]⟩

/-- One request creates the table, the other finds it. -/
def sentTwice : List (CommitEvent Iceberg.plain) × CommitConfig Iceberg.plain :=
  sentMoves creation stagedStart
    ([.start (), .start ()] ++ List.replicate 6 (.step 0) ++ List.replicate 20 (.step 1))

theorem sentFiled {registry : Registry} {change : Iceberg.plain.TableChange}
    (htables : ∀ record, registry.tables[tableKey change.ident]? = some record →
      record = sentRecord)
    (hstaged : ∀ record, registry.staged[tableKey change.ident]? = some record →
      record = sentRecord) :
    ∀ record, (sentStart registry).registry.tables[tableKey change.ident]? = some record ∨
      (sentStart registry).registry.staged[tableKey change.ident]? = some record →
        record.metadataLocation ∈ (sentStart registry).files := by
  intro record hrecord
  obtain rfl : record = sentRecord := hrecord.elim (htables record) (hstaged record)
  exact Relation.mem_of_getElem? ((Relation.getElem?_insert ..).trans (if_pos rfl))

/-- The call has ended with success, or at all. -/
def applied (cfg : CommitConfig Iceberg.plain) (i : Nat) : Bool :=
  match cfg.calls[i]? with
  | some ⟨_, .done (.ok _)⟩ => true
  | _ => false

def ended (cfg : CommitConfig Iceberg.plain) (i : Nat) : Bool :=
  match cfg.calls[i]? with
  | some ⟨_, .done _⟩ => true
  | _ => false

theorem exists_of_applied {cfg : CommitConfig Iceberg.plain} {i : Nat} (h : applied cfg i = true) :
    ∃ reply, cfg.calls[i]? = some ⟨(), .done (.ok reply)⟩ := by
  unfold applied at h
  split at h
  · next q reply hi => exact ⟨reply, hi⟩
  · cases h

theorem exists_of_ended {cfg : CommitConfig Iceberg.plain} {i : Nat} (h : ended cfg i = true) :
    ∃ r, cfg.calls[i]? = some ⟨(), .done r⟩ := by
  unfold ended at h
  split at h
  · next q r hi => exact ⟨r, hi⟩
  · cases h

theorem sentTwice_faultFree : FaultFree creation stagedStart sentTwice.1 := by
  refine faultFree_of_all (sentFiled (fun record h => ?_) fun record h => ?_) ?_
  · have hnone : (dbRegistry.tables[tableKey sentIdent]? : Option TabularRecord) = none := by decide
    cases hnone.symm.trans h
  · exact (Option.some.inj (((Relation.getElem?_insert ..).trans (if_pos rfl)).symm.trans h)).symm
  · have hfile : sentFile = _ := String.toList_ofList
    unfold sentTwice stagedStart sentStart sentRecord
    rw [hfile]
    decide

theorem sentTwice_ends : applied sentTwice.2 0 = true ∧ ended sentTwice.2 1 = true := by
  have hfile : sentFile = _ := String.toList_ofList
  unfold sentTwice stagedStart sentStart sentRecord
  rw [hfile]
  decide

theorem same_commit_once_created : ∃ r, sentTwice.2.calls[1]? = some ⟨(), .done r⟩ ∧
    ∃ e, r = .error e ∧ e.kind = .catalogCommitConflicts := by
  obtain ⟨happlied, hended⟩ := sentTwice_ends
  obtain ⟨reply, hi⟩ := exists_of_applied happlied
  obtain ⟨r, hj⟩ := exists_of_ended hended
  exact ⟨r, hj, same_commit_once Iceberg.plain bucket creation stagedStart sentTwice.1
    sentTwice.2 (sentMoves_run ..) sentTwice_faultFree (fun _ _ _ _ _ _ => ⟨_, rfl, rfl⟩) 0 1
    (by decide) reply hi r hj⟩

/-- A table registered in `db`. -/
def tabledStart : Stored Iceberg.plain :=
  sentStart { dbRegistry with
    tables := (∅ : Relation TabularRecord).insert (tableKey sentIdent) sentRecord }

/-- An update that requires nothing. -/
def updating : Iceberg.plain.TableChange :=
  ⟨sentIdent, [], [.setLocation "s3://bucket/wh/db/t".toList]⟩

/-- Both have computed from one version when the first swap lands; the second loses its
swap, deletes its file and tries again. -/
def appliedTwice : List (CommitEvent Iceberg.plain) × CommitConfig Iceberg.plain :=
  sentMoves updating tabledStart
    ([.start (), .start (), .step 0, .step 0, .step 1, .step 1, .step 0, .step 0, .step 0] ++
      List.replicate 9 (.step 1))

theorem appliedTwice_faultFree : FaultFree updating tabledStart appliedTwice.1 := by
  refine faultFree_of_all (sentFiled (fun record h => ?_) fun record h => ?_) ?_
  · exact (Option.some.inj (((Relation.getElem?_insert ..).trans (if_pos rfl)).symm.trans h)).symm
  · have hnone : (dbRegistry.staged[tableKey sentIdent]? : Option TabularRecord) = none := by decide
    cases hnone.symm.trans h
  · have hfile : sentFile = _ := String.toList_ofList
    unfold appliedTwice tabledStart sentStart sentRecord
    rw [hfile]
    decide

theorem appliedTwice_ends : applied appliedTwice.2 0 = true ∧ applied appliedTwice.2 1 = true := by
  have hfile : sentFile = _ := String.toList_ofList
  unfold appliedTwice tabledStart sentStart sentRecord
  rw [hfile]
  decide

/-- The retry applies the commit a second time. -/
theorem same_commit_twice :
    ¬ ∀ (ib : Iceberg) (c : Catalog) (change : ib.TableChange) (start : Stored ib)
      (tr : List (CommitEvent ib)) (cfg : CommitConfig ib), CommitRun c change start tr cfg →
        FaultFree change start tr → ∀ i j : Nat, i ≠ j →
          ∀ reply : Reply ib, cfg.calls[i]? = some ⟨(), .done (.ok reply)⟩ →
            ∀ r : Except Error (Reply ib), cfg.calls[j]? = some ⟨(), .done r⟩ →
              ∃ e, r = .error e ∧ e.kind = .catalogCommitConflicts := by
  intro hall
  obtain ⟨hfirst, hsecond⟩ := appliedTwice_ends
  obtain ⟨reply, hi⟩ := exists_of_applied hfirst
  obtain ⟨reply', hj⟩ := exists_of_applied hsecond
  obtain ⟨e, he, -⟩ := hall Iceberg.plain bucket updating tabledStart appliedTwice.1 appliedTwice.2
    (sentMoves_run ..) appliedTwice_faultFree 0 1 (by decide) reply hi _ hj
  cases he

end Rustberg
