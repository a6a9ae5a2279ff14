import Rustberg.Catalog.Concurrent
import Rustberg.Catalog.Transactions

/-!
# The paths of a commit

What a call of `commit_tables_atomic` can have done so far, whatever its
effects were answered. One attempt computes every table from what it
reads (`ComputedAll`) and then issues one swap transaction; a swap that
does not land ends the attempt with an error, one that lands ends the
call. So the effects of a commit either hold no committed write at all
(`Quiet`), or are a quiet part followed by one computation of all its
tables and the swap that publishes it (`Commit.Path`).
-/

namespace Rustberg

open Process

variable {ib : Iceberg}

/-- The effects a call has performed, with their answers. -/
abbrev Path (ib : Iceberg) := Prog.History (Effect ib) Effect.Answer

/-- What is left of a call. -/
abbrev Rest (ib : Iceberg) (α : Type) := Prog (Effect ib) Effect.Answer (Except Error α)

/-- The step of a write transaction that commits. -/
def committed (tx : Transaction) : Σ e : Effect ib, e.Answer := ⟨.write tx, Except.ok ()⟩

/-- No write transaction of `h` committed. -/
def Quiet (h : Path ib) : Prop := ∀ tx, committed tx ∉ h

theorem Quiet.nil : Quiet ([] : Path ib) := fun _ h => by cases h

theorem Quiet.append {h₁ h₂ : Path ib} (hq₁ : Quiet h₁) (hq₂ : Quiet h₂) : Quiet (h₁ ++ h₂) :=
  fun tx hmem => (List.mem_append.mp hmem).elim (hq₁ tx) (hq₂ tx)

/-! ## Following an operation -/

section

variable {α β : Type}

/-- Sequencing after a captured operation looks at its error. -/
theorem run_capture_bind (op : Op ib α) (f : Except Error α → Op ib β) :
    (capture op >>= f).run = op.run >>= fun r => (f r).run := by
  rw [ExceptT.run_bind, capture, ExceptT.run_mk, LawfulMonad.bind_assoc]
  rfl

theorem run_map (f : α → β) (op : Op ib α) :
    (f <$> op).run = op.run >>= fun r => Prog.done (r.map f) := by
  rw [map_eq_pure_bind, ExceptT.run_bind]
  congr 1
  funext r
  cases r <;> rfl

theorem Follows.bind_ok {op : Op ib α} {f : α → Op ib β} {h : Path ib} {b : β}
    (hf : Prog.Follows (op >>= f).run h (.done (.ok b))) :
    ∃ h₁ h₂ a, h = h₁ ++ h₂ ∧ Prog.Follows op.run h₁ (.done (.ok a)) ∧
      Prog.Follows (f a).run h₂ (.done (.ok b)) := by
  rcases Prog.Follows.bind_except_cases hf with ⟨e, k, -, hne⟩ | ⟨err, -, herr⟩ | hfound
  · exact absurd rfl (hne _)
  · cases herr
  · exact hfound

theorem Follows.act_ok {e : Effect ib} {f : e.Payload → Op ib β} {h : Path ib} {b : β}
    (hf : Prog.Follows (act e >>= f).run h (.done (.ok b))) :
    ∃ v h', h = ⟨e, .ok v⟩ :: h' ∧ Prog.Follows (f v).run h' (.done (.ok b)) := by
  cases h with
  | nil => cases (show _ = _ from hf)
  | cons x h =>
      obtain ⟨r, rfl, hrest⟩ := hf
      cases r with
      | ok v => exact ⟨v, h, rfl, hrest⟩
      | error err => cases (Prog.follows_done.mp hrest).2

theorem Follows.lift_ok {r : Except Error α} {f : α → Op ib β} {h : Path ib} {b : β}
    (hf : Prog.Follows (ofExcept r >>= f).run h (.done (.ok b))) :
    ∃ a, r = .ok a ∧ Prog.Follows (f a).run h (.done (.ok b)) := by
  cases r with
  | ok a => exact ⟨a, rfl, hf⟩
  | error err => cases (Prog.follows_done.mp hf).2

theorem Follows.pure_ok {a b : α} {h : Path ib}
    (hf : Prog.Follows (pure a : Op ib α).run h (.done (.ok b))) : h = [] ∧ b = a := by
  obtain ⟨rfl, heq⟩ := Prog.follows_done.mp hf
  cases heq
  exact ⟨rfl, rfl⟩

theorem Follows.not_throw {e : Error} {h : Path ib} {b : α}
    (hf : Prog.Follows (throw e : Op ib α).run h (.done (.ok b))) : False := by
  cases (Prog.follows_done.mp hf).2

/-- An operation without write transactions is quiet on every path, and its
success is as promised. -/
theorem Op.Performs.quiet {op : Op ib α} {Q : α → Prop} (hw : op.Writes (fun _ => False) Q)
    {h : Path ib} {p : Rest ib α} (hf : Prog.Follows op.run h p) :
    Quiet h ∧ ∀ a, p = .done (.ok a) → Q a := by
  obtain ⟨hall, hend⟩ := Prog.Meets.of_follows hw hf
  refine ⟨fun tx hmem => hall _ hmem, fun a ha => ?_⟩
  subst ha
  exact hend

end

/-! ## Computing the tables -/

/-- The effects of phases 1 and 2 for one table, the record its new metadata
is computed from, and what it is. -/
inductive Computed (c : Catalog) (change : ib.TableChange) :
    Path ib → TabularRecord → Redb.Prepared ib → Prop
  | update {record : TabularRecord} {base metadata : ib.Metadata} {uuid newLocation : Text}
      (hcompute : Redb.compute c change (some record) base record.metadataLocation = .ok metadata)
      (hname : MetadataFile.nextTable ib uuid record.metadataLocation metadata =
        .ok newLocation) :
      Computed c change
        [⟨.getTabular .table (tableKey change.ident), .ok (some record)⟩,
          ⟨.readMetadata record.metadataLocation, .ok base⟩, ⟨.newUuid, .ok uuid⟩,
          ⟨.writeMetadata metadata newLocation, .ok ()⟩]
        record ⟨change.ident, some record, metadata, newLocation⟩
  | create {staged : TabularRecord} {base metadata : ib.Metadata} {uuid newLocation : Text}
      (hcreating : Redb.isCreating change.requirements = true)
      (hcompute : Redb.compute c change none base staged.metadataLocation = .ok metadata)
      (hname : MetadataFile.nextTable ib uuid staged.metadataLocation metadata =
        .ok newLocation) :
      Computed c change
        [⟨.getTabular .table (tableKey change.ident), .ok none⟩,
          ⟨.getStaged (tableKey change.ident), .ok (some staged)⟩,
          ⟨.readMetadata staged.metadataLocation, .ok base⟩, ⟨.newUuid, .ok uuid⟩,
          ⟨.writeMetadata metadata newLocation, .ok ()⟩]
        staged ⟨change.ident, none, metadata, newLocation⟩

/-- All tables of a commit, in order, each with the record it is computed from. -/
inductive ComputedAll (c : Catalog) :
    List ib.TableChange → Path ib → List (TabularRecord × Redb.Prepared ib) → Prop
  | nil : ComputedAll c [] [] []
  | cons {change : ib.TableChange} {changes : List ib.TableChange} {h hs : Path ib}
      {base : TabularRecord} {p : Redb.Prepared ib}
      {computed : List (TabularRecord × Redb.Prepared ib)} (hone : Computed c change h base p)
      (hrest : ComputedAll c changes hs computed) :
      ComputedAll c (change :: changes) (h ++ hs) ((base, p) :: computed)

theorem prepare_computed {c : Catalog} {change : ib.TableChange} {h : Path ib}
    {p : Redb.Prepared ib} (hf : Prog.Follows (Redb.prepare c change).run h (.done (.ok p))) :
    ∃ base, Computed c change h base p := by
  -- What follows the reads is the same for both shapes of commit.
  have hrest : ∀ {h : Path ib} {expected : Option TabularRecord} {base : ib.Metadata}
      {baseLocation : Text}, Prog.Follows (do
        let metadata ← ofExcept (Redb.compute c change expected base baseLocation)
        let uuid ← Op.newUuid
        let newLocation ← ofExcept (MetadataFile.nextTable ib uuid baseLocation metadata)
        Op.writeMetadata metadata newLocation
        return ⟨change.ident, expected, metadata, newLocation⟩ : Op ib (Redb.Prepared ib)).run h
          (.done (.ok p)) →
      ∃ metadata uuid newLocation,
        Redb.compute c change expected base baseLocation = .ok metadata ∧
        MetadataFile.nextTable ib uuid baseLocation metadata = .ok newLocation ∧
        h = [⟨.newUuid, .ok uuid⟩, ⟨.writeMetadata metadata newLocation, .ok ()⟩] ∧
        p = ⟨change.ident, expected, metadata, newLocation⟩ := by
    intro h expected base baseLocation hf
    obtain ⟨metadata, hcompute, hf₁⟩ := Follows.lift_ok hf
    obtain ⟨uuid, h₁, rfl, hf₂⟩ := Follows.act_ok (e := .newUuid) hf₁
    obtain ⟨newLocation, hname, hf₃⟩ := Follows.lift_ok hf₂
    obtain ⟨_, h₂, rfl, hf₄⟩ := Follows.act_ok (e := .writeMetadata metadata newLocation) hf₃
    obtain ⟨rfl, rfl⟩ := Follows.pure_ok hf₄
    exact ⟨metadata, uuid, newLocation, hcompute, hname, rfl, rfl⟩
  obtain ⟨h₁, h₂, ⟨expected, base, baseLocation⟩, rfl, hread, hmake⟩ := Follows.bind_ok hf
  obtain ⟨metadata, uuid, newLocation, hcompute, hname, rfl, rfl⟩ := hrest hmake
  obtain ⟨record, h₃, rfl, hfound⟩ :=
    Follows.act_ok (e := .getTabular .table (tableKey change.ident)) hread
  cases record with
  | some record =>
      obtain ⟨read, h₄, rfl, hend⟩ :=
        Follows.act_ok (e := .readMetadata record.metadataLocation) hfound
      obtain ⟨rfl, heq⟩ := Follows.pure_ok hend
      cases heq
      exact ⟨record, .update hcompute hname⟩
  | none =>
      simp only at hfound
      split at hfound
      · next hcreating =>
          obtain ⟨staged, h₄, rfl, hstaged⟩ :=
            Follows.act_ok (e := .getStaged (tableKey change.ident)) hfound
          cases staged with
          | none => exact (Follows.not_throw hstaged).elim
          | some staged =>
              obtain ⟨read, h₅, rfl, hend⟩ :=
                Follows.act_ok (e := .readMetadata staged.metadataLocation) hstaged
              obtain ⟨rfl, heq⟩ := Follows.pure_ok hend
              cases heq
              exact ⟨staged, .create hcreating hcompute hname⟩
      · exact (Follows.not_throw hfound).elim

theorem prepareAll_computed {c : Catalog} {changes : List ib.TableChange} {h : Path ib}
    {ps : List (Redb.Prepared ib)}
    (hf : Prog.Follows (Redb.prepareAll c changes).run h (.done (.ok ps))) :
    ∃ computed, ComputedAll c changes h computed ∧ computed.map Prod.snd = ps := by
  induction changes generalizing h ps with
  | nil =>
      obtain ⟨rfl, rfl⟩ := Follows.pure_ok hf
      exact ⟨[], .nil, rfl⟩
  | cons change changes ih =>
      obtain ⟨h₁, h₂, p, rfl, hone, hf₁⟩ := Follows.bind_ok hf
      obtain ⟨h₃, h₄, ps', rfl, hmore, hf₂⟩ := Follows.bind_ok hf₁
      obtain ⟨rfl, rfl⟩ := Follows.pure_ok hf₂
      obtain ⟨base, hcomputed⟩ := prepare_computed hone
      obtain ⟨computed, hall, rfl⟩ := ih hmore
      refine ⟨(base, p) :: computed, ?_, rfl⟩
      rw [List.append_nil]
      exact .cons hcomputed hall

theorem ComputedAll.idents {c : Catalog} {changes : List ib.TableChange} {h : Path ib}
    {computed : List (TabularRecord × Redb.Prepared ib)} (hall : ComputedAll c changes h computed) :
    computed.map (fun x => x.2.ident) = changes.map Iceberg.TableChange.ident := by
  induction hall with
  | nil => rfl
  | cons hone hrest ih =>
      rw [List.map_cons, List.map_cons, ih]
      cases hone <;> rfl

/-! ## One attempt, and all of them -/

def swapsOf (computed : List (TabularRecord × Redb.Prepared ib)) : List Swap :=
  computed.map fun x => x.2.swap

def tablesOf (computed : List (TabularRecord × Redb.Prepared ib)) : List (Table ib) :=
  computed.map fun x => x.2.table

/-- A commit's path and what is left after it: quiet and without success, or
quiet up to one computation of all its tables, the swap that publishes them,
and success. -/
inductive Commit.Path (c : Catalog) (changes : List ib.TableChange) {α : Type}
    (reply : List (Table ib) → Option α) : Rustberg.Path ib → Rest ib α → Prop
  | quiet {h : Rustberg.Path ib} {p : Rest ib α} (hquiet : Quiet h)
      (hend : ∀ a, p ≠ .done (.ok a)) : Commit.Path c changes reply h p
  | landed {h₁ h₂ : Rustberg.Path ib} {computed : List (TabularRecord × Redb.Prepared ib)} {a : α}
      (hquiet : Quiet (h₁ ++ h₂)) (hall : ComputedAll c changes h₂ computed)
      (hreply : reply (tablesOf computed) = some a) :
      Commit.Path c changes reply (h₁ ++ h₂ ++ [committed (.swap (swapsOf computed))])
        (.done (.ok a))

theorem tryCommit_path {c : Catalog} {changes : List ib.TableChange} {h : Path ib}
    {p : Rest ib (List (Table ib))}
    (hf : Prog.Follows (Redb.tryCommitTablesAtomic c changes).run h p) :
    Commit.Path c changes some h p := by
  have hprepare : (Redb.prepareAll c changes).Writes (fun _ => False) fun _ => True :=
    (prepareAll_reads c changes).writes.mono fun r _ => by cases r <;> trivial
  rcases Prog.Follows.bind_except_cases hf with
    ⟨e, k, hp', hne⟩ | ⟨err, hp', rfl⟩ | ⟨h₁, h₂, ps, rfl, hp', hswap⟩
  · exact .quiet (hprepare.quiet hp').1 fun a => hne _
  · exact .quiet (hprepare.quiet hp').1 fun a ha => by cases ha
  have hquiet := (hprepare.quiet hp').1
  obtain ⟨computed, hall, rfl⟩ := prepareAll_computed hp'
  cases h₂ with
  | nil =>
      -- The swap is still to come.
      obtain rfl := Prog.follows_nil.mp hswap
      rw [List.append_nil]
      exact .quiet hquiet fun a ha => by cases ha
  | cons x h₂ =>
      obtain ⟨r, rfl, hafter⟩ := hswap
      cases r with
      | ok v =>
          obtain ⟨rfl, rfl⟩ := Prog.follows_done.mp hafter
          have hswaps : (computed.map Prod.snd).map Redb.Prepared.swap = swapsOf computed :=
            List.map_map ..
          have htables : tablesOf computed = (computed.map Prod.snd).map Redb.Prepared.table := by
            rw [List.map_map]
            rfl
          have hnone : Quiet ([] ++ h₁) := hquiet
          have hpath : Commit.Path c changes some _ _ :=
            .landed hnone hall (congrArg some htables)
          rw [List.nil_append, ← hswaps] at hpath
          exact hpath
      | error e =>
          -- The swap did not land: what follows deletes files and fails.
          have hfail : (Redb.deleteAll (computed.map Prod.snd) >>= fun _ =>
              (throw e : Op ib (List (Table ib)))).Writes (fun _ => False) fun _ => False :=
            (deleteAll_writes _).seq fun _ => .fail e
          obtain ⟨hquiet', hend⟩ := hfail.quiet hafter
          refine .quiet (fun tx hmem => ?_) fun a ha => hend a ha
          rcases List.mem_append.mp hmem with hmem | hmem
          · exact hquiet tx hmem
          · rcases List.mem_cons.mp hmem with heq | hmem
            · cases heq
            · exact hquiet' tx hmem

/-- A quiet prefix before a commit changes nothing. -/
theorem Commit.Path.prepend {c : Catalog} {changes : List ib.TableChange} {α : Type}
    {reply : List (Table ib) → Option α} {h₀ h : Rustberg.Path ib} {p : Rest ib α}
    (hquiet₀ : Quiet h₀) (hpath : Commit.Path c changes reply h p) :
    Commit.Path c changes reply (h₀ ++ h) p := by
  cases hpath with
  | quiet hquiet hend => exact .quiet (hquiet₀.append hquiet) hend
  | @landed h₁ h₂ computed a hquiet hall hreply =>
      have hland : Commit.Path c changes reply ((h₀ ++ h₁) ++ h₂ ++ _) (.done (.ok a)) :=
        .landed (by rw [List.append_assoc]; exact hquiet₀.append hquiet) hall hreply
      simpa only [List.append_assoc] using hland

theorem retryCommit_path {c : Catalog} {changes : List ib.TableChange} {attempts : Nat}
    {lastConflict : Option Error} {h : Path ib} {p : Rest ib (List (Table ib))}
    (hf : Prog.Follows (Redb.retryCommit c changes attempts lastConflict).run h p) :
    Commit.Path c changes some h p := by
  induction attempts generalizing lastConflict h with
  | zero =>
      obtain ⟨rfl, rfl⟩ := Prog.follows_done.mp hf
      exact .quiet .nil fun a ha => by cases ha
  | succ attempts ih =>
      rw [Redb.retryCommit, run_capture_bind] at hf
      rcases Prog.Follows.bind_cases hf with ⟨e, k, hp', rfl⟩ | ⟨h₁, h₂, r, rfl, hp', hafter⟩
      · cases tryCommit_path hp' with
        | quiet hquiet hend => exact .quiet hquiet fun a ha => by cases ha
      · cases r with
        | ok tables =>
            obtain ⟨rfl, rfl⟩ := Prog.follows_done.mp hafter
            rw [List.append_nil]
            exact tryCommit_path hp'
        | error e =>
            cases tryCommit_path hp' with
            | quiet hquiet hend =>
                simp only at hafter
                split at hafter
                · exact (ih hafter).prepend hquiet
                · obtain ⟨rfl, rfl⟩ := Prog.follows_done.mp hafter
                  rw [List.append_nil]
                  exact .quiet hquiet fun a ha => by cases ha

theorem commitTablesAtomic_path {c : Catalog} {changes : List ib.TableChange}
    (hne : changes ≠ []) {h : Path ib} {p : Rest ib (List (Table ib))}
    (hf : Prog.Follows (Redb.commitTablesAtomic c changes).run h p) :
    Commit.Path c changes some h p := by
  rw [Redb.commitTablesAtomic, if_neg (by simpa using hne)] at hf
  exact retryCommit_path hf

/-! ## The two requests that commit -/

/-- The changes a request commits. -/
def Request.commits : Request ib → Option (List ib.TableChange)
  | .commitTable change => some [change]
  | .commitTablesAtomic changes => some changes
  | _ => none

/-- What is made of a commit's tables takes no effect. -/
theorem commitTablesAtomic_path_reply {c : Catalog} {changes : List ib.TableChange}
    (hne : changes ≠ []) {α : Type} {f : List (Table ib) → Except Error α}
    (hok : ∀ tables, tables.length = changes.length → ∃ a, f tables = .ok a) {h : Path ib}
    {p : Rest ib α}
    (hf : Prog.Follows (Redb.commitTablesAtomic c changes >>= fun tables =>
      ofExcept (f tables)).run h p) :
    Commit.Path c changes (fun tables => (f tables).toOption) h p := by
  rcases Prog.Follows.bind_except_cases hf with
    ⟨e, k, hp', hne'⟩ | ⟨err, hp', rfl⟩ | ⟨h₁, h₂, tables, rfl, hp', hafter⟩
  · cases commitTablesAtomic_path hne hp' with
    | quiet hquiet hend => exact .quiet hquiet fun a => hne' _
  · cases commitTablesAtomic_path hne hp' with
    | quiet hquiet hend => exact .quiet hquiet fun a ha => by cases ha
  · obtain ⟨rfl, rfl⟩ := Prog.follows_done.mp hafter
    rw [List.append_nil]
    cases commitTablesAtomic_path hne hp' with
    | quiet hquiet hend => exact absurd rfl (hend tables)
    | @landed _ _ computed _ hquiet hall hreply =>
        obtain rfl := Option.some.inj hreply
        have hlen : (tablesOf computed).length = changes.length := by
          have hidents := congrArg List.length hall.idents
          simpa only [tablesOf, List.length_map] using hidents
        obtain ⟨a, ha⟩ := hok _ hlen
        rw [ha]
        exact .landed hquiet hall (by rw [ha]; rfl)

/-- The reply to a commit request. -/
def Request.replyOf : Request ib → List (Table ib) → Option (Reply ib)
  | .commitTable _, tables => tables.getLast?.map .table
  | _, tables => some (.tables tables)

theorem serve_commit_path {c : Catalog} {q : Request ib} {changes : List ib.TableChange}
    (hq : q.commits = some changes) (hne : changes ≠ []) {h : Path ib} {p : Rest ib (Reply ib)}
    (hf : Prog.Follows (Redb.serve c q).run h p) : Commit.Path c changes q.replyOf h p := by
  cases q with
  | commitTablesAtomic changes' =>
      obtain rfl := Option.some.inj hq
      have hserve : Redb.serve c (.commitTablesAtomic changes') =
          Redb.commitTablesAtomic c changes' >>= fun tables =>
            ofExcept (.ok (Reply.tables tables)) := map_eq_pure_bind _ _
      rw [hserve] at hf
      exact commitTablesAtomic_path_reply hne (fun tables _ => ⟨_, rfl⟩) hf
  | commitTable change =>
      obtain rfl := Option.some.inj hq
      have hserve : Redb.serve c (.commitTable change) =
          Redb.commitTablesAtomic c [change] >>= fun tables =>
            ofExcept (tables.getLast?.elim
              (.error ⟨.unexpected, "Commit returned no table".toList⟩) fun table =>
                .ok (.table table)) := by
        rw [Redb.serve, Redb.commitTable, map_bind]
        congr 1
        funext tables
        cases tables.getLast? <;> rfl
      rw [hserve] at hf
      have hpath := commitTablesAtomic_path_reply hne (fun tables hlen => by
        obtain ⟨table, rfl⟩ := List.length_eq_one_iff.mp hlen
        exact ⟨_, rfl⟩) hf
      convert hpath using 1
      funext tables
      cases htables : tables.getLast? <;> simp [Request.replyOf, htables, Except.toOption]
  | _ => cases hq

end Rustberg
