import Rustberg.Catalog.Semantics
import Rustberg.Catalog.Keys

/-!
# Concurrent calls on one registry

`RedbRun` is every interleaving of the effects of any number of calls
on one registry. `Request.Issues` says which write transactions a call may
issue, and `serve_writes` that it issues no others, whatever it reads. A
caller validates the names it hands to a catalog (`Request.Valid`), and so
the transactions it issues are on validated names.
-/

namespace Rustberg

open Process

variable {ib : Iceberg} {u : UnicodeData}

abbrev RedbConfig (ib : Iceberg) :=
  Config (Effect ib) Effect.Answer (Except Error (Reply ib)) Registry (Request ib)

abbrev RedbEvent (ib : Iceberg) := Event (Effect ib) Effect.Answer Registry (Request ib)

/-- A run of any calls, from a registry that only they change. -/
abbrev RedbRun (c : Catalog) (start : Registry) (tr : List (RedbEvent ib)) (cfg : RedbConfig ib) :
    Prop :=
  Run (fun q => (Redb.serve c q).run) Sem (fun _ _ => False) ⟨start, []⟩ tr cfg

/-! ## Validated requests -/

/-- The names a call may create something under are validated. The source
name of a rename is not: nothing is created there. -/
def Request.Valid (u : UnicodeData) : Request ib → Prop
  | .createNamespace ns _ | .dropNamespace ns => ValidNamespace u ns
  | .createTable ns creation | .stageCreateTable ns creation => ValidIdent u ⟨ns, creation.name⟩
  | .renameTable _ dest | .renameView _ dest => ValidIdent u dest
  | .registerTable ident _ | .registerView ident _ | .createView ident _ => ValidIdent u ident
  | .commitTable change => ValidIdent u change.ident
  | .commitTablesAtomic changes => ∀ change ∈ changes, ValidIdent u change.ident
  | _ => True

/-- The keys a transaction can add are those of validated names. -/
def Transaction.Valid (u : UnicodeData) : Transaction → Prop
  | .createNamespace ns _ | .dropNamespace ns => ValidNamespace u ns
  | .create _ ident _ _ | .stage ident _ => ValidIdent u ident
  | .rename _ _ dest => ValidIdent u dest
  | .swap swaps => ∀ swap ∈ swaps, ValidIdent u swap.ident
  | _ => True

/-- The write transactions a call may issue. -/
def Request.Issues : Request ib → Transaction → Prop
  | .createNamespace ns properties, tx => tx = .createNamespace ns properties
  | .updateNamespace ns properties, tx => tx = .updateNamespace ns properties
  | .dropNamespace ns, tx => tx = .dropNamespace ns
  | .createTable ns creation, tx =>
      ∃ location display, tx = .create .table ⟨ns, creation.name⟩ location display
  | .stageCreateTable ns creation, tx => ∃ location, tx = .stage ⟨ns, creation.name⟩ location
  | .dropTable table, tx => tx = .drop .table table
  | .renameTable src dest, tx => tx = .rename .table src dest
  | .registerTable table _, tx => ∃ location display, tx = .create .table table location display
  | .commitTable change, tx => ∃ swaps, tx = .swap swaps ∧ swaps.map Swap.ident = [change.ident]
  | .commitTablesAtomic changes, tx => ∃ swaps, tx = .swap swaps ∧
      swaps.map Swap.ident = changes.map Iceberg.TableChange.ident
  | .registerView view _, tx | .createView view _, tx =>
      ∃ location display, tx = .create .view view location display
  | .updateView view _ _, tx => ∃ expected location newLocation,
      tx = .updateView view expected location newLocation
  | .dropView view, tx => tx = .drop .view view
  | .renameView src dest, tx => tx = .rename .view src dest
  | _, _ => False

/-! ## The transactions an operation can issue -/

def Effect.Within (P : Transaction → Prop) : Effect ib → Prop
  | .write tx => P tx
  | _ => True

/-- The effects of an operation that issues no transaction and deletes nothing. -/
def Effect.ReadsOrAdds : Effect ib → Prop
  | .write _ | .delete _ => False
  | _ => True

theorem Effect.ReadsOrAdds.within {P : Transaction → Prop} {e : Effect ib}
    (h : e.ReadsOrAdds) : e.Within P := by
  cases e <;> first | exact h.elim | trivial

/-- Every effect `op` can perform satisfies `P`, every result it can succeed
with `Q`. -/
def Op.Performs {α : Type} (P : Effect ib → Prop) (Q : α → Prop) (op : Op ib α) : Prop :=
  Prog.Meets P (Prog.OrError Q) op.run

/-- Every transaction `op` can issue satisfies `P`. -/
abbrev Op.Writes {α : Type} (P : Transaction → Prop) (Q : α → Prop) (op : Op ib α) : Prop :=
  op.Performs (Effect.Within P) Q

namespace Op.Performs

variable {α β : Type} {P : Effect ib → Prop} {Q : α → Prop} {Q' : β → Prop}

theorem bind {op : Op ib α} {f : α → Op ib β} (h : op.Performs P Q)
    (hf : ∀ a, Q a → (f a).Performs P Q') : (op >>= f).Performs P Q' :=
  Prog.Meets.bind_except h hf

/-- The rule for a step whose result does not matter. -/
theorem seq {op : Op ib α} {f : α → Op ib β} (h : op.Performs P fun _ => True)
    (hf : ∀ a, (f a).Performs P Q') : (op >>= f).Performs P Q' :=
  h.bind fun a _ => hf a

theorem ret {a : α} (h : Q a) : (pure a : Op ib α).Performs P Q := h

theorem fail (e : Error) : (throw e : Op ib α).Performs P Q := trivial

theorem lift (r : Except Error α) (h : ∀ a, r = .ok a → Q a) :
    (ofExcept r : Op ib α).Performs P Q := by
  cases r with
  | ok a => exact h a rfl
  | error e => trivial

theorem mapped {f : α → β} {op : Op ib α} (h : op.Performs P fun _ => True) :
    (f <$> op).Performs P fun _ => True := by
  rw [map_eq_pure_bind]
  exact h.seq fun _ => trivial

theorem one {e : Effect ib} (h : P e) : (act e).Performs P fun _ => True :=
  ⟨h, fun r => by cases r <;> trivial⟩

theorem caught {op : Op ib α} (h : op.Performs P fun _ => True) :
    (capture op).Performs P fun _ => True :=
  Prog.Meets.bind h fun _ _ => trivial

/-- An operation that only reads and adds issues no transaction. -/
theorem writes {op : Op ib α} (h : op.Performs Effect.ReadsOrAdds Q) {P : Transaction → Prop} :
    op.Writes P Q := Prog.Meets.weaken h fun _ he => he.within

end Op.Performs

open Op.Performs

/-! ## What only reads and adds -/

theorem requireNamespace_reads (ns : NamespaceIdent) (message : Text) :
    (Redb.requireNamespace ns message : Op ib Unit).Performs Effect.ReadsOrAdds fun _ => True :=
  seq (one trivial) fun record => by
    cases record with
    | none => exact fail _
    | some record => exact ret trivial

theorem refuseTable_reads (ident : TableIdent) (message : Text) :
    (Redb.refuseTable ident message : Op ib Unit).Performs Effect.ReadsOrAdds fun _ => True :=
  seq (one trivial) fun record => by
    cases record with
    | none => exact ret trivial
    | some record => exact fail _

theorem writeFirst_reads (c : Catalog) (ident : TableIdent) (creation : ib.Creation) :
    (Redb.writeFirst c ident creation).Performs Effect.ReadsOrAdds fun _ => True :=
  seq (lift _ fun _ _ => trivial) fun _ => seq (one trivial) fun _ =>
    seq (lift _ fun _ _ => trivial) fun _ => seq (one trivial) fun _ => ret trivial

theorem readBase_reads (change : ib.TableChange) :
    (Redb.readBase change).Performs Effect.ReadsOrAdds fun _ => True :=
  seq (one trivial) fun record => by
    cases record with
    | some record => exact seq (one trivial) fun _ => ret trivial
    | none =>
        simp only
        split
        · refine seq (one trivial) fun staged => ?_
          cases staged with
          | none => exact fail _
          | some staged => exact seq (one trivial) fun _ => ret trivial
        · exact fail _

theorem prepare_reads (c : Catalog) (change : ib.TableChange) :
    (Redb.prepare c change).Performs Effect.ReadsOrAdds fun p => p.ident = change.ident :=
  seq (readBase_reads change) fun _ => seq (lift _ fun _ _ => trivial) fun _ =>
    seq (one trivial) fun _ => seq (lift _ fun _ _ => trivial) fun _ =>
      seq (one trivial) fun _ => ret rfl

theorem prepareAll_reads (c : Catalog) (changes : List ib.TableChange) :
    (Redb.prepareAll c changes).Performs Effect.ReadsOrAdds fun ps =>
      ps.map Redb.Prepared.ident = changes.map Iceberg.TableChange.ident := by
  induction changes with
  | nil => exact ret rfl
  | cons change changes ih =>
      refine (prepare_reads c change).bind fun p hp => ih.bind fun ps hps => ret ?_
      rw [List.map_cons, List.map_cons, hp, hps]

/-! ## The transactions of each operation -/

section

variable {P : Transaction → Prop}

theorem deleteAll_performs {P : Effect ib → Prop} {prepared : List (Redb.Prepared ib)}
    (hP : ∀ p ∈ prepared, P (.delete p.newLocation)) :
    (Redb.deleteAll prepared).Performs P fun _ => True := by
  induction prepared with
  | nil => exact ret trivial
  | cons p prepared ih =>
      exact seq (caught (one (hP p (List.mem_cons_self ..)))) fun _ =>
        ih fun q hq => hP q (List.mem_cons_of_mem _ hq)

theorem deleteAll_writes (prepared : List (Redb.Prepared ib)) :
    (Redb.deleteAll prepared).Writes P fun _ => True := deleteAll_performs fun _ _ => trivial

theorem tryCommit_writes (c : Catalog) (changes : List ib.TableChange)
    (hP : ∀ swaps : List Swap,
      swaps.map Swap.ident = changes.map Iceberg.TableChange.ident → P (.swap swaps)) :
    (Redb.tryCommitTablesAtomic c changes).Writes P fun _ => True := by
  refine (prepareAll_reads c changes).writes.bind fun prepared hprepared => ?_
  have hswaps : (prepared.map Redb.Prepared.swap).map Swap.ident =
      changes.map Iceberg.TableChange.ident := by
    rw [List.map_map, ← hprepared]
    rfl
  refine seq (caught (one (hP _ hswaps))) fun r => ?_
  cases r with
  | ok v => exact ret trivial
  | error e => exact seq (deleteAll_writes prepared) fun _ => fail _

theorem retryCommit_writes (c : Catalog) (changes : List ib.TableChange)
    (hP : ∀ swaps : List Swap,
      swaps.map Swap.ident = changes.map Iceberg.TableChange.ident → P (.swap swaps))
    (attempts : Nat) (lastConflict : Option Error) :
    (Redb.retryCommit c changes attempts lastConflict).Writes P fun _ => True := by
  induction attempts generalizing lastConflict with
  | zero => exact fail _
  | succ attempts ih =>
      refine seq (caught (tryCommit_writes c changes hP)) fun r => ?_
      cases r with
      | ok tables => exact ret trivial
      | error e =>
          simp only
          split
          · exact ih _
          · exact fail _

theorem commitTablesAtomic_writes (c : Catalog) (changes : List ib.TableChange)
    (hP : ∀ swaps : List Swap,
      swaps.map Swap.ident = changes.map Iceberg.TableChange.ident → P (.swap swaps)) :
    (Redb.commitTablesAtomic c changes).Writes P fun _ => True := by
  unfold Redb.commitTablesAtomic
  split
  · exact ret trivial
  · exact retryCommit_writes c changes hP _ _

theorem rename_writes (kind : Tabular) (src dest : TableIdent) (hP : P (.rename kind src dest)) :
    (Redb.rename kind src dest : Op ib Unit).Writes P fun _ => True := by
  unfold Redb.rename
  split
  · exact ret trivial
  · exact seq (requireNamespace_reads _ _).writes fun _ => one hP

end

/-- A call issues no other transactions than its own. -/
theorem serve_writes (c : Catalog) (q : Request ib) :
    (Redb.serve c q).Writes q.Issues fun _ => True := by
  cases q with
  | createNamespace ns properties => exact mapped (one rfl)
  | dropNamespace ns => exact mapped (one rfl)
  | updateNamespace ns properties => exact mapped (one rfl)
  | dropTable table => exact mapped (one rfl)
  | dropView view => exact mapped (one rfl)
  | renameTable src dest => exact mapped (rename_writes .table src dest rfl)
  | renameView src dest => exact mapped (rename_writes .view src dest rfl)
  | createTable ns creation =>
      exact mapped (seq (requireNamespace_reads _ _).writes fun _ =>
        seq (refuseTable_reads _ _).writes fun _ =>
        seq (writeFirst_reads c _ creation).writes fun _ => seq (one ⟨_, _, rfl⟩) fun _ =>
        ret trivial)
  | stageCreateTable ns creation =>
      exact mapped (seq (requireNamespace_reads _ _).writes fun _ =>
        seq (refuseTable_reads _ _).writes fun _ =>
        seq (writeFirst_reads c _ creation).writes fun _ => seq (one ⟨_, rfl⟩) fun _ => ret trivial)
  | registerTable table metadataLocation =>
      exact mapped (seq (requireNamespace_reads _ _).writes fun _ =>
        seq (refuseTable_reads _ _).writes fun _ =>
        seq (one trivial) fun _ => seq (lift _ fun _ _ => trivial) fun _ =>
          seq (one ⟨_, _, rfl⟩) fun _ => ret trivial)
  | registerView view metadataLocation =>
      exact mapped (seq (requireNamespace_reads _ _).writes fun _ => seq (one trivial) fun _ =>
        seq (lift _ fun _ _ => trivial) fun _ => seq (one ⟨_, _, rfl⟩) fun _ => ret trivial)
  | createView view metadata =>
      exact mapped (seq (requireNamespace_reads _ _).writes fun _ => seq (one trivial) fun _ =>
        seq (one trivial) fun _ => seq (one ⟨_, _, rfl⟩) fun _ => ret trivial)
  | commitTablesAtomic changes =>
      exact mapped (commitTablesAtomic_writes c changes fun swaps hswaps => ⟨swaps, rfl, hswaps⟩)
  | commitTable change =>
      refine mapped (seq (commitTablesAtomic_writes c [change] fun swaps hswaps =>
        ⟨swaps, rfl, hswaps⟩) fun tables => ?_)
      cases tables.getLast? with
      | some table => exact ret trivial
      | none => exact fail _
  | updateView view expected metadata =>
      refine mapped (seq (one trivial) fun record => ?_)
      cases record with
      | none => exact fail _
      | some current =>
          simp only
          split
          · exact fail _
          · exact seq (one trivial) fun _ => seq (one trivial) fun _ =>
              seq (one ⟨_, _, _, rfl⟩) fun _ => ret trivial
  | listNamespaces parent page =>
      refine mapped ?_
      cases parent with
      | none => exact seq (ret trivial) fun _ => seq (one trivial) fun _ => ret trivial
      | some p =>
          exact seq (requireNamespace_reads _ _).writes fun _ => seq (ret trivial) fun _ =>
            seq (one trivial) fun _ => ret trivial
  | listTabulars kind ns page =>
      exact mapped (seq (requireNamespace_reads _ _).writes fun _ => seq (one trivial) fun _ =>
        ret trivial)
  | getNamespace ns =>
      refine mapped (seq (one trivial) fun record => ?_)
      cases record with
      | none => exact fail _
      | some record => exact ret trivial
  | namespaceExists ns => exact mapped (seq (one trivial) fun _ => ret trivial)
  | metadataPointer table => exact mapped (seq (one trivial) fun _ => ret trivial)
  | tableExists table => exact mapped (seq (one trivial) fun _ => ret trivial)
  | viewExists view => exact mapped (seq (one trivial) fun _ => ret trivial)
  | loadTable table =>
      refine mapped (seq (one trivial) fun record => ?_)
      cases record with
      | none => exact fail _
      | some record => exact seq (one trivial) fun _ => ret trivial
  | loadView view =>
      refine mapped (seq (one trivial) fun record => ?_)
      cases record with
      | none => exact fail _
      | some record => exact seq (one trivial) fun _ => ret trivial

/-- A call on validated names issues transactions on validated names. -/
theorem Request.Issues.valid {q : Request ib} {tx : Transaction} (h : q.Issues tx)
    (hq : q.Valid u) : tx.Valid u := by
  have hswaps : ∀ {changes : List ib.TableChange} {swaps : List Swap},
      (∀ change ∈ changes, ValidIdent u change.ident) →
      swaps.map Swap.ident = changes.map Iceberg.TableChange.ident →
      (Transaction.swap swaps).Valid u := fun hvalid heq swap hswap => by
    have hmem := List.mem_map_of_mem (f := Swap.ident) hswap
    rw [heq] at hmem
    obtain ⟨change, hchange, hident⟩ := List.mem_map.mp hmem
    rw [← hident]
    exact hvalid change hchange
  cases q with
  | createNamespace ns properties => obtain rfl := h; exact hq
  | updateNamespace ns properties => obtain rfl := h; trivial
  | dropNamespace ns => obtain rfl := h; exact hq
  | createTable ns creation => obtain ⟨_, _, rfl⟩ := h; exact hq
  | stageCreateTable ns creation => obtain ⟨_, rfl⟩ := h; exact hq
  | dropTable table => obtain rfl := h; trivial
  | renameTable src dest => obtain rfl := h; exact hq
  | registerTable table _ => obtain ⟨_, _, rfl⟩ := h; exact hq
  | commitTable change =>
      obtain ⟨swaps, rfl, heq⟩ := h
      have hident : ValidIdent u change.ident := hq
      have hone : ∀ ch ∈ [change], ValidIdent u ch.ident := by simpa using hident
      exact hswaps hone heq
  | commitTablesAtomic changes => obtain ⟨swaps, rfl, heq⟩ := h; exact hswaps hq heq
  | registerView view _ => obtain ⟨_, _, rfl⟩ := h; exact hq
  | createView view _ => obtain ⟨_, _, rfl⟩ := h; exact hq
  | updateView view _ _ => obtain ⟨_, _, _, rfl⟩ := h; trivial
  | dropView view => obtain rfl := h; trivial
  | renameView src dest => obtain rfl := h; exact hq
  | _ => exact h.elim

/-- The transaction of an event is one its call issues. -/
theorem RedbRun.issues {c : Catalog} {start : Registry} {tr : List (RedbEvent ib)}
    {cfg : RedbConfig ib} (hrun : RedbRun c start tr cfg) {ev : RedbEvent ib} (hev : ev ∈ tr)
    {i : Nat} {tx : Transaction} {r : Except Error Unit}
    (hlabel : ev.label = .act i (.write tx) r) :
    ∃ call, cfg.calls[i]? = some call ∧ call.request.Issues tx :=
  hrun.meets (P := fun q => Effect.Within q.Issues)
    (fun call _ => (serve_writes c call.request).mono fun _ _ => trivial) hev hlabel

/-- What every committed transaction of a run keeps holds in every state reached. -/
theorem RedbRun.keeps {c : Catalog} {start : Registry} {tr : List (RedbEvent ib)}
    {cfg : RedbConfig ib} (hrun : RedbRun c start tr cfg) {I : Registry → Prop} (h0 : I start)
    (hstep : ∀ ev ∈ tr, ∀ i tx, ev.label = .act i (.write tx) (.ok ()) → I ev.pre →
      tx.apply ev.pre = .ok ev.post → I ev.post) : I cfg.state := by
  refine hrun.invariant h0 fun ev hev hpre => ?_
  rcases hrun.event_cases hev with ⟨q, -, hpost⟩ | ⟨i, e, r, hlabel, hsem⟩ | ⟨-, hfalse⟩
  · rwa [hpost]
  · cases e with
    | write tx =>
        have hcommits : Commits tx ev.pre r ev.post := hsem
        generalize hpost : ev.post = post at hcommits
        cases hcommits with
        | committed happly => exact hpost ▸ hstep ev hev i tx hlabel hpre (hpost ▸ happly)
        | aborted happly => exact hpre
        | failed hengine => exact hpre
    | _ => rwa [hsem.1]
  · exact hfalse.elim

/-- The run a schedule determines, from an empty registry. -/
def runOf (c : Catalog) (env : Env ib) (ms : List (Move (Request ib))) :
    List (RedbEvent ib) × RedbConfig ib :=
  Config.moves (fun q => (Redb.serve c q).run) env.onRegistry ⟨Registry.empty, []⟩ ms

theorem runOf_run (c : Catalog) (env : Env ib) (ms : List (Move (Request ib))) :
    RedbRun c Registry.empty (runOf c env ms).1 (runOf c env ms).2 :=
  Run.nil.moves env.onRegistry_sem ms

end Rustberg
