import Rustberg.Catalog.Integrity

/-!
# One name, one thing

A name in a namespace is a table, a view or nothing, and a table is either
staged or real. The first holds in every run, because each transaction
that puts a key into one relation looks for it in the other
(`tables_views_disjoint`). The second is kept by the commit of a staged
table alone: a create, a register and a rename put a table under a key
without looking at its staging, and a stage puts its note without looking
again for the table (`staged_tables_disjoint` is what holds when they meet
none, `staged_and_real` a sequence of calls in which they do).
-/

namespace Rustberg

open Process

variable {ib : Iceberg} {reg reg' : Registry}

/-! ## Tables and views -/

def ApartKinds (reg : Registry) : Prop := ∀ key, key ∈ reg.tables → key ∉ reg.views

theorem ApartKinds.setTabulars (h : ApartKinds reg) {kind : Tabular} {m : Relation TabularRecord}
    (hm : ∀ key ∈ m, key ∈ reg.tabulars kind ∨ key ∉ reg.tables ∧ key ∉ reg.views) :
    ApartKinds (reg.setTabulars kind m) := by
  intro key htable hview
  cases kind with
  | table =>
      rcases hm key htable with hold | ⟨-, hnew⟩
      · exact h key hold hview
      · exact hnew hview
  | view =>
      rcases hm key hview with hold | ⟨hnew, -⟩
      · exact h key htable hold
      · exact hnew htable

theorem ApartKinds.swapOne (h : ApartKinds reg) {swap : Swap}
    (happly : swapOne reg swap = .ok reg') : ApartKinds reg' := by
  rcases swapOne_eq_ok.mp happly with
    ⟨expected, current, -, hcurrent, -, -, rfl⟩ | ⟨-, -, hview, -, rfl⟩
  · intro key hkey
    rcases (Relation.mem_insert _).mp hkey with rfl | hkey
    · exact h _ (Relation.mem_of_getElem? hcurrent)
    · exact h key hkey
  · intro key hkey
    rcases (Relation.mem_insert _).mp hkey with rfl | hkey
    · exact hview
    · exact h key hkey

/-- Every transaction keeps tables and views apart. -/
theorem ApartKinds.apply (h : ApartKinds reg) {tx : Transaction}
    (happly : tx.apply reg = .ok reg') : ApartKinds reg' := by
  cases tx with
  | createNamespace ns properties =>
      obtain ⟨-, -, rfl⟩ := createNamespaceTx_eq_ok.mp happly
      exact h
  | updateNamespace ns properties =>
      obtain ⟨-, rfl⟩ := updateNamespaceTx_eq_ok.mp happly
      exact h
  | dropNamespace ns =>
      obtain ⟨-, -, rfl⟩ := dropNamespaceTx_eq_ok.mp happly
      exact h
  | stage ident location =>
      obtain rfl := Except.ok.inj happly
      exact h
  | create kind ident location display =>
      obtain ⟨htable, hview, rfl⟩ := createTx_eq_ok.mp happly
      refine h.setTabulars fun key hkey => ?_
      rcases (Relation.mem_insert _).mp hkey with rfl | hkey
      · exact Or.inr ⟨htable, hview⟩
      · exact Or.inl hkey
  | drop kind ident =>
      obtain ⟨-, rfl⟩ := dropTx_eq_ok.mp happly
      exact h.setTabulars fun key hkey => Or.inl ((Relation.mem_erase _).mp hkey).2
  | rename kind src dest =>
      obtain ⟨record, -, htable, hview, rfl⟩ := renameTx_eq_ok.mp happly
      refine h.setTabulars fun key hkey => ?_
      rcases (Relation.mem_insert _).mp ((Relation.mem_erase _).mp hkey).2 with rfl | hkey
      · exact Or.inr ⟨htable, hview⟩
      · exact Or.inl hkey
  | updateView view expected expectedLocation newLocation =>
      obtain ⟨live, hlive, -, -, rfl⟩ := updateViewTx_eq_ok.mp happly
      intro key htable hview
      rcases (Relation.mem_insert _).mp hview with rfl | hview
      · exact h _ htable (Relation.mem_of_getElem? hlive)
      · exact h key htable hview
  | swap swaps => exact swapTx_keeps (fun _ _ _ _ hreg hone => hreg.swapOne hone) h happly

/-- No state reached holds a table and a view of one name. -/
theorem tables_views_disjoint (c : Catalog) (tr : List (RedbEvent ib)) (cfg : RedbConfig ib)
    (hrun : RedbRun c Registry.empty tr cfg) :
    ∀ key, key ∈ cfg.state.tables → key ∉ cfg.state.views :=
  hrun.keeps (I := ApartKinds) (fun _ hkey => absurd hkey Std.ExtTreeMap.not_mem_empty)
    fun _ _ _ _ _ hpre happly => hpre.apply happly

/-- A create reads that there is no such table, a view of its name is
created, and the create finds the name taken. -/
def tableViewSchedule : List (Move (Request Iceberg.plain)) :=
  [.start (.createNamespace ["db".toList] ∅), .step 0,
    .start (.createTable ["db".toList] ⟨"t".toList, none, ()⟩), .step 1, .step 1, .step 1, .step 1,
    .start (.createView ⟨["db".toList], "t".toList⟩ "s3://bucket/wh/db/t".toList), .step 2, .step 2,
    .step 2, .step 2, .step 1]

def tableViewRun : List (RedbEvent Iceberg.plain) × RedbConfig Iceberg.plain :=
  runOf bucket (Env.empty Iceberg.plain) tableViewSchedule

theorem tables_views_disjoint_race : tableKey ⟨["db".toList], "t".toList⟩ ∈
      tableViewRun.2.state.views ∧
    ∀ key, key ∈ tableViewRun.2.state.tables → key ∉ tableViewRun.2.state.views :=
  ⟨by decide, tables_views_disjoint bucket _ _ (runOf_run ..)⟩

/-! ## Tables and stagings -/

/-- A transaction that puts a table under a key meets no staging of it, and
one that stages it no table. -/
def MeetsNoOther (reg : Registry) : Transaction → Prop
  | .create .table ident _ _ => tableKey ident ∉ reg.staged
  | .rename .table _ dest => tableKey dest ∉ reg.staged
  | .stage ident _ => tableKey ident ∉ reg.tables
  | _ => True

instance (reg : Registry) : DecidablePred (MeetsNoOther reg)
  | .create .table ident _ _ => inferInstanceAs (Decidable (tableKey ident ∉ reg.staged))
  | .rename .table _ dest => inferInstanceAs (Decidable (tableKey dest ∉ reg.staged))
  | .stage ident _ => inferInstanceAs (Decidable (tableKey ident ∉ reg.tables))
  | .create .view .. | .rename .view .. | .createNamespace .. | .updateNamespace ..
  | .dropNamespace .. | .drop .. | .updateView .. | .swap .. => inferInstanceAs (Decidable True)

def StagedApart (reg : Registry) : Prop := ∀ key, key ∈ reg.staged → key ∉ reg.tables

theorem StagedApart.mono (h : StagedApart reg)
    (hstaged : ∀ key, key ∈ reg'.staged → key ∈ reg.staged)
    (htables : ∀ key, key ∈ reg'.tables → key ∈ reg.tables ∨ key ∉ reg.staged) :
    StagedApart reg' := by
  intro key hkey htable
  rcases htables key htable with hold | hnew
  · exact h key (hstaged key hkey) hold
  · exact hnew (hstaged key hkey)

theorem StagedApart.swapOne (h : StagedApart reg) {swap : Swap}
    (happly : swapOne reg swap = .ok reg') : StagedApart reg' := by
  rcases swapOne_eq_ok.mp happly with
    ⟨expected, current, -, hcurrent, -, -, rfl⟩ | ⟨-, -, -, -, rfl⟩
  · refine h.mono (fun _ hkey => hkey) fun key hkey => Or.inl ?_
    rcases (Relation.mem_insert _).mp hkey with rfl | hkey
    · exact Relation.mem_of_getElem? hcurrent
    · exact hkey
  · intro key hkey htable
    obtain ⟨hne, hkey⟩ := (Relation.mem_erase _).mp hkey
    rcases (Relation.mem_insert _).mp htable with heq | htable
    · exact hne heq
    · exact h key hkey htable

theorem StagedApart.apply (h : StagedApart reg) {tx : Transaction} (hmeets : MeetsNoOther reg tx)
    (happly : tx.apply reg = .ok reg') : StagedApart reg' := by
  cases tx with
  | createNamespace ns properties =>
      obtain ⟨-, -, rfl⟩ := createNamespaceTx_eq_ok.mp happly
      exact h
  | updateNamespace ns properties =>
      obtain ⟨-, rfl⟩ := updateNamespaceTx_eq_ok.mp happly
      exact h
  | dropNamespace ns =>
      obtain ⟨-, -, rfl⟩ := dropNamespaceTx_eq_ok.mp happly
      exact h.mono (fun key hkey => Relation.mem_of_mem_foldl_erase hkey) fun _ => Or.inl
  | stage ident location =>
      obtain rfl := Except.ok.inj happly
      intro key hkey
      rcases (Relation.mem_insert _).mp hkey with rfl | hkey
      · exact hmeets
      · exact h key hkey
  | create kind ident location display =>
      obtain ⟨-, -, rfl⟩ := createTx_eq_ok.mp happly
      cases kind with
      | view => exact h
      | table =>
          refine h.mono (fun _ hkey => hkey) fun key hkey => ?_
          rcases (Relation.mem_insert _).mp hkey with rfl | hkey
          · exact Or.inr hmeets
          · exact Or.inl hkey
  | drop kind ident =>
      obtain ⟨-, rfl⟩ := dropTx_eq_ok.mp happly
      cases kind with
      | view => exact h
      | table =>
          exact h.mono (fun _ hkey => hkey) fun key hkey =>
            Or.inl ((Relation.mem_erase _).mp hkey).2
  | rename kind src dest =>
      obtain ⟨record, -, -, -, rfl⟩ := renameTx_eq_ok.mp happly
      cases kind with
      | view => exact h
      | table =>
          refine h.mono (fun _ hkey => hkey) fun key hkey => ?_
          rcases (Relation.mem_insert _).mp ((Relation.mem_erase _).mp hkey).2 with rfl | hkey
          · exact Or.inr hmeets
          · exact Or.inl hkey
  | updateView view expected expectedLocation newLocation =>
      obtain ⟨live, -, -, -, rfl⟩ := updateViewTx_eq_ok.mp happly
      exact h
  | swap swaps => exact swapTx_keeps (fun _ _ _ _ hreg hone => hreg.swapOne hone) h happly

/-- No state reached holds a key both staged and real, where every
transaction meets no other. -/
theorem staged_tables_disjoint (c : Catalog) (tr : List (RedbEvent ib)) (cfg : RedbConfig ib)
    (hrun : RedbRun c Registry.empty tr cfg)
    (hmeets : ∀ ev ∈ tr, ∀ i tx r, ev.label = .act i (.write tx) r → MeetsNoOther ev.pre tx) :
    ∀ key, key ∈ cfg.state.staged → key ∉ cfg.state.tables :=
  hrun.keeps (I := StagedApart) (fun _ hkey => absurd hkey Std.ExtTreeMap.not_mem_empty)
    fun ev hev i tx hlabel hpre happly => hpre.apply (hmeets ev hev i tx _ hlabel) happly

/-! ## A table created over its staging -/

/-- Which call each effect of a run belongs to. -/
def callOrder (tr : List (RedbEvent ib)) : List Nat :=
  tr.filterMap fun ev =>
    match ev.label with
    | .act i _ _ => some i
    | _ => none

def stageT : List (Move (Request Iceberg.plain)) :=
  [.start (.createNamespace ["db".toList] ∅), .step 0,
    .start (.stageCreateTable ["db".toList] ⟨"t".toList, none, ()⟩), .step 1, .step 1, .step 1,
    .step 1, .step 1]

/-- One call after the other: the namespace, the staging, the table. -/
def stagedCreatedRun : List (RedbEvent Iceberg.plain) × RedbConfig Iceberg.plain :=
  runOf bucket (Env.empty Iceberg.plain) (stageT ++
    [.start (.createTable ["db".toList] ⟨"t".toList, none, ()⟩), .step 2, .step 2, .step 2,
      .step 2, .step 2])

/-- Every file read holds the metadata of a table located at `t`. -/
def filedAtT : Env Iceberg.plain :=
  { Env.empty Iceberg.plain with readMetadata := fun _ => .ok "s3://bucket/wh/db/t".toList }

/-- The staging is committed, and while one client renames the table to `u`
another stages the name it leaves. -/
def movedAwayRun : List (RedbEvent Iceberg.plain) × RedbConfig Iceberg.plain :=
  runOf bucket filedAtT (stageT ++
    [.start (.commitTable ⟨⟨["db".toList], "t".toList⟩, [.notExist], []⟩), .step 2, .step 2,
      .step 2, .step 2, .step 2, .step 2,
      .start (.renameTable ⟨["db".toList], "t".toList⟩ ⟨["db".toList], "u".toList⟩),
      .start (.stageCreateTable ["db".toList] ⟨"t".toList, none, ()⟩), .step 3, .step 4, .step 3,
      .step 4, .step 4, .step 4, .step 4])

/-- The transaction of an event meets no other. -/
def meetsNoOther (ev : RedbEvent ib) : Bool :=
  match ev.label with
  | .act _ (.write tx) _ => decide (MeetsNoOther ev.pre tx)
  | _ => true

theorem staged_tables_disjoint_movedAway :
    (tableKey ⟨["db".toList], "t".toList⟩ ∈ movedAwayRun.2.state.staged ∧
        tableKey ⟨["db".toList], "t".toList⟩ ∉ movedAwayRun.2.state.tables) ∧
      tableKey ⟨["db".toList], "u".toList⟩ ∈ movedAwayRun.2.state.tables ∧
        tableKey ⟨["db".toList], "u".toList⟩ ∉ movedAwayRun.2.state.staged := by
  have hmeets : movedAwayRun.1.all meetsNoOther = true := by decide +kernel
  have hstaged : tableKey ⟨["db".toList], "t".toList⟩ ∈ movedAwayRun.2.state.staged := by
    decide +kernel
  have hreal : tableKey ⟨["db".toList], "u".toList⟩ ∈ movedAwayRun.2.state.tables := by
    decide +kernel
  have hapart := staged_tables_disjoint bucket movedAwayRun.1 _ (runOf_run ..)
    fun ev hev i tx r hlabel => by
      have hev' := List.all_eq_true.mp hmeets ev hev
      rw [meetsNoOther, hlabel] at hev'
      exact of_decide_eq_true hev'
  exact ⟨⟨hstaged, hapart _ hstaged⟩, hreal, fun hboth => hapart _ hboth hreal⟩

theorem staged_and_real :
    ¬ ∀ (ib : Iceberg) (c : Catalog) (tr : List (RedbEvent ib)) (cfg : RedbConfig ib),
      RedbRun c Registry.empty tr cfg → (callOrder tr).Pairwise (· ≤ ·) →
        ∀ key, key ∈ cfg.state.staged → key ∉ cfg.state.tables := by
  intro hall
  have hrun : RedbRun bucket Registry.empty stagedCreatedRun.1 stagedCreatedRun.2 := runOf_run ..
  exact hall _ bucket _ _ hrun (by decide) (tableKey ⟨["db".toList], "t".toList⟩) (by decide)
    (by decide)

end Rustberg
