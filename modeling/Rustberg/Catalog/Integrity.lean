import Rustberg.Catalog.Concurrent
import Rustberg.Catalog.Drop
import Rustberg.Catalog.Transactions

/-!
# Referential integrity under concurrency

Every table and view lies in a registered namespace, and every nested
namespace has its parent. `create_namespace` and a staged commit check
this in the transaction that inserts; the creates, registers and renames
check it in a read of their own, so a namespace can be dropped in
between; and a drop does not see what is `Blind`. `Guarded` is the
condition on a transaction under which neither happens:

- what one transaction preserves is `Integrity.apply`, from the inversion
  lemmas of `Transactions`;
- a run whose transactions are all guarded keeps integrity throughout
  (`integrity_of_guarded`);
- a create and a drop that interleave break it (`integrity_broken`).
-/

namespace Rustberg

open Process

variable {ib : Iceberg} {u : UnicodeData} {reg reg' : Registry}

structure Integrity (u : UnicodeData) (reg : Registry) : Prop extends reg.WellNamed u where
  /-- A table or view lies in a registered namespace. -/
  inNamespace : ∀ kind ident, reg.Has u kind ident → reg.HasNamespace u ident.namespc
  /-- A nested namespace has its parent. -/
  hasParent : ∀ ns, reg.HasNamespace u ns → 1 < ns.length → reg.HasNamespace u ns.dropLast

theorem Integrity.empty (u : UnicodeData) : Integrity u Registry.empty where
  namespaces key hkey := absurd hkey Std.ExtTreeMap.not_mem_empty
  tabulars kind key hkey := by cases kind <;> exact absurd hkey Std.ExtTreeMap.not_mem_empty
  inNamespace kind ident h := by cases kind <;> exact absurd h.2 Std.ExtTreeMap.not_mem_empty
  hasParent ns h := absurd h.2 Std.ExtTreeMap.not_mem_empty

/-! ## What one transaction preserves -/

/-- A transaction meets its guard: the namespace it creates or renames into
is still registered, and the namespace it drops is empty or seen not to be. -/
def Guarded (u : UnicodeData) (reg : Registry) : Transaction → Prop
  | .create _ ident _ _ => reg.HasNamespace u ident.namespc
  | .rename _ _ dest => reg.HasNamespace u dest.namespc
  | .dropNamespace ns => ¬ Beneath u ns reg ∨ Seen u ns reg
  | _ => True

/-- Integrity survives when the namespaces stay and every new table or view
is put into one of them. -/
theorem Integrity.of_tabulars (h : Integrity u reg)
    (hns : ∀ key, key ∈ reg'.namespaces ↔ key ∈ reg.namespaces)
    (htab : ∀ kind, ∀ key ∈ reg'.tabulars kind, key ∈ reg.tabulars kind ∨
      ∃ ident, ValidIdent u ident ∧ key = tableKey ident ∧ reg.HasNamespace u ident.namespc) :
    Integrity u reg' where
  namespaces key hkey := h.namespaces key ((hns key).mp hkey)
  tabulars kind key hkey := by
    rcases htab kind key hkey with hkey | ⟨ident, hident, rfl, -⟩
    · exact h.tabulars kind key hkey
    · exact ⟨ident, hident, rfl⟩
  inNamespace kind ident hhas := by
    refine ⟨hhas.1.namespc, (hns _).mpr ?_⟩
    rcases htab kind _ hhas.2 with hkey | ⟨ident', hident', heq, hhas'⟩
    · exact (h.inNamespace kind ident ⟨hhas.1, hkey⟩).2
    · rw [tableKey_inj hhas.1.namespc hident'.namespc heq]
      exact hhas'.2
  hasParent ns hhas hlen := by
    have hparent := h.hasParent ns ⟨hhas.1, (hns _).mp hhas.2⟩ hlen
    exact ⟨hparent.1, (hns _).mpr hparent.2⟩

theorem Integrity.createNamespace (h : Integrity u reg) {ns : NamespaceIdent}
    {properties : Properties} (hvalid : ValidNamespace u ns)
    (happly : createNamespaceTx ns properties reg = .ok reg') : Integrity u reg' := by
  obtain ⟨hparent, -, rfl⟩ := createNamespaceTx_eq_ok.mp happly
  have hnew : ∀ {key}, key ∈ reg.namespaces →
      key ∈ reg.namespaces.insert (namespaceKey ns) ⟨ns, properties⟩ := fun hkey =>
    (Relation.mem_insert _).mpr (Or.inr hkey)
  refine ⟨⟨fun key hkey => ?_, h.tabulars⟩, fun kind ident hhas => ?_, fun ns' hhas hlen => ?_⟩
  · rcases (Relation.mem_insert _).mp hkey with rfl | hkey
    · exact ⟨ns, hvalid, rfl⟩
    · exact h.namespaces key hkey
  · have hold := h.inNamespace kind ident ⟨hhas.1, by cases kind <;> exact hhas.2⟩
    exact ⟨hold.1, hnew hold.2⟩
  · rcases (Relation.mem_insert _).mp hhas.2 with heq | hkey
    · obtain rfl := namespaceKey_inj hvalid hhas.1 heq
      have hne : ns.dropLast ≠ [] := fun hnil => by
        have := congrArg List.length hnil
        rw [List.length_dropLast, List.length_nil] at this
        omega
      exact ⟨⟨hne, fun s hs => hvalid.2 s (List.mem_of_mem_dropLast hs)⟩, hnew (hparent hlen)⟩
    · have hold := h.hasParent ns' ⟨hhas.1, hkey⟩ hlen
      exact ⟨hold.1, hnew hold.2⟩

theorem Integrity.dropNamespace (h : Integrity u reg) {ns : NamespaceIdent}
    (hvalid : ValidNamespace u ns) (hguard : ¬ Beneath u ns reg ∨ Seen u ns reg)
    (happly : dropNamespaceTx ns reg = .ok reg') : Integrity u reg' := by
  obtain ⟨-, hscans, rfl⟩ := dropNamespaceTx_eq_ok.mp happly
  have hempty : ¬ Beneath u ns reg :=
    hguard.resolve_right ((dropScans_eq_nil h.toWellNamed hvalid).mp hscans)
  have hkeep : ∀ {ns'}, reg.HasNamespace u ns' → ns' ≠ ns →
      namespaceKey ns' ∈ reg.namespaces.erase (namespaceKey ns) := fun hhas hne =>
    (Relation.mem_erase _).mpr
      ⟨fun heq => hne (namespaceKey_inj hvalid hhas.1 heq).symm, hhas.2⟩
  refine ⟨⟨fun key hkey => ?_, h.tabulars⟩, fun kind ident hhas => ?_, fun ns' hhas hlen => ?_⟩
  · exact h.namespaces key ((Relation.mem_erase _).mp hkey).2
  · have hhas' : reg.Has u kind ident := ⟨hhas.1, by cases kind <;> exact hhas.2⟩
    have hold := h.inNamespace kind ident hhas'
    refine ⟨hold.1, hkeep hold fun heq => hempty (Or.inr ⟨kind, ident, hhas', ?_⟩)⟩
    rw [heq]
  · have hhas' : reg.HasNamespace u ns' := ⟨hhas.1, ((Relation.mem_erase _).mp hhas.2).2⟩
    have hold := h.hasParent ns' hhas' hlen
    refine ⟨hold.1, hkeep hold fun heq => hempty (Or.inl ⟨ns', hhas', ?_, ?_⟩)⟩
    · rw [← heq]
      exact List.dropLast_prefix ns'
    · intro hself
      have := congrArg List.length heq
      rw [List.length_dropLast, hself] at this
      rw [hself] at hlen
      omega

theorem Integrity.swapOne (h : Integrity u reg) {swap : Swap} (hvalid : ValidIdent u swap.ident)
    (happly : swapOne reg swap = .ok reg') : Integrity u reg' := by
  rcases swapOne_eq_ok.mp happly with
    ⟨expected, current, -, hcurrent, -, -, rfl⟩ | ⟨-, hns, -, -, rfl⟩
  · refine h.of_tabulars (fun _ => Iff.rfl) fun kind key hkey => Or.inl ?_
    cases kind with
    | table =>
        rcases (Relation.mem_insert _).mp hkey with rfl | hkey
        · exact Relation.mem_of_getElem? hcurrent
        · exact hkey
    | view => exact hkey
  · refine h.of_tabulars (fun _ => Iff.rfl) fun kind key hkey => ?_
    cases kind with
    | table =>
        rcases (Relation.mem_insert _).mp hkey with rfl | hkey
        · exact Or.inr ⟨swap.ident, hvalid, rfl, hvalid.namespc, hns⟩
        · exact Or.inl hkey
    | view => exact Or.inl hkey

theorem Integrity.swap (h : Integrity u reg) {swaps : List Swap}
    (hvalid : ∀ swap ∈ swaps, ValidIdent u swap.ident) (happly : swapTx swaps reg = .ok reg') :
    Integrity u reg' :=
  swapTx_keeps (fun swap hswap _ _ hreg hone => hreg.swapOne (hvalid swap hswap) hone) h happly

/-- A committed transaction that meets its guard keeps integrity. -/
theorem Integrity.apply (h : Integrity u reg) {tx : Transaction} (hvalid : tx.Valid u)
    (hguard : Guarded u reg tx) (happly : tx.apply reg = .ok reg') : Integrity u reg' := by
  cases tx with
  | createNamespace ns properties => exact h.createNamespace hvalid happly
  | dropNamespace ns => exact h.dropNamespace hvalid hguard happly
  | swap swaps => exact h.swap hvalid happly
  | updateNamespace ns properties =>
      obtain ⟨hkey, rfl⟩ := updateNamespaceTx_eq_ok.mp happly
      refine h.of_tabulars (fun key => ?_) fun kind key hkey' =>
        Or.inl (by cases kind <;> exact hkey')
      rw [Relation.mem_insert]
      exact ⟨fun hor => hor.elim (fun heq => heq ▸ hkey) id, Or.inr⟩
  | create kind ident metadataLocation display =>
      obtain ⟨-, -, rfl⟩ := createTx_eq_ok.mp happly
      refine h.of_tabulars (fun _ => by rw [Registry.setTabulars_namespaces])
        fun kind' key hkey => ?_
      rw [Registry.setTabulars_tabulars] at hkey
      split at hkey
      · next heq =>
          subst heq
          rcases (Relation.mem_insert _).mp hkey with rfl | hkey
          · exact Or.inr ⟨ident, hvalid, rfl, hguard⟩
          · exact Or.inl hkey
      · exact Or.inl hkey
  | stage ident metadataLocation =>
      obtain rfl := Except.ok.inj happly
      exact h.of_tabulars (fun _ => Iff.rfl) fun kind key hkey =>
        Or.inl (by cases kind <;> exact hkey)
  | drop kind ident =>
      obtain ⟨-, rfl⟩ := dropTx_eq_ok.mp happly
      refine h.of_tabulars (fun _ => by rw [Registry.setTabulars_namespaces])
        fun kind' key hkey => Or.inl ?_
      rw [Registry.setTabulars_tabulars] at hkey
      split at hkey
      · next heq => subst heq; exact ((Relation.mem_erase _).mp hkey).2
      · exact hkey
  | rename kind src dest =>
      obtain ⟨record, -, -, -, rfl⟩ := renameTx_eq_ok.mp happly
      refine h.of_tabulars (fun _ => by rw [Registry.setTabulars_namespaces])
        fun kind' key hkey => ?_
      rw [Registry.setTabulars_tabulars] at hkey
      split at hkey
      · next heq =>
          subst heq
          rcases (Relation.mem_insert _).mp ((Relation.mem_erase _).mp hkey).2 with rfl | hkey
          · exact Or.inr ⟨dest, hvalid, rfl, hguard⟩
          · exact Or.inl hkey
      · exact Or.inl hkey
  | updateView view expected expectedLocation newLocation =>
      obtain ⟨live, hlive, -, -, rfl⟩ := updateViewTx_eq_ok.mp happly
      refine h.of_tabulars (fun _ => Iff.rfl) fun kind key hkey => Or.inl ?_
      cases kind with
      | table => exact hkey
      | view =>
          rcases (Relation.mem_insert _).mp hkey with rfl | hkey
          · exact Relation.mem_of_getElem? hlive
          · exact hkey

/-! ## What a run preserves -/

/-- Every transaction of the event meets its guard in the state it met. -/
def EventGuarded (u : UnicodeData) (ev : RedbEvent ib) : Prop :=
  ∀ i tx r, ev.label = .act i (.write tx) r → Guarded u ev.pre tx

/-- Integrity in every state reached, when every transaction meets its guard. -/
theorem integrity_of_guarded (u : UnicodeData) (c : Catalog) (tr : List (RedbEvent ib))
    (cfg : RedbConfig ib) (hrun : RedbRun c Registry.empty tr cfg)
    (hvalid : ∀ call ∈ cfg.calls, call.request.Valid u) (hguard : ∀ ev ∈ tr, EventGuarded u ev) :
    Integrity u cfg.state := by
  refine hrun.keeps (Integrity.empty u) fun ev hev i tx hlabel hpre happly => ?_
  obtain ⟨call, hcall, hissues⟩ := hrun.issues hev hlabel
  have htx := hissues.valid (hvalid call (List.mem_of_getElem? hcall))
  exact hpre.apply htx (hguard ev hev i tx _ hlabel) happly

/-! ## Creates, renames and drops that interleave -/

def bucket : Catalog := ⟨"s3://bucket/wh".toList, .table⟩

/-- The registry after `create_namespace` of `db`. -/
def dbRegistry : Registry :=
  { Registry.empty with
    namespaces := (∅ : Relation NamespaceRecord).insert (namespaceKey ["db".toList])
      ⟨["db".toList], ∅⟩ }

/-! ### A run that is guarded -/

def dbOld : NamespaceIdent := ["db".toList, "old".toList]

def dbRaw : NamespaceIdent := ["db".toList, "raw".toList]

/-- `db.old.t` is created while `db.raw` comes in, and renamed into it: a drop of `db.old` before
the rename is refused, one after it is not. -/
def movedOut : List (Move (Request Iceberg.plain)) :=
  [.start (.createNamespace ["db".toList] ∅), .step 0, .start (.createNamespace dbOld ∅), .step 1,
    .start (.createTable dbOld ⟨"t".toList, none, ()⟩), .step 2,
    .start (.createNamespace dbRaw ∅), .step 3, .step 2, .step 2, .step 2, .step 2,
    .start (.renameTable ⟨dbOld, "t".toList⟩ ⟨dbRaw, "t".toList⟩), .step 4,
    .start (.dropNamespace dbOld), .step 5, .step 4, .start (.dropNamespace dbOld), .step 6]

def movedOutRun : List (RedbEvent Iceberg.plain) × RedbConfig Iceberg.plain :=
  Config.moves (fun q => (Redb.serve bucket q).run) (Env.empty Iceberg.plain).onRegistry
    ⟨Registry.empty, []⟩ movedOut

/-- What the run registers, a table `t` in each. -/
def movedNamespaces : List NamespaceIdent := [["db".toList], dbOld, dbRaw]

theorem movedNamespaces_valid (ns : NamespaceIdent) (h : ns ∈ movedNamespaces) :
    ValidNamespace UnicodeData.plain ns := by
  have hold : ValidName UnicodeData.plain "old".toList := .of_check (by decide)
  have hraw : ValidName UnicodeData.plain "raw".toList := .of_check (by decide)
  fin_cases h
  · exact validNamespace_db
  · exact ⟨by decide, by simpa [dbOld] using ⟨validNamespace_db.2 _ (by simp), hold⟩⟩
  · exact ⟨by decide, by simpa [dbRaw] using ⟨validNamespace_db.2 _ (by simp), hraw⟩⟩

theorem validName_t : ValidName UnicodeData.plain "t".toList := .of_check (by decide)

/-- Nothing of these is under the namespace. -/
def clearOf (ns : NamespaceIdent) (reg : Registry) : Bool :=
  reg.views.isEmpty &&
    reg.namespaces.keys.all (fun key => movedNamespaces.any fun ns' =>
      key == namespaceKey ns' && (ns' == ns || !ns.isPrefixOf ns')) &&
    reg.tables.keys.all fun key => movedNamespaces.any fun ns' =>
      key == tableKey ⟨ns', "t".toList⟩ && !ns.isPrefixOf ns'

theorem not_beneath_of_clear {ns : NamespaceIdent} {reg : Registry} (h : clearOf ns reg = true) :
    ¬ Beneath UnicodeData.plain ns reg := by
  simp only [clearOf, Bool.and_eq_true, List.all_eq_true, List.any_eq_true, beq_iff_eq,
    Bool.or_eq_true, Bool.not_eq_true', Std.ExtTreeMap.mem_keys] at h
  obtain ⟨⟨hviews, hnamespaces⟩, htables⟩ := h
  rintro (⟨child, ⟨hchild, hkey⟩, hprefix, hne⟩ | ⟨kind, ident, ⟨hident, hkey⟩, hprefix⟩)
  · obtain ⟨ns', hns', heq, hclear⟩ := hnamespaces _ hkey
    obtain rfl := namespaceKey_inj hchild (movedNamespaces_valid _ hns') heq
    rcases hclear with hsame | hapart
    · exact hne hsame
    · rw [List.isPrefixOf_iff_prefix.mpr hprefix] at hapart
      cases hapart
  · cases kind with
    | view =>
        rw [Std.ExtTreeMap.isEmpty_iff] at hviews
        change tableKey ident ∈ reg.views at hkey
        rw [hviews] at hkey
        exact absurd hkey Std.ExtTreeMap.not_mem_empty
    | table =>
        obtain ⟨ns', hns', heq, hapart⟩ := htables _ hkey
        have hvalid : ValidNamespace _ (TableIdent.mk ns' "t".toList).namespc :=
          movedNamespaces_valid _ hns'
        obtain rfl := tableKey_inj hident.namespc hvalid heq
        rw [List.isPrefixOf_iff_prefix.mpr hprefix] at hapart
        cases hapart

/-- The transaction of an event, if it is one, meets its guard. -/
def guardCheck (ev : RedbEvent Iceberg.plain) : Bool :=
  match ev.label with
  | .act _ (.write (.create _ ident _ _)) _ | .act _ (.write (.rename _ _ ident)) _ =>
      movedNamespaces.contains ident.namespc &&
        ev.pre.namespaces.contains (namespaceKey ident.namespc)
  | .act _ (.write (.dropNamespace ns)) _ =>
      clearOf ns ev.pre || (movedNamespaces.contains ns && ev.pre.tables.contains
        (tableKey ⟨ns, "t".toList⟩))
  | _ => true

theorem guarded_of_check {ev : RedbEvent Iceberg.plain} (h : guardCheck ev = true) :
    EventGuarded UnicodeData.plain ev := by
  intro i tx r hlabel
  rw [guardCheck, hlabel] at h
  have hhas : ∀ ident : TableIdent, (movedNamespaces.contains ident.namespc &&
      ev.pre.namespaces.contains (namespaceKey ident.namespc)) = true →
        ev.pre.HasNamespace UnicodeData.plain ident.namespc := by
    intro ident hboth
    obtain ⟨hmem, hkey⟩ := Bool.and_eq_true_iff.mp hboth
    exact ⟨movedNamespaces_valid _ (List.contains_iff_mem.mp hmem),
      Std.ExtTreeMap.contains_iff_mem.mp hkey⟩
  cases tx with
  | create kind ident metadataLocation display => exact hhas ident h
  | rename kind src dest => exact hhas dest h
  | dropNamespace ns =>
      rcases Bool.or_eq_true_iff.mp h with hclear | hseen
      · exact .inl (not_beneath_of_clear hclear)
      · obtain ⟨hmem, hkey⟩ := Bool.and_eq_true_iff.mp hseen
        refine .inr (.inl ⟨.table, "t".toList, ⟨⟨?_, validName_t⟩, ?_⟩, by decide⟩)
        · exact movedNamespaces_valid _ (List.contains_iff_mem.mp hmem)
        · exact Std.ExtTreeMap.contains_iff_mem.mp hkey
  | _ => trivial

theorem movedOut_requests : movedOutRun.2.calls.map Call.request =
    [.createNamespace ["db".toList] ∅, .createNamespace dbOld ∅,
      .createTable dbOld ⟨"t".toList, none, ()⟩, .createNamespace dbRaw ∅,
      .renameTable ⟨dbOld, "t".toList⟩ ⟨dbRaw, "t".toList⟩, .dropNamespace dbOld,
      .dropNamespace dbOld] := rfl

theorem movedOut_valid : ∀ call ∈ movedOutRun.2.calls, call.request.Valid UnicodeData.plain := by
  have hdb := movedNamespaces_valid ["db".toList] (by decide)
  have hold := movedNamespaces_valid dbOld (by decide)
  have hraw := movedNamespaces_valid dbRaw (by decide)
  intro call hcall
  have hmem : call.request ∈ movedOutRun.2.calls.map Call.request := List.mem_map_of_mem hcall
  rw [movedOut_requests] at hmem
  simp only [List.mem_cons, List.not_mem_nil, or_false] at hmem
  rcases hmem with h | h | h | h | h | h | h
  · rw [h]; exact hdb
  · rw [h]; exact hold
  · rw [h]; exact ⟨hold, validName_t⟩
  · rw [h]; exact hraw
  · rw [h]; exact ⟨hraw, validName_t⟩
  · rw [h]; exact hold
  · rw [h]; exact hold

/-- In the end the nested namespace has its parent, and the table its namespace. -/
theorem integrity_of_guarded_movedOut : Integrity UnicodeData.plain movedOutRun.2.state ∧
    tableKey ⟨dbRaw, "t".toList⟩ ∈ movedOutRun.2.state.tables ∧
      namespaceKey dbOld ∉ movedOutRun.2.state.namespaces := by
  refine ⟨integrity_of_guarded UnicodeData.plain bucket movedOutRun.1 movedOutRun.2
    (Run.nil.moves (Env.empty Iceberg.plain).onRegistry_sem movedOut) movedOut_valid ?_, by decide⟩
  have hchecked : movedOutRun.1.all guardCheck = true := by decide
  exact fun ev hev => guarded_of_check (List.all_eq_true.mp hchecked ev hev)

/-! ### One that is not -/

/-- `create_table` reads that the namespace is there, `drop_namespace` drops
it, and then the table is inserted. -/
def createDropSchedule : List (Move (Request Iceberg.plain)) :=
  [.start (.createNamespace ["db".toList] ∅), .step 0,
    .start (.createTable ["db".toList] ⟨"t".toList, none, ()⟩), .step 1, .step 1, .step 1, .step 1,
    .start (.dropNamespace ["db".toList]), .step 2, .step 1]

def createDropConfig : RedbConfig Iceberg.plain :=
  (Config.moves (fun q => (Redb.serve bucket q).run) (Env.empty Iceberg.plain).onRegistry
    ⟨Registry.empty, []⟩ createDropSchedule).2

theorem createDropConfig_orphan :
    tableKey ⟨["db".toList], "t".toList⟩ ∈ createDropConfig.state.tables ∧
      namespaceKey ["db".toList] ∉ createDropConfig.state.namespaces := by
  decide

theorem createDropConfig_requests : createDropConfig.calls.map Call.request =
    [.createNamespace ["db".toList] ∅,
      .createTable ["db".toList] ⟨"t".toList, none, ()⟩, .dropNamespace ["db".toList]] := rfl

theorem integrity_broken :
    ¬ ∀ (ib : Iceberg) (u : UnicodeData) (c : Catalog) (tr : List (RedbEvent ib))
      (cfg : RedbConfig ib), RedbRun c Registry.empty tr cfg →
        (∀ call ∈ cfg.calls, call.request.Valid u) → Integrity u cfg.state := by
  intro hall
  have hrun : RedbRun bucket Registry.empty _ createDropConfig :=
    Run.nil.moves (Env.empty Iceberg.plain).onRegistry_sem createDropSchedule
  have hvalid : ∀ call ∈ createDropConfig.calls, call.request.Valid UnicodeData.plain := by
    intro call hcall
    have hmem : call.request ∈ createDropConfig.calls.map Call.request := List.mem_map_of_mem hcall
    rw [createDropConfig_requests] at hmem
    simp only [List.mem_cons, List.not_mem_nil, or_false] at hmem
    rcases hmem with h | h | h
    · rw [h]; exact validNamespace_db
    · rw [h]; exact ⟨validNamespace_db, .of_check (by decide)⟩
    · rw [h]; exact validNamespace_db
  have hint := hall _ _ bucket _ createDropConfig hrun hvalid
  have hhas : createDropConfig.state.Has UnicodeData.plain .table ⟨["db".toList], "t".toList⟩ :=
    ⟨⟨validNamespace_db, .of_check (by decide)⟩, createDropConfig_orphan.1⟩
  exact createDropConfig_orphan.2 (hint.inNamespace _ _ hhas).2

end Rustberg
