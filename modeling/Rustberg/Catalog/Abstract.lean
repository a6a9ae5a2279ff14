import Rustberg.Base.Directory
import Rustberg.Base.Layers
import Rustberg.Base.Result
import Rustberg.Catalog.Integrity

/-!
# The catalog as a directory

What the redb catalog is for: a `Lake`, a directory of namespaces with the
tables and views in them, in which a transaction makes a few changes, all
or none, and a read answers what the directory holds. Of keys, separators
and range scans it knows only in what order a listing comes.

- `Registry.lake` reads a registry as a lake: what it holds under the keys
  of names with a validated namespace.
- `Transaction.changes` says what each transaction does to it, and
  `Sem.lake` that one effect on the registry is that effect on the lake.
- So every run of the catalog on a registry is a run of the same calls,
  with the same answers, on its lake (`redb_refines`), and what is proved of
  directories holds of the registry: no table or view is lost, doubled or
  merged by any interleaving of renames, commits and drops
  (`tabulars_conserved`).

The names are validated where a request comes in; only the name of what is
dropped, renamed or replaced is not, for that is looked up and not made.
-/

namespace Rustberg

open Process
open Directory (Ran)

/-! ## The lake of a registry -/

/-- What a table or view stands for at one time. -/
structure Pointer where
  location : Text
  version : UInt64
  deriving DecidableEq

def TabularRecord.pointer (record : TabularRecord) : Pointer :=
  ⟨record.metadataLocation, record.version⟩

def Pointer.bumped (pointer : Pointer) : Pointer := ⟨pointer.location, pointer.version + 1⟩

abbrev Lake := Directory Text Tabular Properties Pointer

abbrev LakeChange := Directory.Change Text Tabular Properties Pointer

def TableIdent.place (ident : TableIdent) : Address Text := (ident.namespc, ident.name)

def placeKey (place : Address Text) : Text := tableKey ⟨place.1, place.2⟩

/-- The namespace of the place is validated. -/
def ValidPlace (u : UnicodeData) (place : Address Text) : Prop := ValidNamespace u place.1

noncomputable def Registry.lake (u : UnicodeData) (reg : Registry) : Lake where
  folders :=
    Relation.under namespaceKey (ValidNamespace u) NamespaceRecord.properties reg.namespaces
  entries kind := Relation.under placeKey (ValidPlace u) TabularRecord.pointer (reg.tabulars kind)
  drafts := Relation.under placeKey (ValidPlace u) TabularRecord.pointer reg.staged

/-- A prefix scan sees what goes on after the prefix below U+FFFF. -/
def Scannable (name : Text) : Prop := ∀ c ∈ name.head?, c < Char.ofNat 0xFFFF

instance : DecidablePred Scannable := fun name =>
  inferInstanceAs (Decidable (∀ c ∈ name.head?, c < Char.ofNat 0xFFFF))

/-! ## What a transaction does to it -/

def Swap.change (swap : Swap) : LakeChange :=
  match swap.expected with
  | some expected => .replace .table swap.ident.place expected.pointer swap.next.pointer
  | none => .adopt .table swap.ident.place swap.next.pointer

def Transaction.changes : Transaction → List LakeChange
  | .createNamespace ns properties => [.makeFolder ns properties]
  | .updateNamespace ns properties => [.setFolder ns properties]
  | .dropNamespace ns => [.removeFolder ns]
  | .create kind ident location _ => [.put kind ident.place ⟨location, 0⟩]
  | .stage ident location => [.draft ident.place ⟨location, 0⟩]
  | .drop kind ident => [.remove kind ident.place]
  | .rename kind src dest => [.move kind src.place dest.place Pointer.bumped]
  | .updateView view expected expectedLocation newLocation =>
      [.replace .view view.place ⟨expectedLocation, expected⟩ ⟨newLocation, expected + 1⟩]
  | .swap swaps => swaps.map Swap.change

/-- The keys a read meets between two others, the first `limit` in order. -/
def FirstIn (held : Text → Prop) (start stop : Text) (limit : Nat) (found : List Text) : Prop :=
  ∃ all : List Text, all.Pairwise (· < ·) ∧
    (∀ key, key ∈ all ↔ held key ∧ ¬ key < start ∧ key < stop) ∧ found = all.take limit

variable {ib : Iceberg}

/-- `found` is what a read finds in the lake. -/
def Answers (lake : Lake) : (e : Effect ib) → e.Payload → Prop
  | .getNamespace key, found => ∀ properties,
      found.map NamespaceRecord.properties = some properties ↔
        ∃ ns, key = namespaceKey ns ∧ lake.folders ns = some properties
  | .getTabular kind key, found => ∀ pointer,
      found.map TabularRecord.pointer = some pointer ↔
        ∃ place, key = placeKey place ∧ lake.entries kind place = some pointer
  | .getStaged key, found => ∀ pointer,
      found.map TabularRecord.pointer = some pointer ↔
        ∃ place, key = placeKey place ∧ lake.drafts place = some pointer
  | .scanNamespaces start stop depth probe, found =>
      FirstIn (fun key => ∃ ns, key = namespaceKey ns ∧ lake.folders ns ≠ none ∧ ns.length = depth)
        start stop probe found
  | .scanTabulars kind start stop probe, found =>
      FirstIn (fun key => ∃ place, key = placeKey place ∧ lake.entries kind place ≠ none)
        start stop probe found
  | _, _ => True

/-- The effects that do not concern the registry. -/
def Effect.Outside : Effect ib → Prop
  | .readMetadata _ | .writeMetadata _ _ | .readViewMetadata _ | .writeViewMetadata _ _
  | .delete _ | .newUuid => True
  | _ => False

/-- One effect of an operation, on a lake. A transaction makes all its
changes or none, and aborts only where they cannot all be made. -/
def LakeSem : (e : Effect ib) → Lake → e.Answer → Lake → Prop
  | .write tx, lake, r, lake' =>
      (r = .ok () ∧ Ran Scannable tx.changes lake lake') ∨
        (lake' = lake ∧ ∃ err : Error, r = .error err ∧
          (err.IsEngine ∨ ∀ mid, ¬ Ran Scannable tx.changes lake mid))
  | e, lake, r, lake' => lake' = lake ∧ (∀ v, r = .ok v → Answers lake e v) ∧
      ∀ err, r = .error err → Error.IsEngine err ∨ e.Outside

/-! ## Validated names -/

/-- Every key of the registry was built from validated names, a staging's too. -/
structure Registry.Named (u : UnicodeData) (reg : Registry) : Prop extends reg.WellNamed u where
  staged : ∀ key ∈ reg.staged, ∃ ident, ValidIdent u ident ∧ key = tableKey ident

/-- The namespaces of what a transaction looks up are validated. -/
def Transaction.Located (u : UnicodeData) : Transaction → Prop
  | .updateNamespace ns _ => ValidNamespace u ns
  | .drop _ ident | .updateView ident _ _ _ => ValidNamespace u ident.namespc
  | .rename _ src _ => ValidNamespace u src.namespc
  | _ => True

structure Transaction.Addressed (u : UnicodeData) (tx : Transaction) : Prop where
  valid : tx.Valid u
  located : tx.Located u

def Request.Located (u : UnicodeData) : Request ib → Prop
  | .updateNamespace ns _ => ValidNamespace u ns
  | .dropTable ident | .dropView ident | .updateView ident _ _ => ValidNamespace u ident.namespc
  | .renameTable src _ | .renameView src _ => ValidNamespace u src.namespc
  | _ => True

structure Request.Addressed (u : UnicodeData) (q : Request ib) : Prop where
  valid : q.Valid u
  located : q.Located u

variable {u : UnicodeData} {reg reg' : Registry}

theorem Request.Issues.addressed {q : Request ib} {tx : Transaction} (h : q.Issues tx)
    (hq : q.Addressed u) : tx.Addressed u := by
  refine ⟨h.valid hq.valid, ?_⟩
  have hlocated := hq.located
  cases q with
  | createNamespace ns properties => obtain rfl := h; trivial
  | updateNamespace ns properties => obtain rfl := h; exact hlocated
  | dropNamespace ns => obtain rfl := h; trivial
  | createTable ns creation => obtain ⟨_, _, rfl⟩ := h; trivial
  | stageCreateTable ns creation => obtain ⟨_, rfl⟩ := h; trivial
  | dropTable table => obtain rfl := h; exact hlocated
  | renameTable src dest => obtain rfl := h; exact hlocated
  | registerTable table _ => obtain ⟨_, _, rfl⟩ := h; trivial
  | commitTable change => obtain ⟨_, rfl, -⟩ := h; trivial
  | commitTablesAtomic changes => obtain ⟨_, rfl, -⟩ := h; trivial
  | registerView view _ => obtain ⟨_, _, rfl⟩ := h; trivial
  | createView view _ => obtain ⟨_, _, rfl⟩ := h; trivial
  | updateView view _ _ => obtain ⟨_, _, _, rfl⟩ := h; exact hlocated
  | dropView view => obtain rfl := h; exact hlocated
  | renameView src dest => obtain rfl := h; exact hlocated
  | _ => exact h.elim

namespace Registry.Named

theorem empty (u : UnicodeData) : Registry.empty.Named u where
  namespaces key hkey := absurd hkey Std.ExtTreeMap.not_mem_empty
  tabulars kind key hkey := by cases kind <;> exact absurd hkey Std.ExtTreeMap.not_mem_empty
  staged key hkey := absurd hkey Std.ExtTreeMap.not_mem_empty

/-- Only the keys of validated names are added. -/
theorem mono (h : reg.Named u)
    (hns : ∀ key ∈ reg'.namespaces, key ∈ reg.namespaces ∨
      ∃ ns, ValidNamespace u ns ∧ key = namespaceKey ns)
    (htab : ∀ kind, ∀ key ∈ reg'.tabulars kind, key ∈ reg.tabulars kind ∨
      ∃ ident, ValidIdent u ident ∧ key = tableKey ident)
    (hstaged : ∀ key ∈ reg'.staged, key ∈ reg.staged ∨
      ∃ ident, ValidIdent u ident ∧ key = tableKey ident) : reg'.Named u where
  namespaces key hkey := (hns key hkey).elim (h.namespaces key) id
  tabulars kind key hkey := (htab kind key hkey).elim (h.tabulars kind key) id
  staged key hkey := (hstaged key hkey).elim (h.staged key) id

theorem setTabulars (h : reg.Named u) (kind : Tabular) {m : Relation TabularRecord}
    (hm : ∀ key ∈ m, key ∈ reg.tabulars kind ∨ ∃ ident, ValidIdent u ident ∧ key = tableKey ident) :
    (reg.setTabulars kind m).Named u := by
  refine h.mono (fun key hkey => ?_) (fun kind' key hkey => ?_) fun key hkey => ?_
  · rw [setTabulars_namespaces] at hkey
    exact Or.inl hkey
  · rw [setTabulars_tabulars] at hkey
    split at hkey
    · next heq =>
        subst heq
        exact hm key hkey
    · exact Or.inl hkey
  · rw [setTabulars_staged] at hkey
    exact Or.inl hkey

theorem swapOne (h : reg.Named u) {swap : Swap} (hvalid : ValidIdent u swap.ident)
    (happly : Rustberg.swapOne reg swap = .ok reg') : reg'.Named u := by
  rcases swapOne_eq_ok.mp happly with ⟨expected, current, -, -, -, -, rfl⟩ | ⟨-, -, -, -, rfl⟩
  · refine h.setTabulars .table fun key hkey => ?_
    rcases (Relation.mem_insert _).mp hkey with rfl | hkey
    · exact Or.inr ⟨_, hvalid, rfl⟩
    · exact Or.inl hkey
  · refine h.mono (fun key hkey => Or.inl hkey) (fun kind key hkey => ?_) fun key hkey =>
      Or.inl ((Relation.mem_erase _).mp hkey).2
    cases kind with
    | view => exact Or.inl hkey
    | table =>
        rcases (Relation.mem_insert _).mp hkey with rfl | hkey
        · exact Or.inr ⟨_, hvalid, rfl⟩
        · exact Or.inl hkey

/-- A committed transaction keeps the keys those of validated names. -/
theorem apply (h : reg.Named u) {tx : Transaction} (hvalid : tx.Valid u)
    (happly : tx.apply reg = .ok reg') : reg'.Named u := by
  cases tx with
  | createNamespace ns properties =>
      obtain ⟨-, -, rfl⟩ := createNamespaceTx_eq_ok.mp happly
      refine h.mono (fun key hkey => ?_) (fun kind key hkey => Or.inl ?_) fun key hkey =>
        Or.inl hkey
      · rcases (Relation.mem_insert _).mp hkey with rfl | hkey
        · exact Or.inr ⟨ns, hvalid, rfl⟩
        · exact Or.inl hkey
      · cases kind <;> exact hkey
  | updateNamespace ns properties =>
      obtain ⟨hmem, rfl⟩ := updateNamespaceTx_eq_ok.mp happly
      refine h.mono (fun key hkey => Or.inl ?_) (fun kind key hkey => Or.inl ?_) fun key hkey =>
        Or.inl hkey
      · rcases (Relation.mem_insert _).mp hkey with rfl | hkey
        · exact hmem
        · exact hkey
      · cases kind <;> exact hkey
  | dropNamespace ns =>
      obtain ⟨-, -, rfl⟩ := dropNamespaceTx_eq_ok.mp happly
      refine h.mono (fun key hkey => Or.inl ((Relation.mem_erase _).mp hkey).2)
        (fun kind key hkey => Or.inl ?_) fun key hkey =>
          Or.inl (Relation.mem_of_mem_foldl_erase hkey)
      cases kind <;> exact hkey
  | create kind ident location display =>
      obtain ⟨-, -, rfl⟩ := createTx_eq_ok.mp happly
      refine h.setTabulars _ fun key hkey => ?_
      rcases (Relation.mem_insert _).mp hkey with rfl | hkey
      · exact Or.inr ⟨ident, hvalid, rfl⟩
      · exact Or.inl hkey
  | stage ident location =>
      obtain rfl := Except.ok.inj happly
      refine h.mono (fun key hkey => Or.inl hkey) (fun kind key hkey =>
        Or.inl ?_) fun key hkey => ?_
      · cases kind <;> exact hkey
      · rcases (Relation.mem_insert _).mp hkey with rfl | hkey
        · exact Or.inr ⟨ident, hvalid, rfl⟩
        · exact Or.inl hkey
  | drop kind ident =>
      obtain ⟨-, rfl⟩ := dropTx_eq_ok.mp happly
      exact h.setTabulars _ fun key hkey => Or.inl ((Relation.mem_erase _).mp hkey).2
  | rename kind src dest =>
      obtain ⟨record, -, -, -, rfl⟩ := renameTx_eq_ok.mp happly
      refine h.setTabulars _ fun key hkey => ?_
      rcases (Relation.mem_insert _).mp ((Relation.mem_erase _).mp hkey).2 with rfl | hkey
      · exact Or.inr ⟨dest, hvalid, rfl⟩
      · exact Or.inl hkey
  | updateView view expected expectedLocation newLocation =>
      obtain ⟨live, hlive, -, -, rfl⟩ := updateViewTx_eq_ok.mp happly
      refine h.setTabulars .view fun key hkey => Or.inl ?_
      rcases (Relation.mem_insert _).mp hkey with rfl | hkey
      · exact Relation.mem_of_getElem? hlive
      · exact hkey
  | swap swaps =>
      exact swapTx_keeps (fun swap hswap _ _ hreg hone => hreg.swapOne (hvalid swap hswap) hone) h
        happly

end Registry.Named

/-! ## What a transaction does, on the lake -/

theorem placeKey_place (ident : TableIdent) : placeKey ident.place = tableKey ident := rfl

theorem placeKey_inj {place place' : Address Text} (h : ValidPlace u place)
    (h' : ValidPlace u place')
    (heq : placeKey place = placeKey place') : place = place' := by
  have hident : (⟨place.1, place.2⟩ : TableIdent) = ⟨place'.1, place'.2⟩ := tableKey_inj h h' heq
  rw [TableIdent.mk.injEq] at hident
  exact Prod.ext hident.1 hident.2

section

variable {ns : NamespaceIdent} {ident : TableIdent} {kind : Tabular}

theorem lake_folder (hns : ValidNamespace u ns) :
    (reg.lake u).folders ns ≠ none ↔ namespaceKey ns ∈ reg.namespaces :=
  Relation.under_ne_none.trans (and_iff_right hns)

theorem lake_noFolder (hns : ValidNamespace u ns) :
    (reg.lake u).folders ns = none ↔ namespaceKey ns ∉ reg.namespaces :=
  Relation.under_eq_none hns

theorem lake_entry (hident : ValidNamespace u ident.namespc) :
    (reg.lake u).entries kind ident.place =
      ((reg.tabulars kind)[tableKey ident]?).map TabularRecord.pointer :=
  have hplace : ValidPlace u ident.place := hident
  Relation.under_of_valid hplace

theorem lake_held (hident : ValidNamespace u ident.namespc) :
    (reg.lake u).entries kind ident.place ≠ none ↔ tableKey ident ∈ reg.tabulars kind := by
  rw [lake_entry hident, ne_eq, Option.map_eq_none_iff, Relation.getElem?_ne_none_iff]

theorem lake_free (hident : ValidNamespace u ident.namespc) :
    (reg.lake u).Free ident.place ↔ tableKey ident ∉ reg.tables ∧ tableKey ident ∉ reg.views := by
  have hfree : ∀ kind, (reg.lake u).entries kind ident.place = none ↔
      tableKey ident ∉ reg.tabulars kind := fun kind =>
    not_ne_iff.symm.trans (not_congr (lake_held hident))
  constructor
  · intro h
    exact ⟨(hfree .table).mp (h .table), (hfree .view).mp (h .view)⟩
  · rintro ⟨htable, hview⟩ kind
    cases kind with
    | table => exact (hfree .table).mpr htable
    | view => exact (hfree .view).mpr hview

theorem lake_insert_namespace (hns : ValidNamespace u ns) (properties : Properties) :
    ({ reg with namespaces := reg.namespaces.insert (namespaceKey ns) ⟨ns, properties⟩ }
      : Registry).lake u =
      { reg.lake u with
        folders := Function.update (reg.lake u).folders ns (some properties) } := by
  refine Directory.ext ?_ ?_ rfl
  · exact Relation.under_insert (fun _ hns' heq => namespaceKey_inj hns hns' heq) hns _
  · funext kind
    cases kind <;> rfl

theorem lake_setTabulars (m : Relation TabularRecord) :
    (reg.setTabulars kind m).lake u =
      { reg.lake u with
        entries := Function.update (reg.lake u).entries kind
          (Relation.under placeKey (ValidPlace u) TabularRecord.pointer m) } := by
  refine Directory.ext ?_ ?_ ?_
  · rw [Registry.lake, Registry.setTabulars_namespaces]
    rfl
  · funext kind'
    rw [Registry.lake]
    dsimp only
    rw [Registry.setTabulars_tabulars]
    split
    · next heq =>
        subst heq
        rw [Function.update_self]
    · next hne =>
        rw [Function.update_of_ne hne]
        rfl
  · rw [Registry.lake, Registry.setTabulars_staged]
    rfl

/-- What `m` holds, by place. -/
theorem under_insert_place (hident : ValidNamespace u ident.namespc) (m : Relation TabularRecord)
    (record : TabularRecord) :
    Relation.under placeKey (ValidPlace u) TabularRecord.pointer
    (m.insert (tableKey ident) record) =
      Function.update (Relation.under placeKey (ValidPlace u) TabularRecord.pointer m) ident.place
        (some record.pointer) := by
  have hplace : ValidPlace u ident.place := hident
  rw [← placeKey_place]
  exact Relation.under_insert (fun _ hplace' heq => placeKey_inj hplace hplace' heq) hplace record

theorem under_erase_place (hident : ValidNamespace u ident.namespc) (m : Relation TabularRecord) :
    Relation.under placeKey (ValidPlace u) TabularRecord.pointer (m.erase (tableKey ident)) =
      Function.update (Relation.under placeKey (ValidPlace u) TabularRecord.pointer m) ident.place
        none := by
  have hplace : ValidPlace u ident.place := hident
  rw [← placeKey_place]
  exact Relation.under_erase (fun _ hplace' heq => placeKey_inj hplace hplace' heq) hplace

variable (reg kind) in
theorem lake_insert (hident : ValidNamespace u ident.namespc) (record : TabularRecord) :
    (reg.setTabulars kind ((reg.tabulars kind).insert (tableKey ident) record)).lake u =
      (reg.lake u).setEntry kind ident.place (some record.pointer) := by
  rw [lake_setTabulars, under_insert_place hident]
  rfl

variable (reg kind) in
theorem lake_erase (hident : ValidNamespace u ident.namespc) :
    (reg.setTabulars kind ((reg.tabulars kind).erase (tableKey ident))).lake u =
      (reg.lake u).setEntry kind ident.place none := by
  rw [lake_setTabulars, under_erase_place hident]
  rfl

/-- The commits of a transaction are its changes to the lake, and it aborts
only where they cannot all be made. -/
structure Refines (u : UnicodeData) (reg : Registry) (tx : Transaction) : Prop where
  commits : ∀ {reg'}, tx.apply reg = .ok reg' → Ran Scannable tx.changes (reg.lake u) (reg'.lake u)
  aborts : ∀ {err}, tx.apply reg = .error err → ∀ lake, ¬ Ran Scannable tx.changes (reg.lake u) lake

/-- One change: made when the transaction commits, and it commits when the
change can be made. -/
theorem Refines.of_change {tx : Transaction} {c : LakeChange} (hchanges : tx.changes = [c])
    (hcommits : ∀ reg', tx.apply reg = .ok reg' →
      c.Allowed Scannable (reg.lake u) ∧ reg'.lake u = c.apply Scannable (reg.lake u))
    (hallowed : c.Allowed Scannable (reg.lake u) → ∃ reg', tx.apply reg = .ok reg') :
    Refines u reg tx where
  commits happly := by
    rw [hchanges]
    exact hcommits _ happly
  aborts happly lake hran := by
    rw [hchanges] at hran
    obtain ⟨reg', hok⟩ := hallowed hran.1
    rw [hok] at happly
    cases happly

theorem createNamespace_refines (hns : ValidNamespace u ns) (properties : Properties) :
    Refines u reg (.createNamespace ns properties) := by
  have hparent : 1 < ns.length → ValidNamespace u ns.dropLast := by
    refine fun hlen => ⟨fun hnil => ?_, fun s hs => hns.2 s (List.mem_of_mem_dropLast hs)⟩
    have hzero := congrArg List.length hnil
    rw [List.length_dropLast, List.length_nil] at hzero
    omega
  refine .of_change rfl (fun reg' happly => ?_) fun hallowed => ?_
  · obtain ⟨hpresent, habsent, rfl⟩ := createNamespaceTx_eq_ok.mp happly
    refine ⟨⟨fun hlen => ?_, (lake_noFolder hns).mpr habsent⟩, lake_insert_namespace hns properties⟩
    exact (lake_folder (hparent hlen)).mpr (hpresent hlen)
  · obtain ⟨hpresent, habsent⟩ := hallowed
    refine ⟨_, createNamespaceTx_eq_ok.mpr ⟨fun hlen => ?_, (lake_noFolder hns).mp habsent, rfl⟩⟩
    exact (lake_folder (hparent hlen)).mp (hpresent hlen)

theorem updateNamespace_refines (hns : ValidNamespace u ns) (properties : Properties) :
    Refines u reg (.updateNamespace ns properties) := by
  refine .of_change rfl (fun reg' happly => ?_) fun hallowed => ?_
  · obtain ⟨hpresent, rfl⟩ := updateNamespaceTx_eq_ok.mp happly
    exact ⟨(lake_folder hns).mpr hpresent, lake_insert_namespace hns properties⟩
  · exact ⟨_, updateNamespaceTx_eq_ok.mpr ⟨(lake_folder hns).mp hallowed, rfl⟩⟩

theorem create_refines (hident : ValidNamespace u ident.namespc) (location display : Text) :
    Refines u reg (.create kind ident location display) := by
  refine .of_change rfl (fun reg' happly => ?_) fun hallowed => ?_
  · obtain ⟨htable, hview, rfl⟩ := createTx_eq_ok.mp happly
    exact ⟨(lake_free hident).mpr ⟨htable, hview⟩, lake_insert _ kind hident _⟩
  · obtain ⟨htable, hview⟩ := (lake_free hident).mp hallowed
    exact ⟨_, createTx_eq_ok.mpr ⟨htable, hview, rfl⟩⟩

theorem stage_refines (hident : ValidNamespace u ident.namespc) (location : Text) :
    Refines u reg (.stage ident location) := by
  refine .of_change rfl (fun reg' happly => ⟨trivial, ?_⟩) fun _ => ⟨_, rfl⟩
  obtain rfl := Except.ok.inj happly
  refine Directory.ext rfl ?_ (under_insert_place hident _ _)
  funext kind
  cases kind <;> rfl

theorem drop_refines (hident : ValidNamespace u ident.namespc) :
    Refines u reg (.drop kind ident) := by
  refine .of_change rfl (fun reg' happly => ?_) fun hallowed => ?_
  · obtain ⟨hpresent, rfl⟩ := dropTx_eq_ok.mp happly
    exact ⟨(lake_held hident).mpr hpresent, lake_erase _ kind hident⟩
  · exact ⟨_, dropTx_eq_ok.mpr ⟨(lake_held hident).mp hallowed, rfl⟩⟩

theorem rename_refines {src dest : TableIdent} (hsrc : ValidNamespace u src.namespc)
    (hdest : ValidNamespace u dest.namespc) : Refines u reg (.rename kind src dest) := by
  refine .of_change rfl (fun reg' happly => ?_) fun hallowed => ?_
  · obtain ⟨record, hrecord, htable, hview, rfl⟩ := renameTx_eq_ok.mp happly
    refine ⟨⟨(lake_held hsrc).mpr (Relation.mem_of_getElem? hrecord),
      (lake_free hdest).mpr ⟨htable, hview⟩⟩, ?_⟩
    have hpointer : (reg.lake u).entries kind src.place = some record.pointer := by
      rw [lake_entry hsrc, hrecord, Option.map_some]
    rw [lake_setTabulars, under_erase_place hsrc, under_insert_place hdest]
    show _ = ((reg.lake u).setEntry kind dest.place
      (((reg.lake u).entries kind src.place).map Pointer.bumped)).setEntry kind src.place none
    rw [hpointer, Directory.setEntry, Directory.setEntry]
    dsimp only
    rw [Function.update_self, Function.update_idem]
    rfl
  · obtain ⟨hheld, hfree⟩ := hallowed
    obtain ⟨htable, hview⟩ := (lake_free hdest).mp hfree
    have hmem := (lake_held hsrc).mp hheld
    obtain ⟨record, hrecord⟩ :=
      Option.ne_none_iff_exists'.mp (Relation.getElem?_ne_none_iff.mpr hmem)
    exact ⟨_, renameTx_eq_ok.mpr ⟨record, hrecord, htable, hview, rfl⟩⟩

theorem pointer_eq_iff {record : TabularRecord} {location : Text} {version : UInt64} :
    record.pointer = ⟨location, version⟩ ↔
      record.version = version ∧ record.metadataLocation = location := by
  rw [TabularRecord.pointer, Pointer.mk.injEq, and_comm]

theorem lake_entry_eq_some (hident : ValidNamespace u ident.namespc) {location : Text}
    {version : UInt64} :
    (reg.lake u).entries kind ident.place = some ⟨location, version⟩ ↔
      ∃ live, (reg.tabulars kind)[tableKey ident]? = some live ∧ live.version = version ∧
        live.metadataLocation = location := by
  rw [lake_entry hident, Option.map_eq_some_iff]
  exact exists_congr fun _ => and_congr_right fun _ => pointer_eq_iff

theorem updateView_refines (hident : ValidNamespace u ident.namespc) (expected : UInt64)
    (expectedLocation newLocation : Text) :
    Refines u reg (.updateView ident expected expectedLocation newLocation) := by
  refine .of_change rfl (fun reg' happly => ?_) fun hallowed => ?_
  · obtain ⟨live, hlive, hversion, hlocation, rfl⟩ := updateViewTx_eq_ok.mp happly
    exact ⟨(lake_entry_eq_some hident).mpr ⟨live, hlive, hversion, hlocation⟩,
      lake_insert _ .view hident _⟩
  · obtain ⟨live, hlive, hversion, hlocation⟩ := (lake_entry_eq_some hident).mp hallowed
    exact ⟨_, updateViewTx_eq_ok.mpr ⟨live, hlive, hversion, hlocation, rfl⟩⟩

/-! ### The swaps of a commit -/

theorem swapOne_commits {swap : Swap} (hident : ValidNamespace u swap.ident.namespc)
    (hone : swapOne reg swap = .ok reg') :
    swap.change.Allowed Scannable (reg.lake u) ∧
      reg'.lake u = swap.change.apply Scannable (reg.lake u) := by
  rcases swapOne_eq_ok.mp hone with
    ⟨expected, current, hexpected, hcurrent, hversion, hlocation, rfl⟩ |
    ⟨hexpected, hns, hview, htable, rfl⟩
  · rw [Swap.change, hexpected]
    exact ⟨(lake_entry_eq_some hident).mpr ⟨current, hcurrent, hversion, hlocation⟩,
      lake_insert _ .table hident _⟩
  · rw [Swap.change, hexpected]
    refine ⟨⟨(lake_folder hident).mpr hns, (lake_free hident).mpr ⟨htable, hview⟩⟩, ?_⟩
    have hentries := congrArg Directory.entries (lake_insert reg .table hident swap.next)
    exact Directory.ext rfl hentries (under_erase_place hident _)

theorem swapOne_allowed {swap : Swap} (hident : ValidNamespace u swap.ident.namespc)
    (hallowed : swap.change.Allowed Scannable (reg.lake u)) :
    ∃ reg', swapOne reg swap = .ok reg' := by
  cases hexpected : swap.expected with
  | some expected =>
      rw [Swap.change, hexpected] at hallowed
      obtain ⟨current, hcurrent, hversion, hlocation⟩ := (lake_entry_eq_some hident).mp hallowed
      exact ⟨_, swapOne_eq_ok.mpr
        (.inl ⟨expected, current, hexpected, hcurrent, hversion, hlocation, rfl⟩)⟩
  | none =>
      rw [Swap.change, hexpected] at hallowed
      obtain ⟨hfolder, hfree⟩ := hallowed
      obtain ⟨htable, hview⟩ := (lake_free hident).mp hfree
      exact ⟨_, swapOne_eq_ok.mpr
        (.inr ⟨hexpected, (lake_folder hident).mp hfolder, hview, htable, rfl⟩)⟩

theorem swapTx_cons (swap : Swap) (swaps : List Swap) :
    swapTx (swap :: swaps) reg = swapOne reg swap >>= swapTx swaps :=
  rfl

/-- A commit makes the changes of its swaps in order, or none. -/
theorem swap_refines {swaps : List Swap}
    (hidents : ∀ swap ∈ swaps, ValidNamespace u swap.ident.namespc) :
    Refines u reg (.swap swaps) := by
  induction swaps generalizing reg with
  | nil =>
      refine ⟨fun happly => ?_, fun happly => ?_⟩
      · obtain rfl := Except.ok.inj happly
        rfl
      · cases happly
  | cons swap swaps ih =>
      obtain ⟨hident, hrest⟩ := List.forall_mem_cons.mp hidents
      refine ⟨fun happly => ?_, ?_⟩
      · obtain ⟨mid, hone, hswaps⟩ :=
          Except.bind_eq_ok.mp ((swapTx_cons swap swaps).symm.trans happly)
        obtain ⟨hallowed, hmid⟩ := swapOne_commits hident hone
        refine ⟨hallowed, ?_⟩
        rw [← hmid]
        exact (ih hrest).commits hswaps
      · intro err happly lake hran
        obtain ⟨hallowed, hran⟩ := hran
        obtain ⟨mid, hone⟩ := swapOne_allowed hident hallowed
        rw [← (swapOne_commits hident hone).2] at hran
        have hswaps : swapTx swaps mid = .error err := by
          rw [← happly]
          show _ = swapTx (swap :: swaps) reg
          rw [swapTx_cons, hone]
          rfl
        exact (ih hrest).aborts hswaps lake hran

/-! ### Dropping a namespace -/

theorem scannable_iff {name : Text} (h : ValidName u name) : Scannable name ↔ ¬ Blind name := by
  have hblind := h.not_blind_iff []
  rwa [List.append_nil] at hblind

theorem lake_folder_ne_none :
    (reg.lake u).folders ns ≠ none ↔ reg.HasNamespace u ns :=
  Relation.under_ne_none

theorem Registry.Named.has_iff (h : reg.Named u) :
    (reg.lake u).entries kind ident.place ≠ none ↔ reg.Has u kind ident := by
  constructor
  · intro hheld
    obtain ⟨hplace, hmem⟩ := Relation.under_ne_none.mp hheld
    obtain ⟨ident', hident', hkey⟩ := h.tabulars kind _ hmem
    obtain rfl := tableKey_inj hplace hident'.namespc hkey
    exact ⟨hident', hmem⟩
  · rintro ⟨hident, hmem⟩
    exact (lake_held hident.namespc).mpr hmem

/-- The scans of a drop see something where the lake shows something. -/
theorem Registry.Named.seen_iff (h : reg.Named u) :
    Seen u ns reg ↔
      (∃ kind name, Scannable name ∧ (reg.lake u).entries kind (ns, name) ≠ none) ∨
        ∃ s rest, Scannable s ∧ (reg.lake u).folders (ns ++ s :: rest) ≠ none := by
  refine or_congr ?_ ?_
  · refine exists₂_congr fun kind name => ?_
    constructor
    · rintro ⟨hhas, hblind⟩
      exact ⟨(scannable_iff hhas.1.name).mpr hblind, h.has_iff.mpr hhas⟩
    · rintro ⟨hscan, hheld⟩
      have hhas : reg.Has u kind ⟨ns, name⟩ := h.has_iff.mp hheld
      exact ⟨hhas, (scannable_iff hhas.1.name).mp hscan⟩
  · refine exists₂_congr fun s rest => ?_
    rw [lake_folder_ne_none, and_comm]
    refine and_congr_left fun hhas => ?_
    exact (scannable_iff (hhas.1.2 s (by simp))).symm

/-- A drop takes the stagings it sees along. -/
theorem lake_drafts_drop (hns : ValidNamespace u ns) (place : Address Text) :
    Relation.under placeKey (ValidPlace u) TabularRecord.pointer
        ((Relation.keysIn reg.staged (tablePrefix ns) (prefixEnd (tablePrefix ns))).foldl
          (fun staged key => staged.erase key) reg.staged) place =
      if place.1 = ns ∧ Scannable place.2 then none else (reg.lake u).drafts place := by
  by_cases hplace : ValidPlace u place
  · have hkey : ∀ r, placeKey place = tablePrefix ns ++ r ↔ place.1 = ns ∧ place.2 = r := by
      intro r
      constructor
      · intro heq
        have hsame : place = (ns, r) := placeKey_inj hplace hns heq
        exact Prod.mk.inj hsame
      · rintro ⟨hpath, hname⟩
        rw [placeKey, hpath, hname]
        rfl
    have hdoomed : placeKey place ∈ Relation.keysIn reg.staged (tablePrefix ns)
        (prefixEnd (tablePrefix ns)) ↔ placeKey place ∈ reg.staged ∧ place.1 = ns ∧
          Scannable place.2 := by
      rw [prefixEnd, Relation.mem_keysIn_prefix]
      refine and_congr_right fun _ => ⟨?_, ?_⟩
      · rintro ⟨r, heq, hscan⟩
        obtain ⟨hpath, rfl⟩ := (hkey r).mp heq
        exact ⟨hpath, hscan⟩
      · rintro ⟨hpath, hscan⟩
        exact ⟨place.2, (hkey _).mpr ⟨hpath, rfl⟩, hscan⟩
    rw [Relation.under_of_valid hplace, Relation.getElem?_foldl_erase]
    split
    · next hmem => rw [if_pos (hdoomed.mp hmem).2, Option.map_none]
    · next hmem =>
        have hkept : (reg.lake u).drafts place =
            (reg.staged[placeKey place]?).map TabularRecord.pointer :=
              Relation.under_of_valid hplace
        rw [← hkept]
        split
        · next hseen =>
            exact (Relation.under_eq_none hplace).mpr fun hstaged =>
              hmem (hdoomed.mpr ⟨hstaged, hseen⟩)
        · rfl
  · rw [Relation.under_of_not_valid hplace]
    split
    · rfl
    · exact (Relation.under_of_not_valid hplace).symm

theorem dropNamespace_refines (h : reg.Named u) (hns : ValidNamespace u ns) :
    Refines u reg (.dropNamespace ns) := by
  -- The scans see nothing exactly when the lake shows nothing in the folder.
  have hempty : dropScans ns reg = [] ↔
      (∀ kind name, Scannable name → (reg.lake u).entries kind (ns, name) = none) ∧
        ∀ s rest, Scannable s → (reg.lake u).folders (ns ++ s :: rest) = none := by
    rw [dropScans_eq_nil h.toWellNamed hns, h.seen_iff]
    push Not
    rfl
  refine .of_change rfl (fun reg' happly => ?_) fun hallowed => ?_
  · obtain ⟨hpresent, hscans, rfl⟩ := dropNamespaceTx_eq_ok.mp happly
    refine ⟨⟨(lake_folder hns).mpr hpresent, hempty.mp hscans⟩, Directory.ext ?_ ?_ ?_⟩
    · exact Relation.under_erase (fun _ hns' heq => namespaceKey_inj hns hns' heq) hns
    · funext kind
      cases kind <;> rfl
    · exact funext (lake_drafts_drop hns)
  · obtain ⟨hfolder, hnone⟩ := hallowed
    exact ⟨_, dropNamespaceTx_eq_ok.mpr ⟨(lake_folder hns).mp hfolder, hempty.mpr hnone, rfl⟩⟩

/-- Every transaction on validated names does to the lake what it says. -/
theorem Transaction.Addressed.refines {tx : Transaction} (htx : tx.Addressed u) (h : reg.Named u) :
    Refines u reg tx := by
  obtain ⟨hvalid, hlocated⟩ := htx
  cases tx with
  | createNamespace ns properties => exact createNamespace_refines hvalid properties
  | updateNamespace ns properties => exact updateNamespace_refines hlocated properties
  | dropNamespace ns => exact dropNamespace_refines h hvalid
  | create kind ident location display => exact create_refines hvalid.namespc location display
  | stage ident location => exact stage_refines hvalid.namespc location
  | drop kind ident => exact drop_refines hlocated
  | rename kind src dest => exact rename_refines hlocated hvalid.namespc
  | updateView view expected expectedLocation newLocation =>
      exact updateView_refines hlocated expected expectedLocation newLocation
  | swap swaps => exact swap_refines fun swap hswap => (hvalid swap hswap).namespc

end

/-! ## What a read answers, on the lake -/

/-- A scan returns the first keys there are between its bounds. -/
theorem firstIn_keysIn {V : Type} {m : Relation V} {held : Text → Prop}
    (hheld : ∀ key, key ∈ m ↔ held key) (start stop : Text) (limit : Nat) :
    FirstIn held start stop limit ((Relation.keysIn m start stop).take limit) :=
  ⟨_, Relation.keysIn_sorted m start stop,
    fun key => (Relation.mem_keysIn m).trans (and_congr_left fun _ => hheld key), rfl⟩

namespace Registry.Named

variable (h : reg.Named u)

include h

theorem placeKeys (kind : Tabular) :
    ∀ key ∈ reg.tabulars kind, ∃ place, ValidPlace u place ∧ key = placeKey place := by
  intro key hkey
  obtain ⟨ident, hident, rfl⟩ := h.tabulars kind key hkey
  exact ⟨ident.place, hident.namespc, rfl⟩

theorem stagedKeys : ∀ key ∈ reg.staged, ∃ place, ValidPlace u place ∧ key = placeKey place := by
  intro key hkey
  obtain ⟨ident, hident, rfl⟩ := h.staged key hkey
  exact ⟨ident.place, hident.namespc, rfl⟩

theorem scanned_namespaces (start stop : Text) (depth probe : Nat) :
    FirstIn (fun key => ∃ ns, key = namespaceKey ns ∧ (reg.lake u).folders ns ≠ none ∧
        ns.length = depth) start stop probe
      (((Relation.keysIn reg.namespaces start stop).filter (depthOf · = depth)).take probe) := by
  refine ⟨_, (Relation.keysIn_sorted reg.namespaces start stop).filter _, fun key => ?_, rfl⟩
  rw [List.mem_filter, decide_eq_true_eq, Relation.mem_keysIn, and_right_comm]
  refine and_congr_left fun _ => ?_
  constructor
  · rintro ⟨hmem, hdepth⟩
    obtain ⟨ns, hns, rfl⟩ := h.namespaces key hmem
    exact ⟨ns, rfl, (lake_folder hns).mpr hmem, (depthOf_namespaceKey hns).symm.trans hdepth⟩
  · rintro ⟨ns, rfl, hfolder, hdepth⟩
    obtain ⟨hns, hmem⟩ := lake_folder_ne_none.mp hfolder
    exact ⟨hmem, (depthOf_namespaceKey hns).trans hdepth⟩

/-- What a read transaction answers is what the lake holds. -/
theorem answers {e : Effect ib} {v : e.Payload} (hanswer : reg.answer e = some v) :
    Answers (reg.lake u) e v := by
  cases e with
  | getNamespace key =>
      cases hanswer
      exact fun _ => Relation.getElem?_iff_under h.namespaces
  | getTabular kind key =>
      cases hanswer
      exact fun _ => Relation.getElem?_iff_under (h.placeKeys kind)
  | getStaged key =>
      cases hanswer
      exact fun _ => Relation.getElem?_iff_under h.stagedKeys
  | scanNamespaces start stop depth probe =>
      cases hanswer
      exact h.scanned_namespaces start stop depth probe
  | scanTabulars kind start stop probe =>
      cases hanswer
      exact firstIn_keysIn (fun _ => Relation.mem_iff_under (h.placeKeys kind)) start stop probe
  | _ => trivial

/-- What a read may answer, on the lake. -/
theorem read {e : Effect ib} {r : e.Answer} (hread : (∃ v, reg.answer e = some v) ∨ e.Outside)
    (hanswers : ∀ v, reg.answer e = some v →
      r = .ok v ∨ ∃ err : Error, err.IsEngine ∧ r = .error err) :
    (∀ v, r = .ok v → Answers (reg.lake u) e v) ∧
      ∀ err, r = .error err → Error.IsEngine err ∨ e.Outside := by
  rcases hread with ⟨found, hfound⟩ | houtside
  · rcases hanswers found hfound with rfl | ⟨failure, hengine, rfl⟩
    · refine ⟨fun v hv => ?_, fun err herr => (by cases herr)⟩
      cases hv
      exact h.answers hfound
    · refine ⟨fun v hv => (by cases hv), fun err herr => ?_⟩
      cases herr
      exact Or.inl hengine
  · refine ⟨fun v _ => ?_, fun _ _ => Or.inr houtside⟩
    cases e <;> trivial

/-- One effect on the registry is that effect on its lake. -/
theorem sem {e : Effect ib} {r : e.Answer} (hwithin : e.Within (Transaction.Addressed u))
    (hsem : Sem e reg r reg') : LakeSem e (reg.lake u) r (reg'.lake u) := by
  cases e with
  | write tx =>
      have hrefines := Transaction.Addressed.refines hwithin h
      cases hsem with
      | committed happly => exact Or.inl ⟨rfl, hrefines.commits happly⟩
      | aborted happly => exact Or.inr ⟨rfl, _, rfl, Or.inr (hrefines.aborts happly)⟩
      | failed hengine => exact Or.inr ⟨rfl, _, rfl, Or.inl hengine⟩
  | getNamespace key =>
      obtain ⟨rfl, hanswers⟩ := hsem
      exact ⟨rfl, h.read (.inl ⟨_, rfl⟩) hanswers⟩
  | getTabular kind key =>
      obtain ⟨rfl, hanswers⟩ := hsem
      exact ⟨rfl, h.read (.inl ⟨_, rfl⟩) hanswers⟩
  | getStaged key =>
      obtain ⟨rfl, hanswers⟩ := hsem
      exact ⟨rfl, h.read (.inl ⟨_, rfl⟩) hanswers⟩
  | scanNamespaces start stop depth probe =>
      obtain ⟨rfl, hanswers⟩ := hsem
      exact ⟨rfl, h.read (.inl ⟨_, rfl⟩) hanswers⟩
  | scanTabulars kind start stop probe =>
      obtain ⟨rfl, hanswers⟩ := hsem
      exact ⟨rfl, h.read (.inl ⟨_, rfl⟩) hanswers⟩
  | _ =>
      obtain ⟨rfl, hanswers⟩ := hsem
      exact ⟨rfl, h.read (.inr trivial) hanswers⟩

end Registry.Named

/-! ## Runs -/

/-- A run of the same calls on a lake. -/
abbrev LakeRun (c : Catalog) (start : Lake)
    (tr : List (Event (Effect ib) Effect.Answer Lake (Request ib)))
    (cfg : Config (Effect ib) Effect.Answer (Except Error (Reply ib)) Lake (Request ib)) : Prop :=
  Run (fun q => (Redb.serve c q).run) LakeSem (fun _ _ => False) ⟨start, []⟩ tr cfg

section

variable {c : Catalog} {start : Registry} {tr : List (RedbEvent ib)} {cfg : RedbConfig ib}

theorem RedbRun.lake (hrun : RedbRun c start tr cfg) (hstart : start.Named u)
    (hcalls : ∀ call ∈ cfg.calls, call.request.Addressed u) :
    cfg.state.Named u ∧
      LakeRun c (start.lake u) (tr.map (Event.on (Registry.lake u)))
        (cfg.on (Registry.lake u)) := by
  refine hrun.on hstart (fun ev hev i e r hlabel hsem hpre => ?_) fun _ _ hfalse => hfalse.elim
  have hwithin : e.Within (Transaction.Addressed u) := by
    cases e with
    | write tx =>
        obtain ⟨call, hcall, hissues⟩ := hrun.issues hev hlabel
        exact hissues.addressed (hcalls call (List.mem_of_getElem? hcall))
    | _ => trivial
  refine ⟨?_, hpre.sem hwithin hsem⟩
  cases e with
  | write tx =>
      generalize hpost : ev.post = post at hsem
      cases hsem with
      | committed happly => exact hpre.apply hwithin.valid happly
      | aborted _ => exact hpre
      | failed _ => exact hpre
  | _ => exact hsem.1 ▸ hpre

end

/-- The changes of the transactions a run has committed, in order. -/
def changesOf {S : Type} (tr : List (Event (Effect ib) Effect.Answer S (Request ib))) :
    List LakeChange :=
  tr.flatMap fun ev =>
    match ev.label with
    | .act _ (.write tx) (.ok _) => tx.changes
    | _ => []

theorem changesOf_on {S S' : Type} (view : S → S')
    (tr : List (Event (Effect ib) Effect.Answer S (Request ib))) :
    changesOf (tr.map (Event.on view)) = changesOf tr := by
  rw [changesOf, List.flatMap_map]
  rfl

/-- What is in the lake in the end is what the committed transactions, one
after the other, make of what was there. -/
theorem LakeRun.ran {c : Catalog} {start : Lake}
    {tr : List (Event (Effect ib) Effect.Answer Lake (Request ib))}
    {cfg : Config (Effect ib) Effect.Answer (Except Error (Reply ib)) Lake (Request ib)}
    (hrun : LakeRun c start tr cfg) : Ran Scannable (changesOf tr) start cfg.state := by
  induction hrun with
  | nil => rfl
  | @snoc tr cfg cfg' l hr hs ih =>
      rw [changesOf, List.flatMap_append, List.flatMap_singleton]
      refine Directory.ran_append.mpr ⟨cfg.state, ih, ?_⟩
      cases hs with
      | start q => rfl
      | act i q e k r lake hi hsem =>
          cases e with
          | write tx =>
              rcases hsem with ⟨rfl, hran⟩ | ⟨rfl, err, rfl, -⟩
              · exact hran
              · rfl
          | _ => exact hsem.1
      | env lake hfalse => exact hfalse.elim

/-! ## Nothing lost, doubled or merged -/

/-- The tables and views of one registry are those of an earlier one, where
the changes have taken them, and those the changes made. -/
structure Conserved (u : UnicodeData) (start stop : Registry) (cs : List LakeChange) : Prop where
  kept : ∀ kind ident, start.Has u kind ident → ∀ spot,
    Directory.follow cs (kind, ident.place) = some spot →
      ∃ ident', spot = (kind, ident'.place) ∧ stop.Has u kind ident'
  /-- What is gone was dropped, under the name it had by then. -/
  dropped : ∀ (kind : Tabular)
    (ident : TableIdent), Directory.follow cs (kind, ident.place) = none →
    ∃ cs₁ place cs₂, cs = cs₁ ++ .remove kind place :: cs₂ ∧
      Directory.follow cs₁ (kind, ident.place) = some (kind, place)
  apart : ∀ kind ident ident', start.Has u kind ident → start.Has u kind ident' → ∀ spot,
    Directory.follow cs (kind, ident.place) = some spot →
      Directory.follow cs (kind, ident'.place) = some spot → ident = ident'
  origin : ∀ kind ident', stop.Has u kind ident' →
    (∃ ident, start.Has u kind ident ∧
      Directory.follow cs (kind, ident.place) = some (kind, ident'.place)) ∨
    ∃ cs₁ c cs₂ place, cs = cs₁ ++ c :: cs₂ ∧ c.Makes (kind, place) ∧
      Directory.follow cs₂ (kind, place) = some (kind, ident'.place)

theorem TableIdent.place_injective {ident ident' : TableIdent} (h : ident.place = ident'.place) :
    ident = ident' := by
  rw [TableIdent.place, TableIdent.place, Prod.mk.injEq] at h
  rw [TableIdent.mk.injEq]
  exact h

theorem Conserved.of_ran {start stop : Registry} {cs : List LakeChange} (hstart : start.Named u)
    (hstop : stop.Named u) (hran : Ran Scannable cs (start.lake u) (stop.lake u)) :
    Conserved u start stop cs where
  kept kind ident hhas := by
    rintro ⟨kind', place⟩ hfollow
    obtain rfl : kind' = kind := Directory.follow_kind hfollow
    have hheld : (start.lake u).Holds (kind', ident.place) := hstart.has_iff.mpr hhas
    have hhas' : stop.Has u kind' ⟨place.1, place.2⟩ :=
      hstop.has_iff.mp (hran.follow_holds hheld hfollow)
    exact ⟨⟨place.1, place.2⟩, rfl, hhas'⟩
  dropped kind ident hfollow := by
    obtain ⟨cs₁, kind', place, cs₂, hcs, hfollow₁⟩ := Directory.follow_eq_none hfollow
    obtain rfl : kind' = kind := Directory.follow_kind hfollow₁
    exact ⟨cs₁, place, cs₂, hcs, hfollow₁⟩
  apart kind ident ident' hhas hhas' spot hfollow hfollow' := by
    have hheld : (start.lake u).Holds (kind, ident.place) := hstart.has_iff.mpr hhas
    have hheld' : (start.lake u).Holds (kind, ident'.place) := hstart.has_iff.mpr hhas'
    have hsame := hran.follow_injective hheld hheld' hfollow hfollow'
    exact TableIdent.place_injective (Prod.mk.inj hsame).2
  origin kind ident' hhas := by
    have hheld : (stop.lake u).Holds (kind, ident'.place) := hstop.has_iff.mpr hhas
    rcases hran.origin hheld with
      ⟨⟨kind', place⟩, hold, hfollow⟩ | ⟨cs₁, c, cs₂, ⟨kind', place⟩, hcs, hmakes, hfollow⟩
    · obtain rfl : kind = kind' := Directory.follow_kind hfollow
      have hhas' : start.Has u kind ⟨place.1, place.2⟩ := hstart.has_iff.mp hold
      exact Or.inl ⟨_, hhas', hfollow⟩
    · obtain rfl : kind = kind' := Directory.follow_kind hfollow
      exact Or.inr ⟨cs₁, c, cs₂, place, hcs, hmakes, hfollow⟩

/-- A table is created, and renamed by the next call. -/
def movedSchedule : List (Move (Request Iceberg.plain)) :=
  [.start (.createNamespace ["db".toList] ∅), .step 0,
    .start (.createTable ["db".toList] ⟨"t".toList, none, ()⟩), .step 1, .step 1, .step 1, .step 1,
    .step 1, .start (.renameTable ⟨["db".toList], "t".toList⟩ ⟨["db".toList], "s".toList⟩), .step 2,
    .step 2]

def tableMoved : List (RedbEvent Iceberg.plain) × RedbConfig Iceberg.plain :=
  runOf bucket (Env.empty Iceberg.plain) movedSchedule

theorem tableMoved_run : RedbRun bucket Registry.empty tableMoved.1 tableMoved.2 := runOf_run ..

theorem tableMoved_calls :
    ∀ call ∈ tableMoved.2.calls, call.request.Addressed UnicodeData.plain := by
  intro call hcall
  have hmem : call.request ∈ tableMoved.2.calls.map (·.request) := List.mem_map_of_mem hcall
  rw [tableMoved, runOf, Config.moves_requests] at hmem
  have hnamed : ∀ name : Text, validateName UnicodeData.plain name [] = .ok () →
      ValidIdent UnicodeData.plain ⟨["db".toList], name⟩ := fun _ hname =>
    ⟨validNamespace_db, .of_check hname⟩
  rcases List.mem_cons.mp hmem with h | hmem
  · rw [h]
    exact ⟨validNamespace_db, trivial⟩
  rcases List.mem_cons.mp hmem with h | hmem
  · rw [h]
    exact ⟨hnamed "t".toList (by decide), trivial⟩
  · rw [List.mem_singleton.mp hmem]
    exact ⟨hnamed "s".toList (by decide), validNamespace_db⟩

section

variable {c : Catalog} {start : Registry} {tr : List (RedbEvent ib)} {cfg : RedbConfig ib}

/-- Every interleaving of calls on the registry is that interleaving on its
lake, with the same answers to every call, and the lake in the end is what
the committed transactions make of the first, one after the other. -/
theorem redb_refines (hrun : RedbRun c start tr cfg) (hstart : start.Named u)
    (hcalls : ∀ call ∈ cfg.calls, call.request.Addressed u) :
    LakeRun c (start.lake u) (tr.map (Event.on (Registry.lake u))) (cfg.on (Registry.lake u)) ∧
      Ran Scannable (changesOf tr) (start.lake u) (cfg.state.lake u) := by
  obtain ⟨-, hlake⟩ := hrun.lake hstart hcalls
  have hran := hlake.ran
  rw [changesOf_on] at hran
  exact ⟨hlake, hran⟩

theorem redb_refines_moved :
    tableKey ⟨["db".toList], "s".toList⟩ ∈ tableMoved.2.state.tables ∧
      Ran Scannable (changesOf tableMoved.1) (Registry.empty.lake UnicodeData.plain)
        (tableMoved.2.state.lake UnicodeData.plain) :=
  ⟨by decide, (redb_refines tableMoved_run (.empty _) tableMoved_calls).2⟩

/-- In every run, each table and view is in the end where the committed
renames have taken it, unless it was dropped; two are never one; and each
one there was there, or was made by a create, a register or a first commit. -/
theorem tabulars_conserved (hrun : RedbRun c start tr cfg) (hstart : start.Named u)
    (hcalls : ∀ call ∈ cfg.calls, call.request.Addressed u) :
    Conserved u start cfg.state (changesOf tr) := by
  obtain ⟨hstop, hlake⟩ := hrun.lake hstart hcalls
  have hran := hlake.ran
  rw [changesOf_on] at hran
  exact .of_ran hstart hstop hran

theorem tabulars_conserved_moved :
    tableKey ⟨["db".toList], "s".toList⟩ ∈ tableMoved.2.state.tables ∧
      Conserved UnicodeData.plain Registry.empty tableMoved.2.state (changesOf tableMoved.1) :=
  ⟨by decide, tabulars_conserved tableMoved_run (.empty _) tableMoved_calls⟩

end

end Rustberg
