import Rustberg.Catalog.Keys
import Rustberg.Catalog.Semantics

/-!
# Dropping a namespace

`drop_namespace` decides emptiness with three bounded range scans. What
it does is said once (`dropNamespaceTx_eq_ok`): it goes through exactly
when the namespace is registered and no scan sees anything. A scan sees
everything under the namespace except what begins above U+FFFF (`Blind`),
so the drop orphans content exactly when all of it is blind.
-/

namespace Rustberg

/-! ## What is registered -/

def Registry.HasNamespace (u : UnicodeData) (reg : Registry) (ns : NamespaceIdent) : Prop :=
  ValidNamespace u ns ∧ namespaceKey ns ∈ reg.namespaces

def Registry.Has (u : UnicodeData) (reg : Registry) (kind : Tabular) (ident : TableIdent) : Prop :=
  ValidIdent u ident ∧ tableKey ident ∈ reg.tabulars kind

/-- Something lies strictly under `ns`: a deeper namespace, or a table or
view of `ns` or of a namespace below it. -/
def Beneath (u : UnicodeData) (ns : NamespaceIdent) (reg : Registry) : Prop :=
  (∃ child, reg.HasNamespace u child ∧ ns <+: child ∧ child ≠ ns) ∨
    ∃ kind ident, reg.Has u kind ident ∧ ns <+: ident.namespc

/-- A scan of `drop_namespace` meets something: a table or view of `ns`
itself, or a namespace below it, whose next name is not blind. -/
def Seen (u : UnicodeData) (ns : NamespaceIdent) (reg : Registry) : Prop :=
  (∃ kind name, reg.Has u kind ⟨ns, name⟩ ∧ ¬ Blind name) ∨
    ∃ s rest, reg.HasNamespace u (ns ++ s :: rest) ∧ ¬ Blind s

variable {u : UnicodeData} {ns : NamespaceIdent} {reg reg' : Registry}

theorem Seen.beneath (h : Seen u ns reg) : Beneath u ns reg := by
  rcases h with ⟨kind, name, h, -⟩ | ⟨s, rest, h, -⟩
  · exact Or.inr ⟨kind, ⟨ns, name⟩, h, List.prefix_rfl⟩
  · exact Or.inl ⟨_, h, List.prefix_append .., by simp⟩

/-! ## The transaction -/

/-- The tables, views and child namespaces the three scans return. -/
def dropScans (ns : NamespaceIdent) (reg : Registry) : List Text :=
  Relation.keysIn reg.tables (tablePrefix ns) (prefixEnd (tablePrefix ns)) ++
    Relation.keysIn reg.views (tablePrefix ns) (prefixEnd (tablePrefix ns)) ++
    Relation.keysIn reg.namespaces (namespaceChildPrefix ns) (prefixEnd (namespaceChildPrefix ns))

theorem dropNamespaceTx_eq_ok :
    dropNamespaceTx ns reg = .ok reg' ↔
      namespaceKey ns ∈ reg.namespaces ∧ dropScans ns reg = [] ∧
        reg' = { reg with
          namespaces := reg.namespaces.erase (namespaceKey ns)
          staged := (Relation.keysIn reg.staged (tablePrefix ns) (prefixEnd (tablePrefix ns))).foldl
            (fun staged key => staged.erase key) reg.staged } := by
  unfold dropNamespaceTx dropScans
  by_cases hkey : reg.namespaces[namespaceKey ns]? = none
  · simp [Relation.getElem?_eq_none_iff.mp hkey]
  · have hmem : namespaceKey ns ∈ reg.namespaces :=
      not_not.mp fun h => hkey (Relation.getElem?_eq_none_iff.mpr h)
    by_cases htables : Relation.keysIn reg.tables (tablePrefix ns) (prefixEnd (tablePrefix ns)) = []
    · by_cases hviews : Relation.keysIn reg.views (tablePrefix ns) (prefixEnd (tablePrefix ns)) = []
      · by_cases hchild : Relation.keysIn reg.namespaces (namespaceChildPrefix ns)
            (prefixEnd (namespaceChildPrefix ns)) = []
        · simp [hmem, htables, hviews, hchild, eq_comm]
        · simp [hkey, htables, hviews, hchild]
      · simp [hkey, htables, hviews]
    · simp [hkey, htables]

theorem dropScans_eq_nil (hreg : reg.WellNamed u) (hns : ValidNamespace u ns) :
    dropScans ns reg = [] ↔ ¬ Seen u ns reg := by
  have hparent : ValidParent u (some ns) := fun p hp => by
    obtain rfl : ns = p := by simpa using hp
    exact hns
  constructor
  · intro hnil hseen
    simp only [dropScans, List.append_eq_nil_iff] at hnil
    obtain ⟨⟨htables, hviews⟩, hchild⟩ := hnil
    rcases hseen with ⟨kind, name, ⟨hident, hmem⟩, hblind⟩ | ⟨s, rest, ⟨hvalid, hmem⟩, hblind⟩
    · have hkey := (mem_keysIn_table hreg hns).mpr ⟨name, hident.name, hblind, rfl, hmem⟩
      cases kind with
      | table => exact List.not_mem_nil (htables ▸ hkey)
      | view => exact List.not_mem_nil (hviews ▸ hkey)
    · have hkey := (mem_keysIn_child hreg hparent).mpr
        ⟨s, rest, fun t ht => hvalid.2 t (List.mem_append_right _ ht), hblind, rfl, hmem⟩
      exact List.not_mem_nil (hchild ▸ hkey)
  · intro hseen
    rw [List.eq_nil_iff_forall_not_mem]
    intro key hkey
    have hkind : ∀ kind, key ∉ Relation.keysIn (reg.tabulars kind) (tablePrefix ns)
        (prefixEnd (tablePrefix ns)) := fun kind hkey => by
      obtain ⟨name, hname, hblind, rfl, hmem⟩ := (mem_keysIn_table hreg hns).mp hkey
      exact hseen (Or.inl ⟨kind, name, ⟨⟨hns, hname⟩, hmem⟩, hblind⟩)
    rcases List.mem_append.mp hkey with hkey | hkey
    · rcases List.mem_append.mp hkey with hkey | hkey
      · exact hkind .table hkey
      · exact hkind .view hkey
    · obtain ⟨s, rest, hvalid, hblind, rfl, hmem⟩ := (mem_keysIn_child hreg hparent).mp hkey
      exact hseen (Or.inr ⟨s, rest, ⟨hns.append hvalid, hmem⟩, hblind⟩)

/-! ## When a drop orphans nothing -/

/-- A drop that succeeds leaves nothing under the namespace, and one that
fails leaves all four relations as they were. -/
def NeverOrphans (u : UnicodeData) (ns : NamespaceIdent) (reg : Registry) : Prop :=
  ∀ r reg', Commits (.dropNamespace ns) reg r reg' →
    (r = .ok () → ¬ Beneath u ns reg) ∧ (r ≠ .ok () → reg' = reg)

theorem neverOrphans_iff (u : UnicodeData) (ns : NamespaceIdent) (reg : Registry)
    (hreg : reg.WellNamed u) (hns : ValidNamespace u ns) :
    NeverOrphans u ns reg ↔
      ¬ reg.HasNamespace u ns ∨ ¬ Beneath u ns reg ∨ Seen u ns reg := by
  constructor
  · intro hsafe
    by_contra hcon
    obtain ⟨hhas, hbeneath, hseen⟩ : reg.HasNamespace u ns ∧ Beneath u ns reg ∧
      ¬ Seen u ns reg := by
      simpa only [not_or, not_not] using hcon
    have hok := dropNamespaceTx_eq_ok.mpr
      ⟨hhas.2, (dropScans_eq_nil hreg hns).mpr hseen, rfl⟩
    exact (hsafe _ _ (.committed hok)).1 rfl hbeneath
  · intro hcond r reg' hc
    refine ⟨fun hr hbeneath => ?_, fun hr => ?_⟩
    · subst hr
      cases hc with
      | committed h =>
          obtain ⟨hmem, hscans, -⟩ := dropNamespaceTx_eq_ok.mp h
          have hseen := (dropScans_eq_nil hreg hns).mp hscans
          rcases hcond with h | h | h
          · exact h ⟨hns, hmem⟩
          · exact h hbeneath
          · exact hseen h
    · cases hc with
      | committed h => exact absurd rfl hr
      | aborted h => rfl
      | failed h => rfl

/-! ## A table the drop does not see -/

/-- A table called U+1F600. -/
def blindIdent : TableIdent := ⟨["db".toList], [Char.ofNat 0x1F600]⟩

/-- A namespace `db` that holds one table, `blindIdent`. -/
def blindRegistry : Registry :=
  { Registry.empty with
    namespaces := (∅ : Relation NamespaceRecord).insert "db".toList ⟨["db".toList], ∅⟩
    tables := (∅ : Relation TabularRecord).insert (tableKey blindIdent)
      ⟨blindIdent.namespc, blindIdent.name, "s3://bucket/m.json".toList, 0⟩ }

theorem validNamespace_db : ValidNamespace UnicodeData.plain ["db".toList] :=
  ⟨by simp, by simpa using .of_check (by decide)⟩

theorem validIdent_blindIdent : ValidIdent UnicodeData.plain blindIdent :=
  ⟨validNamespace_db, .of_check (by decide)⟩

theorem blindRegistry_wellNamed : blindRegistry.WellNamed UnicodeData.plain where
  namespaces key hkey := by
    rcases (Relation.mem_insert _).mp hkey with rfl | hkey
    · exact ⟨_, validNamespace_db, rfl⟩
    · exact absurd hkey Std.ExtTreeMap.not_mem_empty
  tabulars kind key hkey := by
    cases kind with
    | table =>
        rcases (Relation.mem_insert _).mp hkey with rfl | hkey
        · exact ⟨_, validIdent_blindIdent, rfl⟩
        · exact absurd hkey Std.ExtTreeMap.not_mem_empty
    | view => exact absurd hkey Std.ExtTreeMap.not_mem_empty

theorem neverOrphans_iff_blindRegistry :
    NeverOrphans UnicodeData.plain ["db".toList] blindRegistry ↔
      ¬ blindRegistry.HasNamespace UnicodeData.plain ["db".toList] ∨
        ¬ Beneath UnicodeData.plain ["db".toList] blindRegistry ∨
        Seen UnicodeData.plain ["db".toList] blindRegistry :=
  neverOrphans_iff _ _ _ blindRegistry_wellNamed validNamespace_db

theorem dropNamespace_orphans :
    ¬ ∀ (u : UnicodeData) (ns : NamespaceIdent) (reg : Registry),
      reg.WellNamed u → ValidNamespace u ns → NeverOrphans u ns reg := by
  intro hall
  have hsafe := hall _ _ _ blindRegistry_wellNamed validNamespace_db
  have hok : dropNamespaceTx ["db".toList] blindRegistry = .ok _ :=
    dropNamespaceTx_eq_ok.mpr ⟨by decide, by decide, rfl⟩
  have hhas : blindRegistry.Has UnicodeData.plain .table blindIdent :=
    ⟨validIdent_blindIdent, by decide⟩
  exact (hsafe _ _ (.committed hok)).1 rfl (Or.inr ⟨_, _, hhas, List.prefix_rfl⟩)

end Rustberg
