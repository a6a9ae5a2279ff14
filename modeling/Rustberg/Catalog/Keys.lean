import Rustberg.Catalog.Registry

/-!
# Keys of validated names

Neither separator can occur in a validated name, so a key determines the
identifier it was built from, and what lies under a namespace is what
starts with one of its two prefixes.

`Blind` is what a bounded scan does not see: a name that goes on after the
prefix at or above U+FFFF. `mem_keysIn_table` and `mem_keysIn_child` say
what the scans of the registry return.
-/

namespace Rustberg

variable {u : UnicodeData}

/-! ## Validated identifiers -/

/-- A namespace whose levels all pass validation. -/
def ValidNamespace (u : UnicodeData) (ns : NamespaceIdent) : Prop :=
  ns ≠ [] ∧ ∀ s ∈ ns, ValidName u s

structure ValidIdent (u : UnicodeData) (ident : TableIdent) : Prop where
  namespc : ValidNamespace u ident.namespc
  name : ValidName u ident.name

/-- Every key of the registry was built from validated names. -/
structure Registry.WellNamed (u : UnicodeData) (reg : Registry) : Prop where
  namespaces : ∀ key ∈ reg.namespaces, ∃ ns, ValidNamespace u ns ∧ key = namespaceKey ns
  tabulars : ∀ kind, ∀ key ∈ reg.tabulars kind, ∃ ident, ValidIdent u ident ∧ key = tableKey ident

theorem ValidNamespace.append {ns more : NamespaceIdent} (h : ValidNamespace u ns)
    (hmore : ∀ s ∈ more, ValidName u s) : ValidNamespace u (ns ++ more) :=
  ⟨by simp [h.1], fun s hs => (List.mem_append.mp hs).elim (h.2 s) (hmore s)⟩

/-! ## Reading a key back -/

theorem cons_namespaceKey {ns : NamespaceIdent} (h : ns ≠ []) :
    partSeparator :: namespaceKey ns = Text.below partSeparator ns := Text.cons_join h

/-- Below a namespace, a key goes on with one separator a level. -/
theorem namespaceKey_append {ns : NamespaceIdent} (h : ns ≠ []) (more : NamespaceIdent) :
    namespaceKey (ns ++ more) = namespaceKey ns ++ Text.below partSeparator more := by
  have hcons : partSeparator :: namespaceKey (ns ++ more) =
      partSeparator :: (namespaceKey ns ++ Text.below partSeparator more) := by
    rw [cons_namespaceKey (by simp [h]), ← List.cons_append, cons_namespaceKey h]
    simp [Text.below]
  exact List.tail_eq_of_cons_eq hcons

theorem splitOn_namespaceKey {ns : NamespaceIdent} (h : ValidNamespace u ns) :
    (namespaceKey ns).splitOn partSeparator = ns :=
  List.splitOn_intercalate partSeparator (fun s hs => (h.2 s hs).partSeparator_notMem) h.1

theorem namespaceKey_inj {ns ns' : NamespaceIdent} (h : ValidNamespace u ns)
    (h' : ValidNamespace u ns') (heq : namespaceKey ns = namespaceKey ns') : ns = ns' := by
  rw [← splitOn_namespaceKey h, heq, splitOn_namespaceKey h']

theorem notMem_namespaceKey {ns : NamespaceIdent} {c : Char} (hc : c ≠ partSeparator)
    (h : ∀ s ∈ ns, c ∉ s) : c ∉ namespaceKey ns := by
  by_cases hns : ns = []
  · subst hns; exact List.not_mem_nil
  · intro hmem
    have hbelow : c ∈ Text.below partSeparator ns := by
      rw [← cons_namespaceKey hns]
      exact List.mem_cons_of_mem _ hmem
    obtain ⟨s, hs, hcs⟩ := List.mem_flatMap.mp hbelow
    rcases List.mem_cons.mp hcs with rfl | hcs
    · exact hc rfl
    · exact h s hs hcs

theorem ValidNamespace.nameSeparator_notMem {ns : NamespaceIdent} (h : ValidNamespace u ns) :
    nameSeparator ∉ namespaceKey ns :=
  notMem_namespaceKey (by decide) fun s hs => (h.2 s hs).nameSeparator_notMem

theorem splitOnce_tableKey {ident : TableIdent} (h : ValidNamespace u ident.namespc) :
    Text.splitOnce nameSeparator (tableKey ident) = some (namespaceKey ident.namespc, ident.name) :=
  Text.splitOnce_eq_some.mpr ⟨by simp [tableKey], h.nameSeparator_notMem⟩

theorem tableKey_inj {ident ident' : TableIdent} (h : ValidNamespace u ident.namespc)
    (h' : ValidNamespace u ident'.namespc) (heq : tableKey ident = tableKey ident') :
    ident = ident' := by
  have hsplit := splitOnce_tableKey h
  rw [heq, splitOnce_tableKey h'] at hsplit
  obtain ⟨hns, hname⟩ : namespaceKey ident'.namespc = namespaceKey ident.namespc ∧
      ident'.name = ident.name := by simpa using hsplit
  have hnamespc := namespaceKey_inj h' h hns
  cases ident; cases ident'
  simp_all

theorem depthOf_namespaceKey {ns : NamespaceIdent} (h : ValidNamespace u ns) :
    depthOf (namespaceKey ns) = ns.length := by
  have hcount : (partSeparator :: namespaceKey ns).count partSeparator = ns.length := by
    rw [cons_namespaceKey h.1, Text.below, List.count_flatMap]
    have hone : ∀ s ∈ ns, (List.count partSeparator ∘ fun x => partSeparator :: x) s = 1 :=
      fun s hs => by
        simp [List.count_eq_zero_of_not_mem (h.2 s hs).partSeparator_notMem]
    rw [List.map_congr_left hone]
    simp
  simpa [depthOf] using hcount

/-! ## What a bounded scan sees -/

/-- A name no scan sees: it begins above U+FFFF, the bound every prefix scan
appends. -/
def Blind (name : Text) : Prop := ∃ c ∈ name.head?, 0xFFFF < c.toNat

instance (name : Text) : Decidable (Blind name) :=
  decidable_of_iff (name.head?.any (0xFFFF < ·.toNat) = true) (by simp [Blind, Option.any_eq_true])

theorem lt_bound_iff {c : Char} : c < Char.ofNat 0xFFFF ↔ c.toNat < 0xFFFF := Iff.rfl

theorem ValidName.not_blind_iff {name : Text} (h : ValidName u name) (rest : Text) :
    (∀ x ∈ (name ++ rest).head?, x < Char.ofNat 0xFFFF) ↔ ¬ Blind name := by
  obtain ⟨c, name, rfl⟩ := List.exists_cons_of_ne_nil h.ne_nil
  have hc : c.toNat ≠ 0xFFFF := fun heq => h.nonchar_notMem (by
    rw [← heq, Char.ofNat_toNat]
    exact List.mem_cons_self ..)
  simp only [List.cons_append, List.head?_cons, Option.mem_def, Option.some.injEq, forall_eq',
    lt_bound_iff, Blind, exists_eq_left']
  omega

section

variable {reg : Registry} {ns : NamespaceIdent}

theorem tableKey_eq_prefix {ident : TableIdent} {r : Text} (hident : ValidIdent u ident)
    (hns : ValidNamespace u ns) (h : tableKey ident = tablePrefix ns ++ r) :
    ident = ⟨ns, r⟩ :=
  have hns' : ValidNamespace u (⟨ns, r⟩ : TableIdent).namespc := hns
  tableKey_inj hident.namespc hns' h

theorem mem_keysIn_table (hreg : reg.WellNamed u) (hns : ValidNamespace u ns) {kind : Tabular}
    {key : Text} :
    key ∈ Relation.keysIn (reg.tabulars kind) (tablePrefix ns) (prefixEnd (tablePrefix ns)) ↔
      ∃ name, ValidName u name ∧ ¬ Blind name ∧ key = tableKey ⟨ns, name⟩ ∧
        key ∈ reg.tabulars kind := by
  rw [prefixEnd, Relation.mem_keysIn_prefix]
  constructor
  · rintro ⟨hmem, r, rfl, hr⟩
    obtain ⟨ident, hident, hkey⟩ := hreg.tabulars kind _ hmem
    obtain rfl := tableKey_eq_prefix hident hns hkey.symm
    rw [← List.append_nil r, hident.name.not_blind_iff] at hr
    exact ⟨r, hident.name, hr, rfl, hmem⟩
  · rintro ⟨name, hname, hblind, rfl, hmem⟩
    refine ⟨hmem, name, rfl, ?_⟩
    rwa [← List.append_nil name, hname.not_blind_iff]

/-- The prefix of the children of `parent`, or of every namespace. -/
def childrenPrefix : Option NamespaceIdent → Text
  | some p => namespaceChildPrefix p
  | none => []

/-- A parent to list below: a validated namespace, or none. -/
def ValidParent (u : UnicodeData) (parent : Option NamespaceIdent) : Prop :=
  ∀ p ∈ parent, ValidNamespace u p

theorem namespaceKey_child {parent : Option NamespaceIdent} (hparent : ValidParent u parent)
    (s : Text) (rest : NamespaceIdent) :
    namespaceKey (parent.getD [] ++ s :: rest) =
      childrenPrefix parent ++ (s ++ Text.below partSeparator rest) := by
  cases parent with
  | none =>
      have := namespaceKey_append (List.cons_ne_nil s []) rest
      simpa [childrenPrefix, namespaceKey, namespaceKeyOf, Text.join] using this
  | some p =>
      rw [Option.getD_some, namespaceKey_append (hparent p rfl).1]
      simp [childrenPrefix, namespaceChildPrefix, Text.below]

theorem mem_keysIn_child (hreg : reg.WellNamed u) {parent : Option NamespaceIdent}
    (hparent : ValidParent u parent) {key : Text} :
    key ∈ Relation.keysIn reg.namespaces (childrenPrefix parent)
        (prefixEnd (childrenPrefix parent)) ↔
      ∃ s rest, (∀ t ∈ s :: rest, ValidName u t) ∧ ¬ Blind s ∧
        key = namespaceKey (parent.getD [] ++ s :: rest) ∧ key ∈ reg.namespaces := by
  rw [prefixEnd, Relation.mem_keysIn_prefix]
  constructor
  · rintro ⟨hmem, r, rfl, hr⟩
    obtain ⟨ns, hns, hkey⟩ := hreg.namespaces _ hmem
    have hsplit : ns = parent.getD [] ++ r.splitOn partSeparator := by
      rw [← splitOn_namespaceKey hns, ← hkey]
      cases parent with
      | none => rfl
      | some p =>
          rw [childrenPrefix, namespaceChildPrefix, List.append_assoc, List.singleton_append,
            List.splitOn_append_cons_self, splitOn_namespaceKey (hparent p rfl)]
          rfl
    obtain ⟨s, rest, hcons⟩ := List.exists_cons_of_ne_nil (List.splitOn_ne_nil partSeparator r)
    rw [hcons] at hsplit
    have hvalid : ∀ t ∈ s :: rest, ValidName u t := fun t ht =>
      hns.2 t (by rw [hsplit]; exact List.mem_append_right _ ht)
    have hr' : r = s ++ Text.below partSeparator rest := by
      rw [hsplit, namespaceKey_child hparent] at hkey
      exact List.append_cancel_left hkey
    rw [hr', (hvalid s (List.mem_cons_self ..)).not_blind_iff] at hr
    exact ⟨s, rest, hvalid, hr, by rw [← hsplit]; exact hkey, hmem⟩
  · rintro ⟨s, rest, hvalid, hblind, hkey, hmem⟩
    refine ⟨hmem, _, hkey.trans (namespaceKey_child hparent s rest), ?_⟩
    rwa [(hvalid s (List.mem_cons_self ..)).not_blind_iff]

end

end Rustberg
