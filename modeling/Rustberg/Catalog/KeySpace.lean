import Rustberg.Catalog.Keys

/-!
# The keys of the registry as one space

Namespaces, tables and views are stored under texts joined by two separators.
`keySpace_exact` says what the keys of validated names are: one name a key,
the prefixes of a namespace exactly what lies directly in it and below it,
and its tables before its children.

The path of no levels is no `NamespaceIdent`, and has no child prefix.
-/

namespace Rustberg

/-- What a key stands for: a namespace, or a table or view. -/
inductive Keyed where
  | node (ns : NamespaceIdent)
  | leaf (ident : TableIdent)
  deriving DecidableEq

namespace Keyed

def key : Keyed → Text
  | node ns => namespaceKey ns
  | leaf ident => tableKey ident

/-- The namespace itself, or the one a table or view is in. -/
def within : Keyed → NamespaceIdent
  | node ns => ns
  | leaf ident => ident.namespc

/-- Every name passes validation. -/
def Named (u : UnicodeData) : Keyed → Prop
  | node ns => ∀ s ∈ ns, ValidName u s
  | leaf ident => (∀ s ∈ ident.namespc, ValidName u s) ∧ ValidName u ident.name

end Keyed

theorem tableKey_eq (ident : TableIdent) :
    tableKey ident = namespaceKey ident.namespc ++ nameSeparator :: ident.name := by
  rw [tableKey, List.append_assoc, List.singleton_append]

section

variable {u : UnicodeData} {ns ns' : NamespaceIdent} {k k' : Keyed}

theorem nameSeparator_notMem_namespaceKey (h : ∀ s ∈ ns, ValidName u s) :
    nameSeparator ∉ namespaceKey ns :=
  notMem_namespaceKey (by decide) fun s hs => (h s hs).nameSeparator_notMem

/-- Only the path of no levels has the empty key. -/
theorem namespaceKey_eq_nil (h : ∀ s ∈ ns, ValidName u s) (hkey : namespaceKey ns = []) :
    ns = [] := by
  by_contra hne
  obtain ⟨s, rest, rfl⟩ := List.exists_cons_of_ne_nil hne
  have hbelow := cons_namespaceKey hne
  rw [hkey, Text.below, List.flatMap_cons, List.cons_append, List.cons.injEq] at hbelow
  exact (h s List.mem_cons_self).ne_nil (List.append_eq_nil_iff.mp hbelow.2.symm).1

theorem namespaceKey_injective (h : ∀ s ∈ ns, ValidName u s) (h' : ∀ s ∈ ns', ValidName u s)
    (heq : namespaceKey ns = namespaceKey ns') : ns = ns' := by
  by_cases hne : ns = []
  · subst hne
    exact (namespaceKey_eq_nil h' heq.symm).symm
  by_cases hne' : ns' = []
  · subst hne'
    exact namespaceKey_eq_nil h heq
  · exact namespaceKey_inj ⟨hne, h⟩ ⟨hne', h'⟩ heq

theorem Keyed.Named.levels (h : k.Named u) : ∀ s ∈ k.within, ValidName u s := by
  cases k with
  | node ns => exact h
  | leaf ident => exact h.1

/-! ## What lies directly in a namespace -/

theorem tablePrefix_prefix_iff (hns : ∀ s ∈ ns, ValidName u s) (h : k.Named u) :
    tablePrefix ns <+: k.key ↔ ∃ name, k = .leaf ⟨ns, name⟩ := by
  cases k with
  | node ns' =>
      refine iff_of_false (fun hprefix => nameSeparator_notMem_namespaceKey h ?_) ?_
      · exact hprefix.subset (List.mem_append_right _ (List.mem_singleton_self _))
      · rintro ⟨name, hk⟩
        cases hk
  | leaf ident =>
      show namespaceKey ns ++ nameSeparator :: [] <+: tableKey ident ↔ _
      rw [tableKey_eq, Text.prefix_cons_iff (nameSeparator_notMem_namespaceKey hns)
        (nameSeparator_notMem_namespaceKey h.1)]
      constructor
      · rintro ⟨heq, -⟩
        obtain rfl := namespaceKey_injective h.1 hns heq
        exact ⟨ident.name, rfl⟩
      · rintro ⟨name, hk⟩
        cases hk
        exact ⟨rfl, List.nil_prefix⟩

theorem Keyed.key_injective (h : k.Named u) (h' : k'.Named u) (heq : k.key = k'.key) : k = k' := by
  cases k with
  | node ns =>
      cases k' with
      | node ns' => rw [namespaceKey_injective h h' heq]
      | leaf ident' =>
          have hprefix : tablePrefix ident'.namespc <+: (node ns).key := by
            rw [heq]
            exact (tablePrefix_prefix_iff h'.1 h').mpr ⟨_, rfl⟩
          obtain ⟨name, hk⟩ := (tablePrefix_prefix_iff h'.1 h).mp hprefix
          cases hk
  | leaf ident =>
      have hprefix : tablePrefix ident.namespc <+: k'.key := by
        rw [← heq]
        exact (tablePrefix_prefix_iff h.1 h).mpr ⟨_, rfl⟩
      obtain ⟨name, rfl⟩ := (tablePrefix_prefix_iff h.1 h').mp hprefix
      have hname : tablePrefix ident.namespc ++ ident.name = tablePrefix ident.namespc ++ name :=
        heq
      rw [← List.append_cancel_left hname]

/-! ## What lies below a namespace -/

/-- A beginning without the separator ends before it. -/
theorem prefix_append_cons_iff {p a b : Text} {c : Char} (h : c ∉ p) :
    p <+: a ++ c :: b ↔ p <+: a := by
  refine ⟨fun hprefix => ?_, fun hprefix => hprefix.trans (List.prefix_append _ _)⟩
  rcases List.prefix_or_prefix_of_prefix hprefix (List.prefix_append a (c :: b)) with hp | ⟨t, rfl⟩
  · exact hp
  · obtain ⟨r, hr⟩ := hprefix
    rw [List.append_assoc] at hr
    have hrest := List.append_cancel_left hr
    cases t with
    | nil => rw [List.append_nil]
    | cons x t =>
        obtain rfl : x = c := (List.cons.inj hrest).1
        exact absurd (List.mem_append_right _ List.mem_cons_self) h

theorem childPrefix_prefix_namespaceKey (hne : ns ≠ []) (hns : ∀ s ∈ ns, ValidName u s)
    (h : ∀ s ∈ ns', ValidName u s) :
    namespaceChildPrefix ns <+: namespaceKey ns' ↔ ∃ s rest, ns' = ns ++ s :: rest := by
  by_cases hne' : ns' = []
  · subst hne'
    refine iff_of_false (fun hprefix => ?_) ?_
    · exact List.append_ne_nil_of_right_ne_nil _ (List.cons_ne_nil _ _) (List.prefix_nil.mp hprefix)
    · rintro ⟨s, rest, hnil⟩
      exact List.append_ne_nil_of_right_ne_nil _ (List.cons_ne_nil _ _) hnil.symm
  have hsplit := Text.splitOn_prefix_iff (c := partSeparator) (s := namespaceKey ns)
    (t := namespaceKey ns')
  rw [splitOn_namespaceKey ⟨hne, hns⟩, splitOn_namespaceKey ⟨hne', h⟩] at hsplit
  constructor
  · intro hprefix
    obtain ⟨rest, rfl⟩ := hsplit.mpr (Or.inr hprefix)
    cases rest with
    | nil =>
        rw [List.append_nil] at hprefix
        have hlen := hprefix.length_le
        simp [namespaceChildPrefix] at hlen
    | cons s rest => exact ⟨s, rest, rfl⟩
  · rintro ⟨s, rest, rfl⟩
    rw [namespaceKey_append hne, namespaceChildPrefix, Text.below, List.flatMap_cons]
    exact ⟨s ++ Text.below partSeparator rest, by simp [Text.below]⟩

theorem childPrefix_prefix_iff (hne : ns ≠ []) (hns : ∀ s ∈ ns, ValidName u s) (h : k.Named u) :
    namespaceChildPrefix ns <+: k.key ↔ ∃ s rest, k.within = ns ++ s :: rest := by
  cases k with
  | node ns' => exact childPrefix_prefix_namespaceKey hne hns h
  | leaf ident =>
      have hnone : nameSeparator ∉ namespaceChildPrefix ns := by
        intro hmem
        rcases List.mem_append.mp hmem with hmem | hmem
        · exact nameSeparator_notMem_namespaceKey hns hmem
        · exact absurd (List.mem_singleton.mp hmem) (by decide)
      show namespaceChildPrefix ns <+: tableKey ident ↔ _
      rw [tableKey_eq, prefix_append_cons_iff hnone]
      exact childPrefix_prefix_namespaceKey hne hns h.1

theorem Keyed.key_eq (k : Keyed) : ∃ tail, k.key = namespaceKey k.within ++ tail := by
  cases k with
  | node ns => exact ⟨[], (List.append_nil _).symm⟩
  | leaf ident => exact ⟨_, tableKey_eq ident⟩

theorem ValidName.nameSeparator_lt {name : Text} (h : ValidName u name) {c : Char} (hc : c ∈ name) :
    nameSeparator < c := by
  have hother := h.facts.2.2.1 c hc
  by_contra hnot
  have hle : c.toNat ≤ 0x1E := Nat.not_lt.mp hnot
  rw [u.isOther_control c (by omega)] at hother
  cases hother

/-- A key below a namespace goes on, after it, above the name separator. -/
theorem exists_key_eq (h : k.Named u) {s : Text} {rest : NamespaceIdent}
    (hwithin : k.within = ns ++ s :: rest) :
    ∃ c more, nameSeparator < c ∧ k.key = namespaceKey ns ++ c :: more := by
  obtain ⟨tail, hkey⟩ := k.key_eq
  rw [hwithin] at hkey
  by_cases hne : ns = []
  · -- With no levels above, the key begins with the first name itself.
    subst hne
    have hs : ValidName u s := h.levels s (by rw [hwithin]; simp)
    obtain ⟨c, s', rfl⟩ := List.exists_cons_of_ne_nil hs.ne_nil
    have hbelow := cons_namespaceKey (List.cons_ne_nil (c :: s') rest)
    rw [Text.below, List.flatMap_cons, List.cons_append, List.cons.injEq] at hbelow
    refine ⟨c, s' ++ Text.below partSeparator rest ++ tail,
      hs.nameSeparator_lt List.mem_cons_self, ?_⟩
    rw [hkey, List.nil_append, hbelow.2]
    rfl
  · refine ⟨partSeparator, s ++ Text.below partSeparator rest ++ tail, by decide, ?_⟩
    rw [hkey, namespaceKey_append hne, Text.below, List.flatMap_cons]
    simp [Text.below]

/-- The tables and views of a namespace come before its children. -/
theorem tableKey_lt (h : k.Named u) {s : Text} {rest : NamespaceIdent}
    (hwithin : k.within = ns ++ s :: rest) (name : Text) : tableKey ⟨ns, name⟩ < k.key := by
  obtain ⟨c, more, hlt, hkey⟩ := exists_key_eq h hwithin
  rw [tableKey_eq, hkey, Text.append_lt_append_left]
  exact List.cons_lt_cons_iff.mpr (Or.inl hlt)

end

/-- The keys of validated names tell everything apart, a namespace's two
prefixes are exact, and its tables come before its children. -/
theorem keySpace_exact (u : UnicodeData) :
    (∀ k k' : Keyed, k.Named u → k'.Named u → k.key = k'.key → k = k') ∧
    ∀ ns : NamespaceIdent, (∀ s ∈ ns, ValidName u s) → ∀ k : Keyed, k.Named u →
      (tablePrefix ns <+: k.key ↔ ∃ name, k = .leaf ⟨ns, name⟩) ∧
      (ns ≠ [] → (namespaceChildPrefix ns <+: k.key ↔ ∃ s rest, k.within = ns ++ s :: rest)) ∧
      ∀ s rest name, k.within = ns ++ s :: rest → tableKey ⟨ns, name⟩ < k.key := by
  refine ⟨fun k k' h h' => Keyed.key_injective h h', fun ns hns k h =>
    ⟨tablePrefix_prefix_iff hns h, fun hne => childPrefix_prefix_iff hne hns h, ?_⟩⟩
  intro s rest name hwithin
  exact tableKey_lt h hwithin name

theorem keySpace_exact_eu : tableKey ⟨["sales".toList], "orders".toList⟩ <
    namespaceKey ["sales".toList, "eu".toList] := by
  have hvalid : ∀ s ∈ ["sales".toList, "eu".toList], ValidName .plain s :=
    List.forall_mem_cons.mpr ⟨.of_check rfl, List.forall_mem_singleton.mpr (.of_check rfl)⟩
  have hparent : ∀ s ∈ ["sales".toList], ValidName .plain s :=
    List.forall_mem_singleton.mpr (List.forall_mem_cons.mp hvalid).1
  obtain ⟨-, hexact⟩ := keySpace_exact .plain
  obtain ⟨-, -, hbefore⟩ := hexact _ hparent (.node ["sales".toList, "eu".toList]) hvalid
  exact hbefore _ [] _ rfl

end Rustberg
