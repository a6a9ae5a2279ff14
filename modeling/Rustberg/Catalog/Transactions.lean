import Rustberg.Catalog.Registry

/-!
# What a committed transaction did

One inversion lemma a transaction: when it commits, and the registry it
leaves. Everything later derives from these, and no later proof unfolds a
transaction.
-/

namespace Rustberg

variable {reg reg' : Registry}

@[simp] theorem Relation.getElem?_ne_none_iff {V : Type} {m : Relation V} {k : Text} :
    ¬ m[k]? = none ↔ k ∈ m := by
  rw [Relation.getElem?_eq_none_iff, not_not]

theorem rejectTakenName_eq_ok {key display : Text} :
    rejectTakenName reg key display = .ok () ↔ key ∉ reg.tables ∧ key ∉ reg.views := by
  have htaken : ((reg.tables[key]?).isSome || (reg.views[key]?).isSome) = true ↔
      key ∈ reg.tables ∨ key ∈ reg.views := by
    rw [Bool.or_eq_true, ← Std.ExtTreeMap.mem_iff_isSome_getElem?,
      ← Std.ExtTreeMap.mem_iff_isSome_getElem?]
  rw [← not_or, ← htaken, rejectTakenName]
  split
  · next h => exact iff_of_false (by simp) (not_not.mpr h)
  · next h => exact iff_of_true rfl h

theorem createNamespaceTx_eq_ok {ns : NamespaceIdent} {properties : Properties} :
    createNamespaceTx ns properties reg = .ok reg' ↔
      (1 < ns.length → namespaceKey ns.dropLast ∈ reg.namespaces) ∧
        namespaceKey ns ∉ reg.namespaces ∧
        reg' = { reg with
          namespaces := reg.namespaces.insert (namespaceKey ns) ⟨ns, properties⟩ } := by
  unfold createNamespaceTx
  rw [← List.dropLast_eq_take]
  by_cases hparent : 1 < ns.length ∧ reg.namespaces[namespaceKeyOf ns.dropLast]? = none
  · have : namespaceKey ns.dropLast ∉ reg.namespaces :=
      Relation.getElem?_eq_none_iff.mp hparent.2
    simp [hparent, this]
  · have hreg : 1 < ns.length → namespaceKey ns.dropLast ∈ reg.namespaces := fun h =>
      Relation.getElem?_ne_none_iff.mp fun hnone => hparent ⟨h, hnone⟩
    by_cases hkey : reg.namespaces[namespaceKey ns]? = none
    · rw [if_neg hparent, if_neg (not_not.mpr hkey), Except.ok.injEq, eq_comm]
      exact ⟨fun h => ⟨hreg, Relation.getElem?_eq_none_iff.mp hkey, h⟩, fun h => h.2.2⟩
    · rw [if_neg hparent, if_pos hkey]
      exact iff_of_false (by simp) fun h => h.2.1 (Relation.getElem?_ne_none_iff.mp hkey)

theorem updateNamespaceTx_eq_ok {ns : NamespaceIdent} {properties : Properties} :
    updateNamespaceTx ns properties reg = .ok reg' ↔
      namespaceKey ns ∈ reg.namespaces ∧
        reg' = { reg with
          namespaces := reg.namespaces.insert (namespaceKey ns) ⟨ns, properties⟩ } := by
  unfold updateNamespaceTx
  by_cases hkey : reg.namespaces[namespaceKey ns]? = none
  · simp [Relation.getElem?_eq_none_iff.mp hkey]
  · simp [Relation.getElem?_ne_none_iff.mp hkey, eq_comm]

theorem createTx_eq_ok {kind : Tabular} {ident : TableIdent} {metadataLocation display : Text} :
    createTx kind ident metadataLocation display reg = .ok reg' ↔
      tableKey ident ∉ reg.tables ∧ tableKey ident ∉ reg.views ∧
        reg' = reg.setTabulars kind ((reg.tabulars kind).insert (tableKey ident)
          ⟨ident.namespc, ident.name, metadataLocation, 0⟩) := by
  unfold createTx
  cases htaken : rejectTakenName reg (tableKey ident) display with
  | ok v =>
      obtain ⟨htables, hviews⟩ := rejectTakenName_eq_ok.mp htaken
      simp [htables, hviews, eq_comm]
  | error e =>
      refine iff_of_false (by simp) fun h => ?_
      rw [rejectTakenName_eq_ok.mpr ⟨h.1, h.2.1⟩] at htaken
      cases htaken

theorem dropTx_eq_ok {kind : Tabular} {ident : TableIdent} :
    dropTx kind ident reg = .ok reg' ↔
      tableKey ident ∈ reg.tabulars kind ∧
        reg' = reg.setTabulars kind ((reg.tabulars kind).erase (tableKey ident)) := by
  unfold dropTx
  by_cases hkey : (reg.tabulars kind)[tableKey ident]? = none
  · simp [Relation.getElem?_eq_none_iff.mp hkey]
  · simp [Relation.getElem?_ne_none_iff.mp hkey, eq_comm]

/-- A renamed record: same pointer, next version. -/
def TabularRecord.renamed (record : TabularRecord) (dest : TableIdent) : TabularRecord :=
  { record with namespc := dest.namespc, name := dest.name, version := record.version + 1 }

theorem renameTx_eq_ok {kind : Tabular} {src dest : TableIdent} :
    renameTx kind src dest reg = .ok reg' ↔
      ∃ record, (reg.tabulars kind)[tableKey src]? = some record ∧
        tableKey dest ∉ reg.tables ∧ tableKey dest ∉ reg.views ∧
        reg' = reg.setTabulars kind (((reg.tabulars kind).insert (tableKey dest)
          (record.renamed dest)).erase (tableKey src)) := by
  unfold renameTx
  cases hsrc : (reg.tabulars kind)[tableKey src]? with
  | none => simp
  | some record =>
      simp only [Option.some.injEq, exists_eq_left']
      generalize "Destination ".toList ++ kind.word ++ " already exists: ".toList ++ dest.display =
        display
      cases htaken : rejectTakenName reg (tableKey dest) display with
      | ok v =>
          obtain ⟨htables, hviews⟩ := rejectTakenName_eq_ok.mp htaken
          simp [htables, hviews, eq_comm, TabularRecord.renamed]
      | error e =>
          refine iff_of_false (by simp) fun h => ?_
          rw [rejectTakenName_eq_ok.mpr ⟨h.1, h.2.1⟩] at htaken
          cases htaken

theorem updateViewTx_eq_ok {view : TableIdent} {expected : UInt64}
    {expectedLocation newLocation : Text} :
    updateViewTx view expected expectedLocation newLocation reg = .ok reg' ↔
      ∃ live, reg.views[tableKey view]? = some live ∧ live.version = expected ∧
        live.metadataLocation = expectedLocation ∧
        reg' = { reg with views := reg.views.insert (tableKey view)
                            ⟨view.namespc, view.name, newLocation, expected + 1⟩ } := by
  unfold updateViewTx
  cases hview : reg.views[tableKey view]? with
  | none => simp
  | some live =>
      by_cases hlive : live.version ≠ expected ∨ live.metadataLocation ≠ expectedLocation
      · simp only [hlive, if_true, Option.some.injEq, exists_eq_left', reduceCtorEq, false_iff]
        rintro ⟨hv, hl, -⟩
        exact hlive.elim (absurd hv) (absurd hl)
      · obtain ⟨hv, hl⟩ := not_or.mp hlive
        simp [not_not.mp hv, not_not.mp hl, eq_comm]

/-- A swap that lands: over exactly the pointer and version it expected, or
where there is nothing yet. -/
theorem swapOne_eq_ok {swap : Swap} :
    swapOne reg swap = .ok reg' ↔
      (∃ expected current, swap.expected = some expected ∧
        reg.tables[tableKey swap.ident]? = some current ∧ current.version = expected.version ∧
        current.metadataLocation = expected.metadataLocation ∧
        reg' = { reg with tables := reg.tables.insert (tableKey swap.ident) swap.next }) ∨
      (swap.expected = none ∧ namespaceKey swap.ident.namespc ∈ reg.namespaces ∧
        tableKey swap.ident ∉ reg.views ∧ tableKey swap.ident ∉ reg.tables ∧
        reg' = { reg with tables := reg.tables.insert (tableKey swap.ident) swap.next
                          staged := reg.staged.erase (tableKey swap.ident) }) := by
  rw [swapOne]
  cases hexp : swap.expected with
  | some expected =>
      refine Iff.trans ?_ (or_iff_left fun h => by cases h.1).symm
      dsimp only
      cases hcur : reg.tables[tableKey swap.ident]? with
      | none => exact iff_of_false (fun h => by cases h) fun ⟨_, _, _, h, _⟩ => by cases h
      | some current =>
          dsimp only
          by_cases hne : current.version ≠ expected.version ∨
              current.metadataLocation ≠ expected.metadataLocation
          · rw [if_pos hne]
            refine iff_of_false (fun h => by cases h) ?_
            rintro ⟨_, _, ⟨⟩, ⟨⟩, hv, hl, -⟩
            exact hne.elim (absurd hv) (absurd hl)
          · rw [if_neg hne]
            obtain ⟨hv, hl⟩ := not_or.mp hne
            constructor
            · intro h
              exact ⟨expected, current, rfl, rfl, not_not.mp hv, not_not.mp hl,
                (Except.ok.inj h).symm⟩
            · rintro ⟨_, _, -, -, -, -, rfl⟩
              rfl
  | none =>
      refine Iff.trans ?_ (or_iff_right fun ⟨_, _, h, _⟩ => by cases h).symm
      dsimp only
      have hkey : namespaceKeyOf swap.ident.namespc = namespaceKey swap.ident.namespc := rfl
      rw [hkey]
      by_cases hns : reg.namespaces[namespaceKey swap.ident.namespc]? = none
      · rw [if_pos hns]
        exact iff_of_false (fun h => by cases h) fun h => Relation.getElem?_eq_none_iff.mp hns h.2.1
      rw [if_neg hns]
      by_cases hview : reg.views[tableKey swap.ident]? ≠ none
      · rw [if_pos hview]
        exact iff_of_false (fun h => by cases h) fun h =>
          h.2.2.1 (Relation.getElem?_ne_none_iff.mp hview)
      rw [if_neg hview]
      by_cases htable : reg.tables[tableKey swap.ident]? ≠ none
      · rw [if_pos htable]
        exact iff_of_false (fun h => by cases h) fun h =>
          h.2.2.2.1 (Relation.getElem?_ne_none_iff.mp htable)
      rw [if_neg htable]
      constructor
      · intro h
        exact ⟨rfl, Relation.getElem?_ne_none_iff.mp hns,
          Relation.getElem?_eq_none_iff.mp (not_not.mp hview),
          Relation.getElem?_eq_none_iff.mp (not_not.mp htable), (Except.ok.inj h).symm⟩
      · rintro ⟨-, -, -, -, rfl⟩
        rfl

/-- A swap fails as a conflict, or because a table cannot be created under its name. -/
theorem swapOne_eq_error {swap : Swap} {e : Error} (h : swapOne reg swap = .error e) :
    e.kind = .catalogCommitConflicts ∨ swap.expected = none ∧
      (namespaceKey swap.ident.namespc ∉ reg.namespaces ∨ tableKey swap.ident ∈ reg.views) := by
  unfold swapOne at h
  cases hexp : swap.expected with
  | some expected =>
      rw [hexp] at h
      simp only at h
      split at h
      · cases h
        exact Or.inl rfl
      · split at h
        · cases h
          exact Or.inl rfl
        · cases h
  | none =>
      rw [hexp] at h
      simp only at h
      split at h
      · next hns => exact Or.inr ⟨rfl, Or.inl (Relation.getElem?_eq_none_iff.mp hns)⟩
      · split at h
        · next hview =>
            exact Or.inr ⟨rfl, Or.inr (not_not.mp (mt Relation.getElem?_eq_none_iff.mpr hview))⟩
        · split at h
          · cases h
            exact Or.inl rfl
          · cases h

theorem swapTx_singleton {swap : Swap} : swapTx [swap] reg = swapOne reg swap := by
  rw [swapTx, List.foldlM_cons]
  cases swapOne reg swap <;> rfl

/-- What every swap keeps, the transaction keeps. -/
theorem swapTx_keeps {I : Registry → Prop} {swaps : List Swap}
    (hstep : ∀ swap ∈ swaps, ∀ reg reg', I reg → swapOne reg swap = .ok reg' → I reg')
    (h : I reg) (happly : swapTx swaps reg = .ok reg') : I reg' := by
  induction swaps generalizing reg with
  | nil =>
      obtain rfl : reg = reg' := by simpa [swapTx, pure, Except.pure] using happly
      exact h
  | cons swap swaps ih =>
      rw [swapTx, List.foldlM_cons] at happly
      cases hone : swapOne reg swap with
      | error e => rw [hone] at happly; cases happly
      | ok mid =>
          rw [hone] at happly
          exact ih (fun s hs => hstep s (List.mem_cons_of_mem _ hs))
            (hstep swap (List.mem_cons_self ..) reg mid h hone) happly

end Rustberg
