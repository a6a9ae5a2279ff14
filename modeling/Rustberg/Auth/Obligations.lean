import Rustberg.Auth.Cedar

/-!
# Obligations in any order

Cedar names the policies that matched in no order, so `collect_obligations`
must not depend on one. `collectObligations_perm` is that, and with it what
each kind of obligation says of the permits as a set: a column is withheld
when every permit lists it, rows are not restricted when one permit has no
filter, and one more permit never restricts.
-/

namespace Rustberg.Auth

/-- The permit's `@column_mask` lists the column. -/
def Permit.Lists (permit : Permit) (column : Text) : Prop :=
  ∃ mask, permit.columnMask = some mask ∧ column ≠ [] ∧
    ∃ entry ∈ mask.splitOn ',', Text.trim entry = column

theorem mem_masks {permit : Permit} {column : Text} :
    column ∈ permit.masks ↔ permit.Lists column := by
  unfold Permit.masks Permit.Lists maskColumns
  cases permit.columnMask with
  | none => simp
  | some mask =>
      simp only [Option.map_some, Option.getD_some, List.mem_dedup, List.mem_filter, List.mem_map,
        Bool.not_eq_true', List.isEmpty_eq_false_iff, Option.some.injEq, exists_eq_left']
      exact and_comm

variable {fromStr : Text → Option Json}

/-- The filters that are left, as one expression in the permits. -/
theorem collectObligations_rowFilters (matched : List Permit) :
    (collectObligations fromStr matched).rowFilters =
      if ∃ permit ∈ matched, permit.rowFilter = none then []
      else matched.filterMap (Permit.predicate fromStr) := by
  have hfilters : (collectObligations fromStr matched).rowFilters =
      if !(unfiltered matched).isEmpty && !(matched.filterMap (Permit.predicate fromStr)).isEmpty
        then [] else matched.filterMap (Permit.predicate fromStr) := by
    simp only [collectObligations, Gathered.foldl_add, List.nil_append]
  rw [hfilters]
  by_cases hopen : ∃ permit ∈ matched, permit.rowFilter = none
  · have hsome : unfiltered matched ≠ [] := fun hnil => by
      obtain ⟨permit, hmem, hnone⟩ := hopen
      exact unfiltered_eq_nil.mp hnil permit hmem hnone
    rw [if_pos hopen]
    cases matched.filterMap (Permit.predicate fromStr) <;> simp [hsome]
  · have hnil : unfiltered matched = [] :=
      unfiltered_eq_nil.mpr fun permit hmem hnone => hopen ⟨permit, hmem, hnone⟩
    rw [if_neg hopen, hnil]
    rfl

theorem mem_columnMasks {matched : List Permit} {column : Text} :
    column ∈ (collectObligations fromStr matched).columnMasks ↔
      matched ≠ [] ∧ ∀ permit ∈ matched, permit.Lists column := by
  have hmasks : (collectObligations fromStr matched).columnMasks =
      (intersectAll (matched.map Permit.masks)).getD [] := by
    simp only [collectObligations, Gathered.foldl_add, List.nil_append]
  rw [hmasks]
  by_cases hne : matched = []
  · subst hne
    simp [intersectAll]
  · rw [mem_intersectAll (by simpa using hne), List.forall_mem_map]
    simp only [mem_masks, ne_eq, hne, not_false_eq_true, true_and]

/-- The order of the permits does not matter. -/
theorem collectObligations_perm {matched matched' : List Permit} (h : matched.Perm matched') :
    (collectObligations fromStr matched).rowFilters.Perm
        (collectObligations fromStr matched').rowFilters ∧
      ∀ column, column ∈ (collectObligations fromStr matched).columnMasks ↔
        column ∈ (collectObligations fromStr matched').columnMasks := by
  constructor
  · rw [collectObligations_rowFilters, collectObligations_rowFilters]
    have hopen : (∃ permit ∈ matched, permit.rowFilter = none) ↔
        ∃ permit ∈ matched', permit.rowFilter = none := by
      simp only [h.mem_iff]
    by_cases hnone : ∃ permit ∈ matched, permit.rowFilter = none
    · rw [if_pos hnone, if_pos (hopen.mp hnone)]
    · rw [if_neg hnone, if_neg (mt hopen.mpr hnone)]
      exact h.filterMap _
  · intro column
    simp only [mem_columnMasks, ne_eq, List.eq_nil_iff_forall_not_mem, h.mem_iff]

/-- No row is withheld. -/
def Obligations.Unrestricted (obligations : Obligations) : Prop := obligations.rowFilters = []

theorem permitsOf_perm {matched matched' : List (LoadedPermit fromStr)}
    (h : matched.Perm matched') :
    (permitsOf matched).Perm (permitsOf matched') := h.map _

/-- A filter that was loaded reads, so filters are left unless one permit has none. -/
theorem unrestricted_iff {matched : List (LoadedPermit fromStr)} (hne : matched ≠ []) :
    (collectObligations fromStr (permitsOf matched)).Unrestricted ↔
      ∃ permit ∈ permitsOf matched, permit.rowFilter = none := by
  rw [Obligations.Unrestricted, collectObligations_rowFilters]
  by_cases hopen : ∃ permit ∈ permitsOf matched, permit.rowFilter = none
  · exact iff_of_true (if_pos hopen) hopen
  · rw [if_neg hopen]
    refine iff_of_false (fun hnil => ?_) hopen
    obtain ⟨loaded, rest, rfl⟩ := List.exists_cons_of_ne_nil hne
    have hmem : loaded.toPermit ∈ permitsOf (loaded :: rest) := List.mem_cons_self ..
    obtain ⟨text, htext⟩ := Option.ne_none_iff_exists'.mp fun hnone => hopen ⟨_, hmem, hnone⟩
    obtain ⟨predicate, -, hpredicate⟩ := mem_permitsOf hmem htext
    exact List.not_mem_nil (hnil ▸ List.mem_filterMap.mpr ⟨_, hmem, hpredicate⟩)

/-- One more permit restricts nothing. -/
theorem collectObligations_mono {matched more : List Permit} (hne : matched ≠ []) :
    (∀ column, column ∈ (collectObligations fromStr (matched ++ more)).columnMasks →
        column ∈ (collectObligations fromStr matched).columnMasks) ∧
      ((collectObligations fromStr (matched ++ more)).Unrestricted ∨
        ∀ filter ∈ (collectObligations fromStr matched).rowFilters,
          filter ∈ (collectObligations fromStr (matched ++ more)).rowFilters) := by
  constructor
  · intro column h
    rw [mem_columnMasks] at h ⊢
    exact ⟨hne, fun permit hpermit => h.2 permit (List.mem_append_left _ hpermit)⟩
  · by_cases hopen : ∃ permit ∈ matched ++ more, permit.rowFilter = none
    · left
      rw [Obligations.Unrestricted, collectObligations_rowFilters, if_pos hopen]
    · right
      intro filter hfilter
      rw [collectObligations_rowFilters] at hfilter
      rw [collectObligations_rowFilters, if_neg hopen, List.filterMap_append]
      split at hfilter
      · cases hfilter
      · exact List.mem_append_left _ hfilter

/-- For the permits of a loaded policy set: neither kind of obligation
depends on their order, a column is masked when every one of them lists it,
rows are not restricted when one of them has no filter, and another permit
never restricts. -/
theorem collectObligations_order_free (fromStr : Text → Option Json)
    (matched : List (LoadedPermit fromStr)) (hne : matched ≠ []) :
    (∀ matched', matched.Perm matched' →
        (collectObligations fromStr (permitsOf matched)).rowFilters.Perm
            (collectObligations fromStr (permitsOf matched')).rowFilters ∧
          ∀ column, column ∈ (collectObligations fromStr (permitsOf matched)).columnMasks ↔
            column ∈ (collectObligations fromStr (permitsOf matched')).columnMasks) ∧
      (∀ column, column ∈ (collectObligations fromStr (permitsOf matched)).columnMasks ↔
        ∀ permit ∈ permitsOf matched, permit.Lists column) ∧
      ((collectObligations fromStr (permitsOf matched)).Unrestricted ↔
        ∃ permit ∈ permitsOf matched, permit.rowFilter = none) ∧
      ∀ more : List (LoadedPermit fromStr),
        (∀ column, column ∈ (collectObligations fromStr (permitsOf (matched ++ more))).columnMasks →
            column ∈ (collectObligations fromStr (permitsOf matched)).columnMasks) ∧
          ((collectObligations fromStr (permitsOf (matched ++ more))).Unrestricted ∨
            ∀ filter ∈ (collectObligations fromStr (permitsOf matched)).rowFilters,
              filter ∈ (collectObligations fromStr (permitsOf (matched ++ more))).rowFilters) := by
  have hne' : permitsOf matched ≠ [] := by simpa [permitsOf] using hne
  refine ⟨fun matched' h => collectObligations_perm (permitsOf_perm h), fun column => ?_,
    unrestricted_iff hne, fun more => ?_⟩
  · rw [mem_columnMasks, and_iff_right hne']
  · rw [permitsOf, List.map_append]
    exact collectObligations_mono hne'

/-- A mask of blanks and commas lists nothing, and so leaves nothing masked. -/
def hideNothing : LoadedPermit readEu where
  id := "policy2".toList
  rowFilter := some euText
  columnMask := some " , ,".toList
  rowFilter_reads := euRows.rowFilter_reads

theorem collectObligations_hideNothing :
    "ssn".toList ∉ (collectObligations readEu (permitsOf [hideSsn, hideNothing])).columnMasks ∧
      (collectObligations readEu (permitsOf [hideSsn, hideNothing])).Unrestricted ∧
      (collectObligations readEu (permitsOf [hideSsn, hideNothing])).rowFilters.Perm
        (collectObligations readEu (permitsOf [hideNothing, hideSsn])).rowFilters := by
  have hfree := collectObligations_order_free readEu [hideSsn, hideNothing] (by simp)
  refine ⟨fun hmask => ?_, hfree.2.2.1.mpr ⟨hideSsn.toPermit, List.mem_cons_self .., rfl⟩,
    (hfree.1 [hideNothing, hideSsn] (List.Perm.swap ..)).1⟩
  obtain ⟨mask, hmask, hne, entry, hentry, htrim⟩ := (hfree.2.1 _).mp hmask hideNothing.toPermit
    (List.mem_cons_of_mem _ (List.mem_cons_self ..))
  obtain rfl := Option.some.inj hmask
  have hblank : ∀ entry ∈ (" , ,".toList).splitOn ',', Text.trim entry = [] := by decide
  exact hne (htrim ▸ hblank entry hentry)

/-- Of no permit at all each lists every column, and nothing is masked. What
matched is gathered for an allow only, which some permit gave. -/
theorem noPermit_unmasked :
    ¬ ∀ (fromStr : Text → Option Json) (matched : List (LoadedPermit fromStr)),
      (∀ column, column ∈ (collectObligations fromStr (permitsOf matched)).columnMasks ↔
        ∀ permit ∈ permitsOf matched, permit.Lists column) ∧
      ((collectObligations fromStr (permitsOf matched)).Unrestricted ↔
        ∃ permit ∈ permitsOf matched, permit.rowFilter = none) := by
  intro hall
  obtain ⟨hmasks, -⟩ := hall readEu []
  have hmasked : "ssn".toList ∈ (collectObligations readEu (permitsOf [])).columnMasks :=
    (hmasks "ssn".toList).mpr fun permit hpermit => absurd hpermit List.not_mem_nil
  exact absurd hmasked List.not_mem_nil

end Rustberg.Auth
