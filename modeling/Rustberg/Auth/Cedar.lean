import Rustberg.Auth.Authz

/-!
# Obligations of the policies that matched

`collect_obligations` of `auth/cedar.rs`. A permit carries its
restrictions as two annotations, a row filter and a column mask; row
filters are united and masks intersected, each kind by itself.

Read as sets of cells, a permit grants the rows its filter admits times
the columns it does not mask, and `collectObligations_visible` is what
the two rules make of several permits: the union of their rows times the
union of their columns. That product is more than the union of the
products (`obligations_widen`), unless a row one permit admits and a
column another leaves unmasked always meet in one of them.
-/

namespace Rustberg.Auth

/-- A permit as the policy set holds it: its id and its two annotations. -/
structure Permit where
  id : Text
  rowFilter : Option Text
  columnMask : Option Text

/-- A permit of a loaded policy set: `fromStr` is `serde_json::from_str`, and a
row filter it does not read has been refused at load. -/
structure LoadedPermit (fromStr : Text → Option Json) extends Permit where
  rowFilter_reads : ∀ text, rowFilter = some text → (fromStr text).isSome

/-- The columns of a mask annotation; empty entries are dropped. -/
def maskColumns (mask : Text) : List Text :=
  (((mask.splitOn ',').map Text.trim).filter fun column => !column.isEmpty).dedup

/-- What the loop over the matched policies has gathered so far. -/
structure Gathered where
  rowFilters : List Json
  maskSets : List (List Text)
  unfilteredPermits : List Text

/-- One matched policy. -/
def Gathered.add (fromStr : Text → Option Json) (g : Gathered) (permit : Permit) : Gathered :=
  let g := match permit.rowFilter with
    | some filter =>
        match fromStr filter with
        | some predicate => { g with rowFilters := g.rowFilters ++ [predicate] }
        | none => g
    | none => { g with unfilteredPermits := g.unfilteredPermits ++ [permit.id] }
  match permit.columnMask with
  | some mask => { g with maskSets := g.maskSets ++ [maskColumns mask] }
  | none => { g with maskSets := g.maskSets ++ [[]] }

/-- `Iterator::reduce` with the intersection of two sets. -/
def intersectAll : List (List Text) → Option (List Text)
  | [] => none
  | first :: rest => some (rest.foldl (fun acc next => acc.filter (next.contains ·)) first)

def collectObligations (fromStr : Text → Option Json) (matched : List Permit) : Obligations :=
  let g := matched.foldl (Gathered.add fromStr) ⟨[], [], []⟩
  -- An unannotated permit grants every row, so it voids the filters of the others.
  let rowFilters :=
    if !g.unfilteredPermits.isEmpty && !g.rowFilters.isEmpty then [] else g.rowFilters
  ⟨rowFilters, (intersectAll g.maskSets).getD []⟩

/-! ## What the loop gathers -/

/-- The filter a permit contributes. -/
def Permit.predicate (fromStr : Text → Option Json) (permit : Permit) : Option Json :=
  permit.rowFilter.bind fromStr

/-- The columns a permit withholds. -/
def Permit.masks (permit : Permit) : List Text := (permit.columnMask.map maskColumns).getD []

/-- The ids of the permits without a row filter. -/
def unfiltered (matched : List Permit) : List Text :=
  (matched.filter fun permit => permit.rowFilter.isNone).map Permit.id

variable {fromStr : Text → Option Json}

theorem Gathered.add_eq (g : Gathered) (permit : Permit) :
    g.add fromStr permit =
      ⟨g.rowFilters ++ (permit.predicate fromStr).toList, g.maskSets ++ [permit.masks],
        g.unfilteredPermits ++ unfiltered [permit]⟩ := by
  obtain ⟨id, rowFilter, columnMask⟩ := permit
  unfold Gathered.add Permit.predicate Permit.masks unfiltered
  cases columnMask with
  | none =>
      cases rowFilter with
      | none => simp
      | some filter => cases h : fromStr filter <;> simp [h]
  | some mask =>
      cases rowFilter with
      | none => simp
      | some filter => cases h : fromStr filter <;> simp [h]

theorem Gathered.foldl_add (g : Gathered) (matched : List Permit) :
    matched.foldl (Gathered.add fromStr) g =
      ⟨g.rowFilters ++ matched.filterMap (Permit.predicate fromStr),
        g.maskSets ++ matched.map Permit.masks, g.unfilteredPermits ++ unfiltered matched⟩ := by
  induction matched generalizing g with
  | nil => simp [unfiltered]
  | cons permit matched ih =>
      rw [List.foldl_cons, ih, Gathered.add_eq]
      have hunfiltered :
        unfiltered (permit :: matched) = unfiltered [permit] ++ unfiltered matched := by
        simp only [unfiltered, ← List.map_append, ← List.filter_append, List.singleton_append]
      rw [hunfiltered]
      cases h : permit.predicate fromStr <;> simp [h]

theorem unfiltered_eq_nil {matched : List Permit} :
    unfiltered matched = [] ↔ ∀ permit ∈ matched, permit.rowFilter ≠ none := by
  simp [unfiltered, List.filter_eq_nil_iff]

theorem mem_intersectAll {sets : List (List Text)} (hne : sets ≠ []) {column : Text} :
    column ∈ (intersectAll sets).getD [] ↔ ∀ columns ∈ sets, column ∈ columns := by
  obtain ⟨first, rest, rfl⟩ := List.exists_cons_of_ne_nil hne
  change column ∈ rest.foldl (fun acc next => acc.filter (next.contains ·)) first ↔ _
  clear hne
  induction rest generalizing first with
  | nil => simp
  | cons next rest ih =>
      rw [List.foldl_cons, ih]
      simp [and_assoc]

/-! ## Permits and obligations as sets of cells -/

variable {Row : Type}

/-- The rows a permit grants; `holds` says on which rows a filter is true. -/
def Permit.AdmitsRow (fromStr : Text → Option Json) (holds : Json → Row → Prop) (permit : Permit)
    (row : Row) : Prop :=
  match permit.rowFilter with
  | none => True
  | some filter => ∃ predicate, fromStr filter = some predicate ∧ holds predicate row

/-- The cells a permit grants. -/
def Permit.Grants (fromStr : Text → Option Json) (holds : Json → Row → Prop) (permit : Permit)
    (row : Row) (column : Text) : Prop :=
  permit.AdmitsRow fromStr holds row ∧ column ∉ permit.masks

/-- The cells left visible: the row passes one of the filters, or there is
none, and the column is not masked. -/
def Obligations.Visible (holds : Json → Row → Prop) (obligations : Obligations) (row : Row)
    (column : Text) : Prop :=
  (obligations.rowFilters = [] ∨ ∃ filter ∈ obligations.rowFilters, holds filter row) ∧
    column ∉ obligations.columnMasks

/-- The policies that matched, as `collectObligations` takes them. -/
def permitsOf (matched : List (LoadedPermit fromStr)) : List Permit :=
  matched.map LoadedPermit.toPermit

theorem mem_permitsOf {matched : List (LoadedPermit fromStr)} {permit : Permit}
    (h : permit ∈ permitsOf matched) {text : Text} (htext : permit.rowFilter = some text) :
    ∃ predicate, fromStr text = some predicate ∧ permit.predicate fromStr = some predicate := by
  obtain ⟨loaded, -, rfl⟩ := List.mem_map.mp h
  obtain ⟨predicate, hpredicate⟩ := Option.isSome_iff_exists.mp (loaded.rowFilter_reads text htext)
  exact ⟨predicate, hpredicate, by rw [Permit.predicate, htext, Option.bind_some, hpredicate]⟩

/-- The rows pass where one permit admits them. -/
theorem collectObligations_rows (holds : Json → Row → Prop) {matched : List (LoadedPermit fromStr)}
    (hne : matched ≠ []) (row : Row) :
    let filters := (collectObligations fromStr (permitsOf matched)).rowFilters
    (filters = [] ∨ ∃ filter ∈ filters, holds filter row) ↔
      ∃ permit ∈ permitsOf matched, permit.AdmitsRow fromStr holds row := by
  intro filters
  have hfilters : filters = if !(unfiltered (permitsOf matched)).isEmpty &&
        !((permitsOf matched).filterMap (Permit.predicate fromStr)).isEmpty then []
      else (permitsOf matched).filterMap (Permit.predicate fromStr) := by
    simp only [filters, collectObligations, Gathered.foldl_add, List.nil_append]
  by_cases hall : ∀ permit ∈ permitsOf matched, permit.rowFilter ≠ none
  · -- Every permit filters: the disjunction of their filters stands.
    rw [unfiltered_eq_nil.mpr hall] at hfilters
    have hfilters : filters = (permitsOf matched).filterMap (Permit.predicate fromStr) := by
      simpa using hfilters
    have hsome : filters ≠ [] := by
      obtain ⟨loaded, rest, rfl⟩ := List.exists_cons_of_ne_nil hne
      have hmem : loaded.toPermit ∈ permitsOf (loaded :: rest) := List.mem_cons_self ..
      obtain ⟨text, htext⟩ := Option.ne_none_iff_exists'.mp (hall _ hmem)
      obtain ⟨predicate, -, hpredicate⟩ := mem_permitsOf hmem htext
      rw [hfilters]
      exact List.ne_nil_of_mem (List.mem_filterMap.mpr ⟨_, hmem, hpredicate⟩)
    rw [or_iff_right hsome, hfilters]
    constructor
    · rintro ⟨filter, hfilter, hholds⟩
      obtain ⟨permit, hmem, hpredicate⟩ := List.mem_filterMap.mp hfilter
      obtain ⟨text, htext⟩ := Option.ne_none_iff_exists'.mp (hall permit hmem)
      rw [Permit.predicate, htext, Option.bind_some] at hpredicate
      exact ⟨permit, hmem, by rw [Permit.AdmitsRow, htext]; exact ⟨filter, hpredicate, hholds⟩⟩
    · rintro ⟨permit, hmem, hadmits⟩
      obtain ⟨text, htext⟩ := Option.ne_none_iff_exists'.mp (hall permit hmem)
      rw [Permit.AdmitsRow, htext] at hadmits
      obtain ⟨predicate, hpredicate, hholds⟩ := hadmits
      refine ⟨predicate, List.mem_filterMap.mpr ⟨permit, hmem, ?_⟩, hholds⟩
      rw [Permit.predicate, htext, Option.bind_some, hpredicate]
  · -- One permit has no filter: no filter is left, and it admits every row.
    obtain ⟨permit, hmem, hnone⟩ : ∃ permit ∈ permitsOf matched, permit.rowFilter = none := by
      simpa using hall
    have hunfiltered : unfiltered (permitsOf matched) ≠ [] := fun hnil =>
      unfiltered_eq_nil.mp hnil permit hmem hnone
    have hnil : filters = [] := by
      rw [hfilters]
      cases (permitsOf matched).filterMap (Permit.predicate fromStr) <;> simp [hunfiltered]
    refine iff_of_true (Or.inl hnil) ⟨permit, hmem, ?_⟩
    rw [Permit.AdmitsRow, hnone]
    trivial

/-- A column is withheld where every permit withholds it. -/
theorem collectObligations_columns {matched : List (LoadedPermit fromStr)} (hne : matched ≠ [])
    (column : Text) :
    column ∈ (collectObligations fromStr (permitsOf matched)).columnMasks ↔
      ∀ permit ∈ permitsOf matched, column ∈ permit.masks := by
  have hmasks : (collectObligations fromStr (permitsOf matched)).columnMasks =
      (intersectAll ((permitsOf matched).map Permit.masks)).getD [] := by
    simp only [collectObligations, Gathered.foldl_add, List.nil_append]
  rw [hmasks, mem_intersectAll (by simpa [permitsOf] using hne)]
  simp

/-- What the permits leave visible together: the rows some permit admits,
times the columns some permit leaves unmasked. That stays inside the union
of what they grant exactly when such a row and such a column always meet in
one of them. -/
theorem collectObligations_visible (fromStr : Text → Option Json) (holds : Json → Row → Prop)
    (matched : List (LoadedPermit fromStr)) (hne : matched ≠ []) :
    (∀ row column, (collectObligations fromStr (permitsOf matched)).Visible holds row column ↔
        (∃ permit ∈ permitsOf matched, permit.AdmitsRow fromStr holds row) ∧
          ∃ permit ∈ permitsOf matched, column ∉ permit.masks) ∧
      ((∀ row column, (collectObligations fromStr (permitsOf matched)).Visible holds row column →
          ∃ permit ∈ permitsOf matched, permit.Grants fromStr holds row column) ↔
        ∀ p ∈ permitsOf matched, ∀ q ∈ permitsOf matched, ∀ row column,
          p.AdmitsRow fromStr holds row → column ∉ q.masks →
            ∃ permit ∈ permitsOf matched, permit.Grants fromStr holds row column) := by
  have hvisible : ∀ row column,
      (collectObligations fromStr (permitsOf matched)).Visible holds row column ↔
        (∃ permit ∈ permitsOf matched, permit.AdmitsRow fromStr holds row) ∧
          ∃ permit ∈ permitsOf matched, column ∉ permit.masks := fun row column => by
    rw [Obligations.Visible, collectObligations_columns hne]
    exact and_congr (collectObligations_rows holds hne row) (by push Not; rfl)
  refine ⟨hvisible, ?_, ?_⟩
  · intro hall p hp q hq row column hrow hcolumn
    exact hall row column ((hvisible row column).mpr ⟨⟨p, hp, hrow⟩, ⟨q, hq, hcolumn⟩⟩)
  · intro hmeet row column hcell
    obtain ⟨⟨p, hp, hrow⟩, ⟨q, hq, hcolumn⟩⟩ := (hvisible row column).mp hcell
    exact hmeet p hp q hq row column hrow hcolumn

/-! ## A row filter and a column mask on two permits -/

def euText : Text := "\x7b\"type\":\"eq\",\"term\":\"region\",\"value\":\"EU\"\x7d".toList

def euFilter : Json :=
  .of [("type", .str "eq"), ("term", .str "region"), ("value", .str "EU")]

/-- `serde_json::from_str` on the one text below. -/
def readEu (text : Text) : Option Json := if text = euText then some euFilter else none

/-- `@row_filter("region = EU")` -/
def euRows : LoadedPermit readEu where
  id := "policy0".toList
  rowFilter := some euText
  columnMask := none
  rowFilter_reads text h := by
    obtain rfl := Option.some.inj h
    rfl

/-- `@column_mask("ssn")` -/
def hideSsn : LoadedPermit readEu where
  id := "policy1".toList
  rowFilter := none
  columnMask := some "ssn".toList
  rowFilter_reads text h := by cases h

/-- A row is its region; the filter is true of the rows of the EU. -/
def ofEu (_ : Json) (region : Text) : Prop := region = "EU".toList

/-- Neither permit grants the `ssn` of a row outside the EU. -/
theorem ungranted : ¬ ∃ permit ∈ permitsOf [euRows, hideSsn],
    permit.Grants readEu ofEu "US".toList "ssn".toList := by
  rintro ⟨permit, hmem, hrow, hcolumn⟩
  simp only [permitsOf, List.map_cons, List.map_nil, List.mem_cons, List.not_mem_nil,
    or_false] at hmem
  rcases hmem with rfl | rfl
  · obtain ⟨predicate, -, hregion⟩ := hrow
    have hregion : "US".toList = "EU".toList := hregion
    exact absurd hregion (by decide)
  · exact hcolumn (by decide)

/-- Together they show it: one admits the row, the other leaves the column, and the two meet in
no permit. -/
theorem collectObligations_visible_both :
    (collectObligations readEu (permitsOf [euRows, hideSsn])).Visible ofEu "US".toList
        "ssn".toList ∧
      ¬ ∀ p ∈ permitsOf [euRows, hideSsn], ∀ q ∈ permitsOf [euRows, hideSsn], ∀ row column,
        p.AdmitsRow readEu ofEu row → column ∉ q.masks →
          ∃ permit ∈ permitsOf [euRows, hideSsn], permit.Grants readEu ofEu row column := by
  obtain ⟨hvisible, hmeet⟩ :=
    collectObligations_visible readEu ofEu [euRows, hideSsn] (by simp)
  have hcell := (hvisible "US".toList "ssn".toList).mpr
    ⟨⟨hideSsn.toPermit, List.mem_cons_of_mem _ (List.mem_cons_self ..), trivial⟩,
      ⟨euRows.toPermit, List.mem_cons_self .., by decide⟩⟩
  exact ⟨hcell, fun hall => ungranted (hmeet.mpr hall _ _ hcell)⟩

theorem obligations_widen :
    ¬ ∀ (Row : Type) (fromStr : Text → Option Json) (holds : Json → Row → Prop)
        (matched : List (LoadedPermit fromStr)), matched ≠ [] → ∀ row column,
      (collectObligations fromStr (permitsOf matched)).Visible holds row column →
        ∃ permit ∈ permitsOf matched, permit.Grants fromStr holds row column := by
  intro hall
  have hvisible : (collectObligations readEu (permitsOf [euRows, hideSsn])).Visible ofEu
      "US".toList "ssn".toList := by
    refine ⟨Or.inl rfl, ?_⟩
    decide
  exact ungranted (hall Text readEu ofEu [euRows, hideSsn] (by simp) _ _ hvisible)

end Rustberg.Auth
