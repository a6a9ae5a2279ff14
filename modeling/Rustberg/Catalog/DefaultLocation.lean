import Rustberg.Catalog.Redb

/-!
# Where a table goes when nobody says

The location a backend assigns by default, beside the one its bound
computes for the same table. Both backends build the path by hand from
the warehouse they keep; Postgres keeps it without its trailing slashes,
redb keeps it as it was written (`normalize_warehouse`). The bound trims
them either way, so the two agree only where there are none
(`defaultLocation_iff`).

Local paths are those of Unix; of the process only its current directory
counts.
-/

namespace Rustberg

/-! ## Local paths -/

/-- `without_url_prefix` -/
def pathFromUrl (location : Text) : Text :=
  match Text.stripPrefix location "file://".toList with
  | some rest => rest
  | none =>
      match (Text.stripPrefix location "file:".toList).filter isAbsolute with
      | some rest => rest
      | none => location

/-- `to_url` -/
def urlFromPath (path : Text) : Text := "file://".toList ++ path

structure Host where
  currentDir : Text

/-- `current_dir()?.join(path)` -/
def Host.join (host : Host) (path : Text) : Text :=
  if isAbsolute path then path
  else if host.currentDir = [] ∨ host.currentDir.getLast? = some '/' then host.currentDir ++ path
  else host.currentDir ++ ['/'] ++ path

namespace Redb

/-- `normalize_warehouse`, where the directory can be made. -/
def normalizeWarehouse (host : Host) (location : Text) : Text :=
  if (Text.splitOnceStr "://".toList location).isSome ∧
      Text.stripPrefix location "file://".toList = none then
    location
  else
    let path := pathFromUrl location
    urlFromPath (if isAbsolute path then path else host.join path)

/-- `RedbCatalog::open` -/
def openCatalog (host : Host) (warehouseLocation : Text) : Catalog where
  warehouseLocation := normalizeWarehouse host warehouseLocation
  locationScope := .table

end Redb

namespace Postgres

/-- `PostgresCatalog::connect` -/
def connect (warehouseLocation : Text) : Catalog where
  warehouseLocation := warehouseLocation.trimEndMatches '/'
  locationScope := .table

def declaredBound (c : Catalog) (ident : TableIdent) : LocationBound :=
  LocationBound.new c.locationScope c.warehouseLocation
    (namespacePrefix c.warehouseLocation ident.namespc) ident.name

def tableLocation (c : Catalog) (ident : TableIdent) : Text :=
  c.warehouseLocation ++ ['/'] ++ Text.join ['/'] ident.namespc ++ ['/'] ++ ident.name

end Postgres

/-! ## A path and the bound on it -/

/-- The assigned location is the bound's own prefix, and passes its check. -/
def Canonical (bound : LocationBound) (location : Text) : Prop :=
  location = bound.root ∧ bound.ensure location = .ok ()

/-- The path both backends build. -/
theorem pieces_path (warehouse name : Text) {namespc : List Text} (hne : namespc ≠ []) :
    warehouse ++ ['/'] ++ Text.join ['/'] namespc ++ ['/'] ++ name =
      warehouse ++ Text.below '/' (namespc ++ [name]) := by
  have hbelow : Text.below '/' (namespc ++ [name]) = Text.below '/' namespc ++ '/' :: name := by
    simp [Text.below]
  rw [hbelow, ← Text.cons_join hne]
  simp

theorem trimEndMatches_eq_self {s : Text} {c : Char} :
    s.trimEndMatches c = s ↔ s.getLast? ≠ some c := by
  rcases List.eq_nil_or_concat' s with rfl | ⟨init, last, rfl⟩
  · simp [Text.trimEndMatches]
  · rw [Text.trimEndMatches, List.getLast?_concat]
    by_cases hlast : last = c
    · rw [List.rdropWhile_concat_pos _ _ _ (by simpa using hlast)]
      refine iff_of_false (fun h => ?_) (by simpa using hlast)
      have hle := (List.rdropWhile_prefix (fun x => x == c) init).length_le
      rw [h] at hle
      simp at hle
    · rw [List.rdropWhile_concat_neg _ _ _ (by simpa using hlast)]
      simpa using hlast

theorem canonical_iff (u : UnicodeData) (warehouse : Text) {ident : TableIdent}
    (hnamespc : validateNamespace u ident.namespc = .ok ())
    (hname : validateTableName u ident.name = .ok ()) :
    Canonical (LocationBound.new .table warehouse (namespacePrefix warehouse ident.namespc)
        ident.name)
      (warehouse ++ ['/'] ++ Text.join ['/'] ident.namespc ++ ['/'] ++ ident.name) ↔
      warehouse.getLast? ≠ some '/' ∧ climbs (warehouse ++ ['/']) = false := by
  obtain ⟨hne, -, hsegments⟩ := validateNamespace_eq_ok.mp hnamespc
  have hvalid : ValidName u ident.name := validName_iff.mp hname
  have hpieces : ∀ s ∈ ident.namespc ++ [ident.name], ValidName u s := by
    intro s hs
    rcases List.mem_append.mp hs with hs | hs
    · exact hsegments s hs
    · rw [List.mem_singleton.mp hs]
      exact hvalid
  have hroot := LocationBound.root_table warehouse ident.name
    (fun s hs => (hsegments s hs).isPiece)
  rw [canonicalPrefix_eq] at hroot
  rw [Canonical, hroot, pieces_path warehouse ident.name hne, List.append_left_inj, eq_comm,
    trimEndMatches_eq_self]
  refine and_congr_right fun hlast => ?_
  rw [← trimEndMatches_eq_self] at hlast
  have hnonempty : (warehouse ++ Text.below '/' (ident.namespc ++ [ident.name])).trim ≠ [] :=
    Text.trim_ne_nil (c := '/') (by simp [Text.below]) (by decide)
  have hpiece : ∀ s ∈ ident.namespc ++ [ident.name], IsPiece s := fun s hs => (hpieces s hs).isPiece
  have hparent : parentSegment ∉ ident.namespc ++ [ident.name] := fun hmem =>
    (hpieces _ hmem).ne_dotdot rfl
  have hwithin := isWithin_below (by simp) hpiece (by simp) hpiece hparent warehouse
  rw [and_iff_right List.prefix_rfl] at hwithin
  rw [LocationBound.ensure, if_neg hnonempty, hroot, hlast, ← hwithin]
  split <;> simp_all

/-! ## The warehouse redb keeps -/

/-- What is cut off is in front, and without `file://` it is not everything. -/
theorem pathFromUrl_suffix (location : Text) :
    ∃ cut, location = cut ++ pathFromUrl location ∧
      (Text.stripPrefix location "file://".toList = none → location ≠ [] →
        pathFromUrl location ≠ []) := by
  rw [pathFromUrl]
  generalize "file://".toList = url
  generalize "file:".toList = scheme
  split
  next rest hurl => exact ⟨_, Text.stripPrefix_eq_some.mp hurl, fun h => by rw [hurl] at h; cases h⟩
  next hurl =>
    split
    next rest hlocal =>
      obtain ⟨hrest, habsolute⟩ := Option.filter_eq_some_iff.mp hlocal
      refine ⟨_, Text.stripPrefix_eq_some.mp hrest, fun _ _ hnil => ?_⟩
      rw [hnil] at habsolute
      cases habsolute
    next => exact ⟨[], rfl, fun _ hne => hne⟩

theorem getLast?_append_ne_nil {s t : Text} (h : t ≠ []) : (s ++ t).getLast? = t.getLast? := by
  rw [List.getLast?_append, Option.or_of_isSome (by simpa using h)]

/-- An empty path leaves the separator `join` writes. -/
theorem urlFromPath_getLast? (host : Host) (path : Text) :
    (urlFromPath (if isAbsolute path then path else host.join path)).getLast? = some '/' ↔
      path = [] ∨ path.getLast? = some '/' := by
  by_cases hpath : path = []
  · have hjoined : (urlFromPath (host.join [])).getLast? = some '/' := by
      unfold urlFromPath Host.join
      rw [if_neg (by decide), List.append_nil, List.append_nil]
      split
      next hend =>
        rcases hend with hnil | hend
        · rw [hnil]
          decide
        · rwa [getLast?_append_ne_nil (by rintro hnil; simp [hnil] at hend)]
      next => rw [← List.append_assoc, List.getLast?_concat]
    rw [hpath, if_neg (by decide)]
    exact iff_of_true hjoined (.inl rfl)
  · have hkept : ∀ before : Text, (before ++ path).getLast? = path.getLast? :=
      fun before => getLast?_append_ne_nil hpath
    have hlast : (urlFromPath (if isAbsolute path then path else host.join path)).getLast? =
        path.getLast? := by
      unfold urlFromPath Host.join
      split
      · exact hkept _
      · split
        · rw [← List.append_assoc]
          exact hkept _
        · rw [← List.append_assoc]
          exact hkept _
    rw [hlast]
    simp [hpath]

/-- What the kept warehouse ends in, read off the one that was given. -/
theorem normalizeWarehouse_getLast? (host : Host) (warehouse : Text) :
    (Redb.normalizeWarehouse host warehouse).getLast? = some '/' ↔
      pathFromUrl warehouse = [] ∨ (pathFromUrl warehouse).getLast? = some '/' := by
  unfold Redb.normalizeWarehouse
  split
  next h =>
    obtain ⟨hscheme, hurl⟩ := h
    obtain ⟨cut, hcut, hne⟩ := pathFromUrl_suffix warehouse
    have hpath := hne hurl (by rintro rfl; cases hscheme)
    have hlast : warehouse.getLast? = (pathFromUrl warehouse).getLast? := by
      conv_lhs => rw [hcut]
      exact getLast?_append_ne_nil hpath
    rw [hlast]
    simp [hpath]
  next => exact urlFromPath_getLast? host (pathFromUrl warehouse)

/-- The default location is the canonical one exactly where the warehouse a
backend keeps ends in no slash and climbs nowhere. -/
theorem defaultLocation_iff (u : UnicodeData) (host : Host) (warehouse : Text) (ident : TableIdent)
    (hnamespc : validateNamespace u ident.namespc = .ok ())
    (hname : validateTableName u ident.name = .ok ()) :
    (Canonical ((Redb.openCatalog host warehouse).declaredBound ident)
        ((Redb.openCatalog host warehouse).tableLocation ident) ↔
      pathFromUrl warehouse ≠ [] ∧ (pathFromUrl warehouse).getLast? ≠ some '/' ∧
        climbs (Redb.normalizeWarehouse host warehouse ++ ['/']) = false) ∧
    (Canonical (Postgres.declaredBound (Postgres.connect warehouse) ident)
        (Postgres.tableLocation (Postgres.connect warehouse) ident) ↔
      climbs (warehouse.trimEndMatches '/' ++ ['/']) = false) := by
  constructor
  · have hredb := canonical_iff u (Redb.normalizeWarehouse host warehouse) hnamespc hname
    rw [ne_eq, normalizeWarehouse_getLast?, not_or, and_assoc] at hredb
    exact hredb
  · have hpostgres := canonical_iff u (warehouse.trimEndMatches '/') hnamespc hname
    rw [and_iff_right (trimEndMatches_eq_self.mp (trimEndMatches_idem warehouse))] at hpostgres
    exact hpostgres

theorem defaultLocation_events :
    Canonical (Postgres.declaredBound (Postgres.connect "s3://bucket/wh/".toList)
        ⟨["db".toList], "events".toList⟩)
      "s3://bucket/wh/db/events".toList := by
  exact (defaultLocation_iff .plain ⟨"/srv".toList⟩ "s3://bucket/wh/".toList
    ⟨["db".toList], "events".toList⟩ (by decide) (by decide)).2.mpr (by decide)

/-- One slash at the end of redb's warehouse, and its own default is refused. -/
theorem trailing_slash_default :
    let catalog := Redb.openCatalog ⟨"/srv".toList⟩ "s3://bucket/wh/".toList
    let events : TableIdent := ⟨["db".toList], "events".toList⟩
    catalog.tableLocation events = "s3://bucket/wh//db/events".toList ∧
      (catalog.declaredBound events).root = "s3://bucket/wh/db/events".toList ∧
      (catalog.declaredBound events).ensure (catalog.tableLocation events) ≠ .ok () := by
  decide

end Rustberg
