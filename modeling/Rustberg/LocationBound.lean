import Rustberg.Location
import Rustberg.Catalog.Iceberg

/-!
# How far a client may move a resource's storage

`LocationBound` of `location.rs`: the prefix a named resource is confined
to, and the checks a registration and a commit make against it. Under
`LocationScope.table` the bound is the canonical prefix of the resource's
own name (`LocationBound.root_table`), so the side that assigns a
location and the side that checks one agree.
-/

namespace Rustberg

inductive LocationScope where
  | table
  | warehouse
  deriving DecidableEq, Repr

structure LocationBound where
  root : Text
  scope : LocationScope
  deriving DecidableEq, Repr

namespace LocationBound

def new (scope : LocationScope) (warehouse namespacePrefix name : Text) : LocationBound where
  root :=
    match scope with
    | .warehouse => warehouse
    | .table => namespacePrefix.trimEndMatches '/' ++ ['/'] ++ name
  scope := scope

def explain (bound : LocationBound) (location : Text) : Text :=
  match bound.scope with
  | .table =>
      "Storage location '".toList ++ location ++ "' is outside '".toList ++ bound.root ++
        ("', which is where this catalog keeps this resource's files. A location-scoped " ++
          "credential is how a namespace-scoped grant is enforced, so a resource may not " ++
          "declare storage outside the prefix its name puts it in. Set " ++
          "`storage.location_scope = \"warehouse\"` to adopt a layout that predates this " ++
          "catalog — and read what that costs before you do.").toList
  | .warehouse =>
      "Storage location '".toList ++ location ++
        "' is outside this catalog's warehouse ('".toList ++ bound.root ++
        ("'). A catalog only manages locations within its own warehouse, because the " ++
          "credentials it vends are scoped to them.").toList

def ensure (bound : LocationBound) (location : Text) : Except AppError Unit :=
  if location.trim = [] then
    .error (.badRequest "Storage location must not be empty".toList)
  else if isWithin bound.root location then .ok ()
  else .error (.badRequest (bound.explain location))

def ensureIceberg (bound : LocationBound) (location : Text) : Except Error Unit :=
  if isWithin bound.root location then .ok ()
  else .error ⟨.dataInvalid, bound.explain location⟩

/-- Refuses a file the table does not own. -/
def ensureOwned (current location : Text) : Except Error Unit :=
  if isWithin current location then .ok ()
  else .error ⟨.dataInvalid,
    "This commit names the file '".toList ++ location ++
      "', which is outside the table's own storage ('".toList ++ current ++
      ("'). A commit records files the table owns; one it does not own would be read by a " ++
        "scan plan and deleted by a purge, neither of which this table is entitled to do " ++
        "to it.").toList⟩

/-- What `ensure_commit` asks about one update. -/
def ensureUpdate {S O : Type} (bound : LocationBound) (current : Text) :
    TableUpdate S O → Except Error Unit
  | .setLocation location =>
      if !isWithin bound.root location && !isWithin current location then
        .error ⟨.dataInvalid, bound.explain location⟩
      else .ok ()
  | .addSnapshot snapshot => ensureOwned current snapshot.manifestList
  | .setStatistics statisticsPath _ => ensureOwned current statisticsPath
  | .setPartitionStatistics statisticsPath _ => ensureOwned current statisticsPath
  | .other _ => .ok ()

def ensureCommit {S O : Type} (bound : LocationBound) (current : Text)
    (updates : List (TableUpdate S O)) : Except Error Unit :=
  updates.forM (bound.ensureUpdate current)

end LocationBound

/-! ## The bound is where the registries put the files -/

theorem trimEndMatches_below {pieces : List Text} (hne : pieces ≠ [])
    (h : ∀ s ∈ pieces, IsPiece s) (p : Text) :
    (p ++ Text.below '/' pieces).trimEndMatches '/' = p ++ Text.below '/' pieces := by
  obtain ⟨init, last, rfl⟩ := (List.eq_nil_or_concat' pieces).resolve_left hne
  obtain ⟨hlast, hslash⟩ := h last (by simp)
  obtain ⟨body, c, rfl⟩ := (List.eq_nil_or_concat' last).resolve_left hlast
  have hc : c ≠ '/' := fun hc => hslash (by simp [hc])
  have hshape : p ++ Text.below '/' (init ++ [body ++ [c]]) =
      p ++ Text.below '/' init ++ '/' :: body ++ [c] := by simp [Text.below]
  rw [hshape, Text.trimEndMatches, List.rdropWhile_concat_neg]
  simpa using hc

theorem trimEndMatches_idem (p : Text) :
    (p.trimEndMatches '/').trimEndMatches '/' = p.trimEndMatches '/' :=
  List.rdropWhile_idempotent _ _

theorem namespacePrefix_trimmed (warehouse : Text) {namespc : List Text}
    (h : ∀ s ∈ namespc, IsPiece s) :
    (namespacePrefix warehouse namespc).trimEndMatches '/' =
      namespacePrefix warehouse namespc := by
  rw [namespacePrefix, joinSegments_eq]
  by_cases hne : namespc = []
  · simp [hne, Text.below, trimEndMatches_idem]
  · exact trimEndMatches_below hne h _

theorem LocationBound.root_table (warehouse : Text) {namespc : List Text} (name : Text)
    (h : ∀ s ∈ namespc, IsPiece s) :
    (LocationBound.new .table warehouse (namespacePrefix warehouse namespc) name).root =
      canonicalPrefix warehouse namespc name := by
  simp only [LocationBound.new, namespacePrefix_trimmed warehouse h]
  rfl

end Rustberg
