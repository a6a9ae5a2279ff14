import Rustberg.Catalog.Iceberg

/-!
# Names of metadata files

`catalog/metadata_file.rs`: a metadata file is called
`<location>/metadata/<version>-<uuid><suffix>.metadata.json`, and the
version of the next one is read off the current one's name. The fresh
UUID is an argument here; the operations draw it.
-/

namespace Rustberg

/-- `str::parse::<i32>`. -/
def parseI32 (s : Text) : Option Int :=
  let (sign, digits) :=
    match s with
    | '-' :: digits => (-1, digits)
    | '+' :: digits => (1, digits)
    | digits => ((1 : Int), digits)
  if digits ≠ [] ∧ digits.all Char.isDigit then
    let value := sign * (digits.foldl (fun n c => 10 * n + (c.toNat - '0'.toNat)) 0 : Nat)
    if -2 ^ 31 ≤ value ∧ value < 2 ^ 31 then some value else none
  else none

/-- `{version:05}` -/
def padded5 (version : Int) : Text :=
  if version < 0 then '-' :: (Text.decimal version.natAbs).leftpad 4 '0'
  else (Text.decimal version.natAbs).leftpad 5 '0'

namespace MetadataFile

variable (ib : Iceberg)

/-- The version a file after `current` carries; the addition is `i32`'s. -/
def versionAfter (current : Text) : Int :=
  match ib.metadataLocation current with
  | .error _ => 1
  | .ok _ =>
      let name := (current.splitOn '/').getLastD []
      match (Text.splitOnce '-' name).bind fun (version, _) => parseI32 version with
      | some version => Int.bmod (version + 1) (2 ^ 32)
      | none => 1

def path (uuid location : Text) (version : Int) (suffix : Text) : Text :=
  location ++ "/metadata/".toList ++ padded5 version ++ ['-'] ++ uuid ++ suffix ++
    ".metadata.json".toList

def tableFile (uuid : Text) (metadata : ib.Metadata) (version : Int) : Except Error Text := do
  let suffix ← ib.compressionSuffix metadata
  ib.metadataLocation (path uuid (ib.location metadata) version suffix)

def firstTable (uuid : Text) (metadata : ib.Metadata) : Except Error Text :=
  tableFile ib uuid metadata 0

def nextTable (uuid current : Text) (metadata : ib.Metadata) : Except Error Text :=
  tableFile ib uuid metadata (versionAfter ib current)

def firstView (uuid location : Text) : Text := path uuid location 0 []

def nextView (uuid current location : Text) : Text :=
  path uuid location (versionAfter ib current) []

end MetadataFile

end Rustberg
