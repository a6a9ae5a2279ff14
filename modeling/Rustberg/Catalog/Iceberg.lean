import Rustberg.Error

/-!
# What the catalog uses of the `iceberg` crate

Table and view metadata, requirements and updates are that crate's types.
The catalog reads a few of their fields and hands the rest on, so the
development takes them as one parameter, `Iceberg`: the types, the fields
the catalog reads, and the functions it calls. Identifiers and the
variants the catalog matches on are spelled out.
-/

namespace Rustberg

/-- `NamespaceIdent`: the levels of a namespace, outermost first. -/
abbrev NamespaceIdent := List Text

/-- `NamespaceIdent::from_vec` -/
def NamespaceIdent.fromVec (names : List Text) : Except Error NamespaceIdent :=
  if names = [] then .error ⟨.dataInvalid, "Namespace identifier can't be empty!".toList⟩
  else .ok names

theorem NamespaceIdent.fromVec_ok {names : List Text} (h : names ≠ []) :
    NamespaceIdent.fromVec names = .ok names :=
  if_neg h

structure TableIdent where
  namespc : NamespaceIdent
  name : Text
  deriving DecidableEq, Repr

/-- `impl Display for TableIdent`. -/
def TableIdent.display (ident : TableIdent) : Text :=
  Text.join ['.'] ident.namespc ++ ['.'] ++ ident.name

abbrev Properties := Std.ExtTreeMap Text Text

/-- A `TableCreation`, the fields no catalog reads in `rest`. -/
structure TableCreation (Rest : Type) where
  name : Text
  location : Option Text
  rest : Rest

/-- The variants of `TableRequirement` the catalog tells apart. -/
inductive TableRequirement (Other : Type) where
  | notExist
  | other (r : Other)

/-- `Snapshot`, as far as a catalog reads it. -/
structure Snapshot (Rest : Type) where
  manifestList : Text
  /-- `row_range`: the first row id and the number of added rows. -/
  rowRange : Option (Nat × Nat)
  rest : Rest

/-- The variants of `TableUpdate` the catalog tells apart. -/
inductive TableUpdate (SnapshotRest Other : Type) where
  | setLocation (location : Text)
  | addSnapshot (snapshot : Snapshot SnapshotRest)
  | setStatistics (statisticsPath : Text) (rest : Other)
  | setPartitionStatistics (statisticsPath : Text) (rest : Other)
  | other (u : Other)

/-- The crate's types, and its functions the catalog calls. -/
structure Iceberg where
  CreationRest : Type
  OtherRequirement : Type
  SnapshotRest : Type
  OtherUpdate : Type
  Metadata : Type
  Builder : Type
  ViewMetadata : Type
  location : Metadata → Text
  formatVersion : Metadata → Nat
  nextRowId : Metadata → Nat
  /-- `metadata.metadata_compression_codec()?.suffix()?` -/
  compressionSuffix : Metadata → Except Error Text
  /-- `TableMetadataBuilder::from_table_creation(creation)?.build()?.metadata` -/
  fromTableCreation : TableCreation CreationRest → Except Error Metadata
  /-- `TableRequirement::check` -/
  check : TableRequirement OtherRequirement → Option Metadata → Except Error Unit
  /-- `TableMetadata::into_builder` -/
  intoBuilder : Metadata → Option Text → Builder
  /-- `TableUpdate::apply` -/
  apply : TableUpdate SnapshotRest OtherUpdate → Builder → Except Error Builder
  /-- `builder.build()?.metadata` -/
  build : Builder → Except Error Metadata
  viewLocation : ViewMetadata → Text
  /-- `MetadataLocation::from_str`, read back with `to_string`. -/
  metadataLocation : Text → Except Error Text

namespace Iceberg

variable (ib : Iceberg)

abbrev Creation := TableCreation ib.CreationRest
abbrev Requirement := TableRequirement ib.OtherRequirement
abbrev Update := TableUpdate ib.SnapshotRest ib.OtherUpdate

/-- One table's part of a commit. -/
structure TableChange where
  ident : TableIdent
  requirements : List ib.Requirement
  updates : List ib.Update

end Iceberg

/-- `Table::builder()…build()`: every required part is always given. -/
structure Table (ib : Iceberg) where
  ident : TableIdent
  metadata : ib.Metadata
  metadataLocation : Text

/-- The crate on the plainest tables: metadata is a location, files keep the
name they are given, and the only requirement is that a table not exist. -/
def Iceberg.plain : Iceberg where
  CreationRest := Unit
  OtherRequirement := Empty
  SnapshotRest := Unit
  OtherUpdate := Empty
  Metadata := Text
  Builder := Text
  ViewMetadata := Text
  location metadata := metadata
  formatVersion _ := 2
  nextRowId _ := 0
  compressionSuffix _ := .ok []
  fromTableCreation creation := .ok ((creation.location.getD []).trimEndMatches '/')
  check
    | .notExist, none => .ok ()
    | .notExist, some _ =>
        .error ⟨.catalogCommitConflicts, "Requirement failed: Table already exists".toList⟩
    | .other r, _ => r.elim
  intoBuilder metadata _ := metadata
  apply
    | .setLocation location, _ => .ok (location.trimEndMatches '/')
    | _, builder => .ok builder
  build builder := .ok builder
  viewLocation metadata := metadata
  metadataLocation location := .ok location

end Rustberg
