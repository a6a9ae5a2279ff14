import Rustberg.Query.Masks
import Rustberg.Query.Restrictions

/-!
# Planning a scan

`build_plan` of `catalog/v1/plan.rs`. A snapshot's files are described by its
manifests, each file with its partition and with statistics by column. The
crate's scan prunes them by the filter, and what it leaves is encoded for
the client.

`preparePlan` is what happens before the scan, and `finishPlan` what happens
to the tasks it yields.
-/

namespace Rustberg.Query

open Auth

/-! ## Files -/

inductive PrimitiveLiteral where
  | boolean (v : Bool)
  | int (v : Int32)
  | long (v : Int64)
  | float (bits : UInt32)
  | double (bits : UInt64)
  | string (v : Text)
  | binary (v : List UInt8)
  | int128 (v : Int)
  | uint128 (v : Nat)
  | aboveMax
  | belowMin
  deriving DecidableEq

/-- `iceberg::spec::Literal`; only its primitive values are looked into. -/
inductive Literal where
  | primitive (primitive : PrimitiveLiteral)
  | composite (value : Json)

inductive DataContentType where
  | data
  | positionDeletes
  | equalityDeletes
  deriving DecidableEq, Repr

inductive DataFileFormat where
  | avro
  | orc
  | parquet
  | puffin
  deriving DecidableEq, Repr

/-- The statistics of a file, by field id. -/
structure Statistics (Datum : Type) where
  columnSizes : Int32 → Option UInt64 := fun _ => none
  valueCounts : Int32 → Option UInt64 := fun _ => none
  nullValueCounts : Int32 → Option UInt64 := fun _ => none
  nanValueCounts : Int32 → Option UInt64 := fun _ => none
  lowerBounds : Int32 → Option Datum := fun _ => none
  upperBounds : Int32 → Option Datum := fun _ => none

structure DataFile (Datum : Type) where
  contentType : DataContentType
  filePath : Text
  fileFormat : DataFileFormat
  partition : List (Option Literal)
  fileSizeInBytes : UInt64
  recordCount : UInt64
  keyMetadata : Option (List UInt8)
  splitOffsets : Option (List Int64)
  sortOrderId : Option Int32
  firstRowId : Option Int64
  equalityIds : Option (List Int32)
  contentOffset : Option Int64
  contentSizeInBytes : Option Int64
  statistics : Statistics Datum

inductive ManifestStatus where
  | existing
  | added
  | deleted
  deriving DecidableEq, Repr

structure ManifestEntry (Datum : Type) where
  status : ManifestStatus
  dataFile : DataFile Datum

/-- An entry of a manifest list. -/
structure ManifestFile where
  manifestPath : Text
  partitionSpecId : Int32
  deriving DecidableEq

structure Snapshot where
  snapshotId : Int64
  /-- `Snapshot::schema`, found in the table's metadata. -/
  schema : Except Error Schema

/-- What is read of a table's manifests. -/
structure Manifests (Datum : Type) where
  manifestList : Snapshot → Except Error (List ManifestFile)
  read : ManifestFile → Except Error (List (ManifestEntry Datum))

structure Table (Datum : Type) where
  metadata : TableMetadata
  snapshots : List Snapshot
  currentSnapshot : Option Snapshot
  manifests : Manifests Datum

/-- `snapshot_by_id` -/
def Table.snapshotById {Datum : Type} (table : Table Datum) (id : Int64) : Option Snapshot :=
  table.snapshots.find? fun snapshot => snapshot.snapshotId == id

/-- `iceberg::scan::FileScanTask` -/
structure FileScanTask where
  dataFilePath : Text
  dataFileFormat : DataFileFormat
  partitionSpec : Option PartitionSpec
  partition : Option (List (Option Literal))
  fileSizeInBytes : UInt64
  recordCount : Option UInt64
  firstRowId : Option Int64
  /-- The paths of the delete files that apply. -/
  deletes : List Text

/-! ## Requests -/

structure PlanTableScanRequest where
  snapshotId : Option Int64
  select : Option (List Text)
  filter : Option Json
  caseSensitive : Bool
  useSnapshotSchema : Bool
  statsFields : Option (List Text)

/-- What a scan is built with. -/
structure ScanRequest (Predicate : Type) where
  snapshot : Snapshot
  caseSensitive : Bool
  filter : Option Predicate
  select : Option (List Text)

structure CompletedPlan where
  status : Text
  planId : Text
  deleteFiles : List Json
  fileScanTasks : List Json

/-- What is used of `iceberg::scan` and of the literals of `iceberg::spec`. -/
structure IcebergScan (x : IcebergExpr) where
  /-- The fields a predicate refers to, by name. -/
  refersTo : x.Predicate → Text → Prop
  /-- `TableScanBuilder::build`, then `plan_files`, a stream of results. -/
  planFiles : Table x.Datum → ScanRequest x.Predicate →
    Except Error (List (Except Error FileScanTask))
  /-- `Literal::from` -/
  literalFrom : x.Datum → Literal
  dataType : x.Datum → PrimitiveType
  tryIntoJson : Literal → FieldType → Except Error Json
  /-- `PartitionSpec::partition_type`, its fields. -/
  partitionType : PartitionSpec → Schema → Except Error (List NestedField)
  /-- `json!` of a float, null where it is not finite. -/
  jsonOfFloat : UInt32 → Json
  jsonOfDouble : UInt64 → Json

section

variable {x : IcebergExpr} (s : IcebergScan x)

/-! ## Before the scan -/

/-- The field ids to send statistics for. -/
def statsFieldIds (names : Option (List Text)) (schema : Schema) (case : CaseSensitivity)
    (masked : List Int32) : Except AppError (Option (List Int32)) :=
  match names with
  | none => .ok none
  | some names => do
      let ids ← names.mapM fun name =>
        match schema.lookup case name with
        | none => .error (.badRequest ("stats-fields names '".toList ++ name ++
            "', which this table has no".toList))
        | some field =>
            if masked.contains field.id then
              .error (.forbidden ("Policy withholds the column '".toList ++
                (schema.nameByFieldId field.id).getD field.name ++
                "', and its statistics would name its minimum and maximum values.".toList))
            else .ok field.id
      return some ids.dedup

/-- The filter the client must still apply to the rows it reads. -/
def residualFilter (requested : Option Json) (obligations : Obligations) (schema : Schema) :
    Option Json :=
  match requested, rowFilter schema obligations with
  | some requested, some policy =>
      some (.of [("type", .str "and"), ("left", requested), ("right", policy)])
  | some only, none => some only
  | none, some only => some only
  | none, none => none

/-- What the scan and the answer are made from. -/
structure PreparedPlan (Predicate : Type) where
  snapshot : Option Snapshot
  schema : Schema
  filter : Option Predicate
  statsFields : Option (List Int32)
  residual : Option Json

/-- The snapshot that is asked for, or the current one. -/
def planSnapshot {Datum : Type} (table : Table Datum) (snapshotId : Option Int64) :
    Except AppError (Option Snapshot) :=
  match snapshotId with
  | none => .ok table.currentSnapshot
  | some id => match table.snapshotById id with
      | some snapshot => .ok (some snapshot)
      | none => .error (.noSuchSnapshot ("Snapshot ".toList ++ Text.integer id.toInt ++
          " does not exist in this table".toList))

def planSchema {Datum : Type} (table : Table Datum) (useSnapshotSchema : Bool)
    (snapshot : Option Snapshot) : Except AppError Schema :=
  match useSnapshotSchema, snapshot with
  | true, some snapshot => snapshot.schema.mapError .fromIceberg
  | _, _ => .ok table.metadata.currentSchema

/-- The client's filter. -/
def requestedFilter (x : IcebergExpr) (filter : Option Json) (schema : Schema)
    (case : CaseSensitivity) : Except AppError (Option x.Predicate) :=
  match filter with
  | none => .ok none
  | some json => ((parsePredicate x schema case json).map some).mapError .fromIceberg

/-- What the client asked for and what policy permits. -/
def conjoin (requested policy : Option x.Predicate) : Option x.Predicate :=
  match requested, policy with
  | some requested, some policy => some (x.and requested policy)
  | some only, none => some only
  | none, some only => some only
  | none, none => none

def preparePlan (table : Table x.Datum) (request : PlanTableScanRequest)
    (obligations : Obligations) : Except AppError (PreparedPlan x.Predicate) := do
  let snapshot ← planSnapshot table request.snapshotId
  let schema ← planSchema table request.useSnapshotSchema snapshot
  let case := CaseSensitivity.fromFlag request.caseSensitive
  let requested ← requestedFilter x request.filter schema case
  let filter := conjoin requested (policyPredicate schema x case obligations)
  let masked ← maskedFieldIds table.metadata obligations
  refuseMaskedPartitionColumns table.metadata masked
  let statsFields ← statsFieldIds request.statsFields schema case masked
  return ⟨snapshot, schema, filter, statsFields, residualFilter request.filter obligations schema⟩

/-! ## Encoding a file -/

/-- A member that is only there when it has a value. -/
def optionalMember (name : String) (value : Option Json) : List (String × Json) :=
  value.toList.map fun value => (name, value)

def jsonOfUInt64 (n : UInt64) : Json := .number (.posInt n)

def jsonOfInt64 (n : Int64) : Json :=
  if 0 ≤ n.toInt then .number (.posInt (UInt64.ofNat n.toInt.toNat)) else .number (.negInt n)

/-- Lowercase hex. -/
def toHex (bytes : List UInt8) : Text :=
  bytes.flatMap fun b => [Nat.digitChar (b.toNat / 16), Nat.digitChar (b.toNat % 16)]

/-- Encodes one literal whose declared type could not be resolved. -/
def literalJson : Literal → Except AppError Json
  | .composite _ => .error (.internal "a partition value is not a primitive".toList)
  | .primitive primitive =>
      match primitive with
      | .boolean v => .ok (.bool v)
      | .int v => .ok (.ofInt32 v)
      | .long v => .ok (jsonOfInt64 v)
      | .float bits => .ok (s.jsonOfFloat bits)
      | .double bits => .ok (s.jsonOfDouble bits)
      | .string v => .ok (.string v)
      | .binary v => .ok (.string (toHex v))
      | .int128 v => .ok (.string (Text.integer v))
      | .uint128 v => .ok (.string (Text.integer v))
      | .aboveMax => .error (.internal "unsupported partition value: AboveMax".toList)
      | .belowMin => .error (.internal "unsupported partition value: BelowMin".toList)

/-- The type of the partition tuple of the spec `id`, where its spec can be bound
to the current schema. -/
def partitionTypes (metadata : TableMetadata) (id : Int32) : Option (List NestedField) :=
  (metadata.partitionSpecs.find? fun spec => spec.specId == id).bind fun spec =>
    (s.partitionType spec metadata.currentSchema).toOption

def partitionJson (partition : List (Option Literal)) (fields : Option (List NestedField)) :
    Except AppError (List Json) :=
  (partition.zipIdx).mapM fun (literal, index) =>
    match literal, (fields.getD [])[index]? with
    | none, _ => .ok .null
    | some literal, some field =>
        (s.tryIntoJson literal field.fieldType).mapError AppError.fromIceberg
    | some literal, none => literalJson s literal

/-- The ids of a map the client asked about, in order. -/
def wantedKeys {V : Type} (values : Int32 → Option V) (wanted : List Int32) : List (Int32 × V) :=
  (wanted.mergeSort fun a b => a.toInt ≤ b.toInt).filterMap fun id =>
    (values id).map fun value => (id, value)

/-- The members of a map's object, none where it is empty. -/
def keyedMember (name : String) (keys values : List Json) : List (String × Json) :=
  if keys.isEmpty then []
  else [(name, .of [("keys", .array keys), ("values", .array values)])]

def insertCountMap (name : String) (values : Int32 → Option UInt64) (wanted : List Int32) :
    List (String × Json) :=
  let entries := wantedKeys values wanted
  keyedMember name (entries.map fun entry => .ofInt32 entry.1)
    (entries.map fun entry => jsonOfUInt64 entry.2)

def insertValueMap (name : String) (values : Int32 → Option x.Datum) (wanted : List Int32)
    (schema : Schema) : Except AppError (List (String × Json)) := do
  let entries := wantedKeys values wanted
  let encoded ← entries.mapM fun (id, datum) =>
    let fieldType := ((schema.fieldById id).map NestedField.fieldType).getD
      (.primitive (s.dataType datum))
    (s.tryIntoJson (s.literalFrom datum) fieldType).mapError AppError.fromIceberg
  return keyedMember name (entries.map fun entry => .ofInt32 entry.1) encoded

/-- The statistics of the fields the client named. -/
def statisticsMembers (statistics : Statistics x.Datum) (schema : Schema)
    (statsFields : Option (List Int32)) : Except AppError (List (String × Json)) :=
  match statsFields with
  | none => .ok []
  | some wanted => do
      let lower ← insertValueMap s "lower-bounds" statistics.lowerBounds wanted schema
      let upper ← insertValueMap s "upper-bounds" statistics.upperBounds wanted schema
      return insertCountMap "column-sizes" statistics.columnSizes wanted ++
        insertCountMap "value-counts" statistics.valueCounts wanted ++
        insertCountMap "null-value-counts" statistics.nullValueCounts wanted ++
        insertCountMap "nan-value-counts" statistics.nanValueCounts wanted ++ lower ++ upper

def DataContentType.toText : DataContentType → String
  | .data => "data"
  | .positionDeletes => "position-deletes"
  | .equalityDeletes => "equality-deletes"

def DataFileFormat.toText : DataFileFormat → String
  | .avro => "avro"
  | .orc => "orc"
  | .parquet => "parquet"
  | .puffin => "puffin"

/-- A list that is sent only where it has elements. -/
def nonempty {α : Type} (values : Option (List α)) : Option (List α) :=
  values.filter fun values => !values.isEmpty

/-- Encodes a `DataFile` in the shape of a `ContentFile`. -/
def contentFileJson (file : DataFile x.Datum) (specId : Int32) (schema : Schema)
    (types : Int32 → Option (List NestedField)) (statsFields : Option (List Int32)) :
    Except AppError Json := do
  let partition ← partitionJson s file.partition (types specId)
  let statistics ← statisticsMembers s file.statistics schema statsFields
  return .of ([("content", .str file.contentType.toText), ("file-path", .string file.filePath),
      ("file-format", .str file.fileFormat.toText), ("spec-id", .ofInt32 specId),
      ("partition", .array partition), ("file-size-in-bytes", jsonOfUInt64 file.fileSizeInBytes),
      ("record-count", jsonOfUInt64 file.recordCount)] ++
    optionalMember "key-metadata" (file.keyMetadata.map fun bytes => .string (toHex bytes)) ++
    optionalMember "split-offsets"
      ((nonempty file.splitOffsets).map fun offsets => .array (offsets.map jsonOfInt64)) ++
    optionalMember "sort-order-id" (file.sortOrderId.map Json.ofInt32) ++
    optionalMember "first-row-id" (file.firstRowId.map jsonOfInt64) ++
    optionalMember "equality-ids"
      ((nonempty file.equalityIds).map fun ids => .array (ids.map Json.ofInt32)) ++
    optionalMember "content-offset" (file.contentOffset.map jsonOfInt64) ++
    optionalMember "content-size-in-bytes" (file.contentSizeInBytes.map jsonOfInt64) ++
    statistics)

/-- Encodes what a scan task knows of its file. -/
def dataFileJsonFromTask (task : FileScanTask) (types : Int32 → Option (List NestedField)) :
    Except AppError Json := do
  let specId := (task.partitionSpec.map PartitionSpec.specId).getD 0
  let partition ← match task.partition with
    | some partition => partitionJson s partition (types specId)
    | none => .ok []
  return .of ([("content", .str "data"), ("file-path", .string task.dataFilePath),
      ("file-format", .str task.dataFileFormat.toText), ("spec-id", .ofInt32 specId),
      ("partition", .array partition), ("file-size-in-bytes", jsonOfUInt64 task.fileSizeInBytes),
      ("record-count", (task.recordCount.map jsonOfUInt64).getD .null)] ++
    optionalMember "first-row-id" (task.firstRowId.map jsonOfInt64))

/-! ## After the scan -/

/-- Manifest entries by path, each with the spec of its manifest. -/
abbrev FoundFiles (Datum : Type) := List (Text × DataFile Datum × Int32)

/-- `HashMap::insert` -/
def FoundFiles.insert {Datum : Type} (found : FoundFiles Datum) (path : Text)
    (file : DataFile Datum × Int32) : FoundFiles Datum :=
  (path, file) :: found.filter fun entry => entry.1 != path

/-- The entries of one manifest that are wanted and not deleted. -/
def gatherEntries {Datum : Type} (wanted : List Text) (specId : Int32)
    (found : FoundFiles Datum) (entries : List (ManifestEntry Datum)) : FoundFiles Datum :=
  entries.foldl (fun found entry =>
    if entry.status = .deleted then found
    else if wanted.contains entry.dataFile.filePath then
      found.insert entry.dataFile.filePath (entry.dataFile, specId)
    else found) found

/-- The loop over the manifests, which ends once every wanted file is found. -/
def gatherManifests {Datum : Type} (manifests : Manifests Datum) (wanted : List Text) :
    FoundFiles Datum → List ManifestFile → Except AppError (FoundFiles Datum)
  | found, [] => .ok found
  | found, manifestFile :: rest =>
      match manifests.read manifestFile with
      | .error e => .error (.fromIceberg e)
      | .ok entries =>
          let found := gatherEntries wanted manifestFile.partitionSpecId found entries
          if found.length = wanted.length then .ok found
          else gatherManifests manifests wanted found rest

/-- Reads the snapshot's manifests, keeping the entries `wanted` names. -/
def readManifestFiles {Datum : Type} (manifests : Manifests Datum) (snapshot : Snapshot)
    (wanted : List Text) : Except AppError (FoundFiles Datum) :=
  match manifests.manifestList snapshot with
  | .error e => .error (.fromIceberg e)
  | .ok manifestFiles => gatherManifests manifests wanted [] manifestFiles

/-- The manifests are not read again where nothing of them is wanted. -/
def readWanted {Datum : Type} (manifests : Manifests Datum) (snapshot : Snapshot)
    (wanted : List Text) : Except AppError (FoundFiles Datum) :=
  if wanted.isEmpty then .ok [] else readManifestFiles manifests snapshot wanted

def maxTasks : Nat := 25000

/-- A file the manifests describe, or else what its task knows of it. -/
def foundFileJson (plan : PreparedPlan x.Predicate) (types : Int32 → Option (List NestedField))
    (file : Option (DataFile x.Datum × Int32)) (missing : Except AppError Json) :
    Except AppError Json :=
  match file with
  | some (file, specId) => contentFileJson s file specId plan.schema types plan.statsFields
  | none => missing

/-- A delete file, which has to be in the manifests. -/
def deleteFileJson (plan : PreparedPlan x.Predicate) (types : Int32 → Option (List NestedField))
    (files : FoundFiles x.Datum) (path : Text) : Except AppError Json :=
  foundFileJson s plan types (files.lookup path)
    (.error (.internal ("the scan referenced delete file '".toList ++ path ++
      "', which is not in the snapshot's manifests".toList)))

/-- A task, which references its delete files by their place in the list. -/
def fileScanTaskJson (plan : PreparedPlan x.Predicate) (types : Int32 → Option (List NestedField))
    (files : FoundFiles x.Datum) (orderedDeletes : List Text) (task : FileScanTask) :
    Except AppError Json := do
  let dataFile ← foundFileJson s plan types (files.lookup task.dataFilePath)
    (dataFileJsonFromTask s task types)
  let references := task.deletes.filterMap fun path =>
    (orderedDeletes.idxOf? path).map fun index => jsonOfUInt64 (UInt64.ofNat index)
  return .of ([("data-file", dataFile)] ++
    (if task.deletes.isEmpty then [] else [("delete-file-references", .array references)]) ++
    optionalMember "residual-filter" plan.residual)

/-- Encodes the tasks of a scan, delete files first. -/
def encodePlan (metadata : TableMetadata) (plan : PreparedPlan x.Predicate)
    (tasks : List FileScanTask) (deletePaths : List Text) (files : FoundFiles x.Datum)
    (planId : Text) : Except AppError CompletedPlan := do
  let types := partitionTypes s metadata
  let orderedDeletes := deletePaths.mergeSort fun a b => a ≤ b
  let deleteFiles ← orderedDeletes.mapM (deleteFileJson s plan types files)
  let fileScanTasks ← tasks.mapM (fileScanTaskJson s plan types files orderedDeletes)
  return ⟨"completed".toList, planId, deleteFiles, fileScanTasks⟩

/-- Reads what is wanted of the manifests, and encodes the tasks of a scan. -/
def finishPlan (table : Table x.Datum) (plan : PreparedPlan x.Predicate) (snapshot : Snapshot)
    (tasks : List FileScanTask) (planId : Text) : Except AppError CompletedPlan := do
  let deletePaths := (tasks.flatMap FileScanTask.deletes).dedup
  let wanted :=
    if plan.statsFields.isSome then (tasks.map FileScanTask.dataFilePath ++ deletePaths).dedup
    else deletePaths
  let files ← readWanted table.manifests snapshot wanted
  encodePlan s table.metadata plan tasks deletePaths files planId

/-- Plans the scan and encodes it; `planId` names the plan. -/
def buildPlan (table : Table x.Datum) (request : PlanTableScanRequest) (obligations : Obligations)
    (planId : Text) : Except AppError CompletedPlan := do
  let plan ← preparePlan table request obligations
  match plan.snapshot with
  | none => return ⟨"completed".toList, planId, [], []⟩
  | some snapshot => do
      let stream ← (s.planFiles table ⟨snapshot, request.caseSensitive, plan.filter,
        request.select⟩).mapError AppError.fromIceberg
      let tasks ← ((stream.take (maxTasks + 1)).mapM id).mapError AppError.fromIceberg
      if tasks.length > maxTasks then
        .error (.badRequest ("This scan plans more than this catalog's limit of 25000 files for " ++
          "one response. Narrow the filter, or plan against a smaller snapshot.").toList)
      else finishPlan s table plan snapshot tasks planId

end

end Rustberg.Query
