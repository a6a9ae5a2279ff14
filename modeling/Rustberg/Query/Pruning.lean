import Rustberg.Base.Result
import Rustberg.Query.Plan
import Rustberg.Query.Widening

/-!
# What a plan tells of a masked column

`Table.hide` takes the statistics of masked columns away. Everything a plan
encodes is the same with and without them (`finishPlan_hide`), so the one
thing left that reads them is the scan, which prunes by the columns the
filter refers to.

`plan_hides_masked` says that a plan depends on a masked column exactly when
its filter, the client's or a policy's, refers to one.
-/

namespace Rustberg.Query

open Auth

variable {x : IcebergExpr}

/-! ## Hiding statistics -/

/-- A map without the masked fields. -/
def hideIds {V : Type} (masked : List Int32) (values : Int32 → Option V) : Int32 → Option V :=
  fun id => if id ∈ masked then none else values id

def Statistics.hide {Datum : Type} (masked : List Int32) (statistics : Statistics Datum) :
    Statistics Datum where
  columnSizes := hideIds masked statistics.columnSizes
  valueCounts := hideIds masked statistics.valueCounts
  nullValueCounts := hideIds masked statistics.nullValueCounts
  nanValueCounts := hideIds masked statistics.nanValueCounts
  lowerBounds := hideIds masked statistics.lowerBounds
  upperBounds := hideIds masked statistics.upperBounds

def DataFile.hide {Datum : Type} (masked : List Int32) (file : DataFile Datum) : DataFile Datum :=
  { file with statistics := file.statistics.hide masked }

def ManifestEntry.hide {Datum : Type} (masked : List Int32) (entry : ManifestEntry Datum) :
    ManifestEntry Datum :=
  { entry with dataFile := entry.dataFile.hide masked }

def Manifests.hide {Datum : Type} (masked : List Int32) (manifests : Manifests Datum) :
    Manifests Datum :=
  { manifests with
    read := fun manifestFile =>
      (manifests.read manifestFile).map (List.map (ManifestEntry.hide masked)) }

def Table.hide {Datum : Type} (masked : List Int32) (table : Table Datum) : Table Datum :=
  { table with manifests := table.manifests.hide masked }

def FoundFiles.hide {Datum : Type} (masked : List Int32) (found : FoundFiles Datum) :
    FoundFiles Datum :=
  found.map fun entry => (entry.1, entry.2.1.hide masked, entry.2.2)

/-! ## What is encoded -/

section

variable (s : IcebergScan x) {masked : List Int32}

theorem wantedKeys_hide {V : Type} (values : Int32 → Option V) {wanted : List Int32}
    (h : ∀ id ∈ wanted, id ∉ masked) :
    wantedKeys (hideIds masked values) wanted = wantedKeys values wanted := by
  unfold wantedKeys
  refine List.filterMap_congr fun id hid => ?_
  rw [hideIds, if_neg (h id ((List.mergeSort_perm _ _).mem_iff.mp hid))]

theorem statisticsMembers_hide (statistics : Statistics x.Datum) (schema : Schema)
    {statsFields : Option (List Int32)} (h : ∀ ids ∈ statsFields, ∀ id ∈ ids, id ∉ masked) :
    statisticsMembers s (statistics.hide masked) schema statsFields =
      statisticsMembers s statistics schema statsFields := by
  cases statsFields with
  | none => rfl
  | some wanted =>
      have hwanted := h wanted rfl
      simp only [statisticsMembers, insertCountMap, insertValueMap, Statistics.hide,
        wantedKeys_hide _ hwanted]

theorem contentFileJson_hide (file : DataFile x.Datum) (specId : Int32) (schema : Schema)
    (types : Int32 → Option (List NestedField)) {statsFields : Option (List Int32)}
    (h : ∀ ids ∈ statsFields, ∀ id ∈ ids, id ∉ masked) :
    contentFileJson s (file.hide masked) specId schema types statsFields =
      contentFileJson s file specId schema types statsFields := by
  simp only [contentFileJson, DataFile.hide, statisticsMembers_hide s _ _ h]

variable {Datum : Type}

theorem length_hide (found : FoundFiles Datum) : (found.hide masked).length = found.length :=
  List.length_map _

theorem lookup_hide (found : FoundFiles Datum) (path : Text) :
    (found.hide masked).lookup path =
      (found.lookup path).map fun file => (file.1.hide masked, file.2) := by
  induction found with
  | nil => rfl
  | cons entry found ih =>
      obtain ⟨path', file⟩ := entry
      rw [FoundFiles.hide, List.map_cons, List.lookup_cons, List.lookup_cons]
      cases path == path' with
      | true => rfl
      | false => exact ih

theorem insert_hide (found : FoundFiles Datum) (path : Text) (file : DataFile Datum × Int32) :
    (found.insert path file).hide masked =
      (found.hide masked).insert path (file.1.hide masked, file.2) := by
  simp only [FoundFiles.insert, FoundFiles.hide, List.map_cons, List.filter_map, Function.comp_def]

theorem gatherEntries_hide (wanted : List Text) (specId : Int32) (found : FoundFiles Datum)
    (entries : List (ManifestEntry Datum)) :
    gatherEntries wanted specId (found.hide masked) (entries.map (ManifestEntry.hide masked)) =
      (gatherEntries wanted specId found entries).hide masked := by
  unfold gatherEntries
  induction entries generalizing found with
  | nil => rfl
  | cons entry entries ih =>
      rw [List.map_cons, List.foldl_cons, List.foldl_cons, ← ih]
      congr 1
      change (if entry.status = .deleted then found.hide masked else
        if wanted.contains entry.dataFile.filePath then
          (found.hide masked).insert entry.dataFile.filePath (entry.dataFile.hide masked, specId)
        else found.hide masked) = _
      rw [← insert_hide found _ (entry.dataFile, specId)]
      split
      · rfl
      · split <;> rfl

theorem gatherManifests_hide (manifests : Manifests Datum) (wanted : List Text)
    (found : FoundFiles Datum) (manifestFiles : List ManifestFile) :
    gatherManifests (manifests.hide masked) wanted (found.hide masked) manifestFiles =
      (gatherManifests manifests wanted found manifestFiles).map (FoundFiles.hide masked) := by
  induction manifestFiles generalizing found with
  | nil => rfl
  | cons manifestFile rest ih =>
      rw [gatherManifests, gatherManifests, Manifests.hide]
      dsimp only
      cases manifests.read manifestFile with
      | error e => rfl
      | ok entries =>
          dsimp only [Except.map]
          rw [gatherEntries_hide, length_hide]
          split
          · rfl
          · exact ih _

theorem readManifestFiles_hide (manifests : Manifests Datum) (snapshot : Snapshot)
    (wanted : List Text) :
    readManifestFiles (manifests.hide masked) snapshot wanted =
      (readManifestFiles manifests snapshot wanted).map (FoundFiles.hide masked) := by
  have hlist : (manifests.hide masked).manifestList = manifests.manifestList := rfl
  rw [readManifestFiles, readManifestFiles, hlist]
  cases manifests.manifestList snapshot with
  | error e => rfl
  | ok manifestFiles => exact gatherManifests_hide manifests wanted [] manifestFiles

theorem readWanted_hide (manifests : Manifests Datum) (snapshot : Snapshot) (wanted : List Text) :
    readWanted (manifests.hide masked) snapshot wanted =
      (readWanted manifests snapshot wanted).map (FoundFiles.hide masked) := by
  unfold readWanted
  split
  · rfl
  · exact readManifestFiles_hide manifests snapshot wanted

theorem foundFileJson_hide {plan : PreparedPlan x.Predicate}
    (types : Int32 → Option (List NestedField)) (file : Option (DataFile x.Datum × Int32))
    (missing : Except AppError Json) (h : ∀ ids ∈ plan.statsFields, ∀ id ∈ ids, id ∉ masked) :
    foundFileJson s plan types (file.map fun file => (file.1.hide masked, file.2)) missing =
      foundFileJson s plan types file missing := by
  cases file with
  | none => rfl
  | some file => exact contentFileJson_hide s file.1 file.2 plan.schema types h

theorem encodePlan_hide (metadata : TableMetadata) {plan : PreparedPlan x.Predicate}
    (tasks : List FileScanTask) (deletePaths : List Text) (files : FoundFiles x.Datum)
    (planId : Text) (h : ∀ ids ∈ plan.statsFields, ∀ id ∈ ids, id ∉ masked) :
    encodePlan s metadata plan tasks deletePaths (files.hide masked) planId =
      encodePlan s metadata plan tasks deletePaths files planId := by
  have hdelete : ∀ types, deleteFileJson s plan types (files.hide masked) =
      deleteFileJson s plan types files := by
    intro types
    funext path
    rw [deleteFileJson, deleteFileJson, lookup_hide, foundFileJson_hide s types _ _ h]
  have htask : ∀ types ordered, fileScanTaskJson s plan types (files.hide masked) ordered =
      fileScanTaskJson s plan types files ordered := by
    intro types ordered
    funext task
    rw [fileScanTaskJson, fileScanTaskJson, lookup_hide, foundFileJson_hide s types _ _ h]
  rw [encodePlan, encodePlan, hdelete, htask]

/-- What is encoded of the tasks does not depend on the statistics of masked
columns. -/
theorem finishPlan_hide (table : Table x.Datum) {plan : PreparedPlan x.Predicate}
    (snapshot : Snapshot) (tasks : List FileScanTask) (planId : Text)
    (h : ∀ ids ∈ plan.statsFields, ∀ id ∈ ids, id ∉ masked) :
    finishPlan s (table.hide masked) plan snapshot tasks planId =
      finishPlan s table plan snapshot tasks planId := by
  unfold finishPlan
  change (readWanted (table.manifests.hide masked) snapshot _ >>= _) =
    (readWanted table.manifests snapshot _ >>= _)
  rw [readWanted_hide]
  generalize readWanted table.manifests snapshot _ = files
  cases files with
  | error e => rfl
  | ok found => exact encodePlan_hide s table.metadata tasks _ found planId h

end

/-! ## What the scan reads -/

section

variable (s : IcebergScan x)

/-- A predicate's references, as a scan resolves them. -/
def IcebergScan.Refers (request : ScanRequest x.Predicate) (id : Int32) : Prop :=
  ∃ predicate ∈ request.filter, ∃ schema, request.snapshot.schema = .ok schema ∧
    ∃ name field, s.refersTo predicate name ∧
      schema.lookup (.fromFlag request.caseSensitive) name = some field ∧ field.id = id

/-- A scan prunes by the statistics of the columns its filter refers to, and by no
others. -/
def IcebergScan.PrunesByReferences : Prop :=
  ∀ (t t' : Table x.Datum) (request : ScanRequest x.Predicate) (masked : List Int32),
    t.hide masked = t'.hide masked → (∀ id ∈ masked, ¬ s.Refers request id) →
      s.planFiles t request = s.planFiles t' request

variable (table : Table x.Datum) (request : PlanTableScanRequest) (obligations : Obligations)

/-- Whatever scan prunes, the answer is the same for manifests that differ in the
statistics of masked columns. -/
def HidesMasked : Prop :=
  ∀ planFiles, IcebergScan.PrunesByReferences { s with planFiles := planFiles } →
    ∀ masked, maskedFieldIds table.metadata obligations = .ok masked →
      ∀ m m' : Manifests x.Datum, m.hide masked = m'.hide masked → ∀ planId,
        buildPlan { s with planFiles := planFiles } { table with manifests := m } request
            obligations planId =
          buildPlan { s with planFiles := planFiles } { table with manifests := m' } request
            obligations planId

/-- The plan comes to a scan whose filter refers to a masked column. -/
def ScansByMasked : Prop :=
  ∃ plan, preparePlan table request obligations = .ok plan ∧
    ∃ snapshot, plan.snapshot = some snapshot ∧
      ∃ masked, maskedFieldIds table.metadata obligations = .ok masked ∧
        ∃ id ∈ masked,
          s.Refers ⟨snapshot, request.caseSensitive, plan.filter, request.select⟩ id

theorem statsFieldIds_unmasked {names : Option (List Text)} {schema : Schema}
    {case : CaseSensitivity} {masked : List Int32} {statsFields : Option (List Int32)}
    (h : statsFieldIds names schema case masked = .ok statsFields) :
    ∀ ids ∈ statsFields, ∀ id ∈ ids, id ∉ masked := by
  unfold statsFieldIds at h
  split at h
  · cases h
    intro ids hids
    cases hids
  · obtain ⟨found, hfound, h⟩ := Except.bind_eq_ok.mp h
    cases h
    intro ids hids id hid
    cases hids
    obtain ⟨name, -, hname⟩ := Except.of_mem_mapM hfound id (List.mem_dedup.mp hid)
    split at hname
    · cases hname
    · split at hname
      · cases hname
      · next hmasked =>
          cases hname
          exact fun hid => hmasked (List.contains_iff_mem.mpr hid)

/-- The statistics a plan sends are of columns that are not masked. -/
theorem preparePlan_unmasked {plan : PreparedPlan x.Predicate}
    (h : preparePlan table request obligations = .ok plan) :
    ∃ masked, maskedFieldIds table.metadata obligations = .ok masked ∧
      ∀ ids ∈ plan.statsFields, ∀ id ∈ ids, id ∉ masked := by
  obtain ⟨snapshot, -, h⟩ := Except.bind_eq_ok.mp h
  obtain ⟨schema, -, h⟩ := Except.bind_eq_ok.mp h
  obtain ⟨requested, -, h⟩ := Except.bind_eq_ok.mp h
  obtain ⟨masked, hmasked, h⟩ := Except.bind_eq_ok.mp h
  obtain ⟨_, -, h⟩ := Except.bind_eq_ok.mp h
  obtain ⟨statsFields, hstats, h⟩ := Except.bind_eq_ok.mp h
  cases h
  exact ⟨masked, hmasked, statsFieldIds_unmasked hstats⟩

variable {table request obligations}

/-! ## From the one to the other -/

theorem buildPlan_error {e : AppError} (hplan : preparePlan table request obligations = .error e)
    (m : Manifests x.Datum) (planId : Text) :
    buildPlan s { table with manifests := m } request obligations planId = .error e := by
  change (preparePlan table request obligations >>= _) = _
  rw [hplan]
  rfl

theorem buildPlan_none {plan : PreparedPlan x.Predicate}
    (hplan : preparePlan table request obligations = .ok plan) (hsnapshot : plan.snapshot = none)
    (m : Manifests x.Datum) (planId : Text) :
    buildPlan s { table with manifests := m } request obligations planId =
      .ok ⟨"completed".toList, planId, [], []⟩ := by
  have hplan' : preparePlan { table with manifests := m } request obligations = .ok plan := hplan
  rw [buildPlan, hplan', Except.ok_bind, hsnapshot]
  rfl

theorem buildPlan_some {plan : PreparedPlan x.Predicate} {snapshot : Snapshot}
    (hplan : preparePlan table request obligations = .ok plan)
    (hsnapshot : plan.snapshot = some snapshot) (m : Manifests x.Datum) (planId : Text) :
    buildPlan s { table with manifests := m } request obligations planId =
      (s.planFiles { table with manifests := m } ⟨snapshot, request.caseSensitive, plan.filter,
          request.select⟩).mapError AppError.fromIceberg >>= fun stream =>
        ((stream.take (maxTasks + 1)).mapM id).mapError AppError.fromIceberg >>= fun tasks =>
          if tasks.length > maxTasks then
            .error
              (.badRequest ("This scan plans more than this catalog's limit of 25000 files for " ++
              "one response. Narrow the filter, or plan against a smaller snapshot.").toList)
          else finishPlan s { table with manifests := m } plan snapshot tasks planId := by
  have hplan' : preparePlan { table with manifests := m } request obligations = .ok plan := hplan
  rw [buildPlan, hplan', Except.ok_bind, hsnapshot]

theorem hidesMasked_of_not_scans (h : ¬ ScansByMasked s table request obligations) :
    HidesMasked s table request obligations := by
  intro planFiles hprunes masked hmasked m m' hhide planId
  cases hplan : preparePlan table request obligations with
  | error e => rw [buildPlan_error _ hplan, buildPlan_error _ hplan]
  | ok plan =>
      cases hsnapshot : plan.snapshot with
      | none => rw [buildPlan_none _ hplan hsnapshot, buildPlan_none _ hplan hsnapshot]
      | some snapshot =>
          obtain ⟨masked', hmasked', hunmasked⟩ :=
            preparePlan_unmasked table request obligations hplan
          obtain rfl := Except.ok.inj (hmasked.symm.trans hmasked')
          have htables : ({ table with manifests := m } : Table x.Datum).hide masked =
              ({ table with manifests := m' } : Table x.Datum).hide masked := by
            unfold Table.hide
            rw [hhide]
          have hscan := hprunes { table with manifests := m } { table with manifests := m' }
            ⟨snapshot, request.caseSensitive, plan.filter, request.select⟩ masked htables
            fun id hid hrefers =>
              h ⟨plan, hplan, snapshot, hsnapshot, masked, hmasked, id, hid, hrefers⟩
          rw [buildPlan_some _ hplan hsnapshot, buildPlan_some _ hplan hsnapshot, hscan]
          refine congrArg _ (funext fun stream => congrArg _ (funext fun tasks => ?_))
          split
          · rfl
          · rw [← finishPlan_hide _ _ snapshot tasks planId hunmasked, htables,
              finishPlan_hide _ _ snapshot tasks planId hunmasked]

/-- The manifests of `m` record a lower bound of the field `id`. -/
def RecordsBound {Datum : Type} (m : Manifests Datum) (id : Int32) : Prop :=
  ∃ manifestFile entries, m.read manifestFile = .ok entries ∧
    ∃ entry ∈ entries, (entry.dataFile.statistics.lowerBounds id).isSome

theorem recordsBound_hide {Datum : Type} (m : Manifests Datum) {masked : List Int32} {id : Int32}
    (hid : id ∉ masked) : RecordsBound (m.hide masked) id ↔ RecordsBound m id := by
  unfold RecordsBound
  refine exists_congr fun manifestFile => ⟨?_, ?_⟩
  · rintro ⟨hidden, hread, entry, hentry, hbound⟩
    obtain ⟨entries, hread', rfl⟩ := Except.map_eq_ok.mp hread
    obtain ⟨entry, hentry', rfl⟩ := List.mem_map.mp hentry
    refine ⟨entries, hread', entry, hentry', ?_⟩
    change (hideIds masked entry.dataFile.statistics.lowerBounds id).isSome at hbound
    rwa [hideIds, if_neg hid] at hbound
  · rintro ⟨entries, hread, entry, hentry, hbound⟩
    refine ⟨_, Except.map_eq_ok.mpr ⟨entries, hread, rfl⟩, _,
      List.mem_map_of_mem hentry, ?_⟩
    change (hideIds masked entry.dataFile.statistics.lowerBounds id).isSome
    rwa [hideIds, if_neg hid]

theorem hideIds_hideIds {V : Type} (masked : List Int32) (values : Int32 → Option V) :
    hideIds masked (hideIds masked values) = hideIds masked values := by
  funext id
  unfold hideIds
  split <;> rfl

theorem ManifestEntry.hide_hide {Datum : Type} (masked : List Int32)
    (entry : ManifestEntry Datum) : (entry.hide masked).hide masked = entry.hide masked := by
  simp only [ManifestEntry.hide, DataFile.hide, Statistics.hide, hideIds_hideIds]

theorem Manifests.hide_hide {Datum : Type} (masked : List Int32) (m : Manifests Datum) :
    (m.hide masked).hide masked = m.hide masked := by
  have hread : ∀ manifestFile, ((m.hide masked).hide masked).read manifestFile =
      (m.hide masked).read manifestFile := by
    intro manifestFile
    simp only [Manifests.hide]
    cases m.read manifestFile with
    | error e => rfl
    | ok entries =>
        simp only [Except.map, List.map_map, Function.comp_def, ManifestEntry.hide_hide]
  exact congrArg (Manifests.mk m.manifestList) (funext hread)

/-- One manifest with one file, of which the field `id` has a lower bound. -/
def oneBound {Datum : Type} (id : Int32) (bound : Datum) : Manifests Datum where
  manifestList _ := .ok []
  read _ := .ok [⟨.added, {
    contentType := .data
    filePath := []
    fileFormat := .parquet
    partition := []
    fileSizeInBytes := 0
    recordCount := 0
    keyMetadata := none
    splitOffsets := none
    sortOrderId := none
    firstRowId := none
    equalityIds := none
    contentOffset := none
    contentSizeInBytes := none
    statistics := { lowerBounds := fun id' => if id' = id then some bound else none } }⟩]

theorem recordsBound_oneBound {Datum : Type} (id : Int32) (bound : Datum) :
    RecordsBound (oneBound id bound) id :=
  ⟨⟨[], 0⟩, _, rfl, _, List.mem_singleton_self _, by simp⟩

theorem not_recordsBound_hide {Datum : Type} (m : Manifests Datum) {masked : List Int32}
    {id : Int32} (hid : id ∈ masked) : ¬ RecordsBound (m.hide masked) id := by
  rintro ⟨manifestFile, hidden, hread, entry, hentry, hbound⟩
  obtain ⟨entries, -, rfl⟩ := Except.map_eq_ok.mp hread
  obtain ⟨entry, -, rfl⟩ := List.mem_map.mp hentry
  change (hideIds masked entry.dataFile.statistics.lowerBounds id).isSome at hbound
  rw [hideIds, if_pos hid] at hbound
  cases hbound

open Classical in
/-- A scan that fails unless a lower bound of the field `id` rules every file out. -/
noncomputable def boundScan (id : Int32) :
    Table x.Datum → ScanRequest x.Predicate → Except Error (List (Except Error FileScanTask)) :=
  fun t request =>
    if s.Refers request id ∧ RecordsBound t.manifests id then .ok []
    else .error (invalid "unreadable".toList)

theorem boundScan_prunes (id : Int32) :
    IcebergScan.PrunesByReferences { s with planFiles := boundScan s id } := by
  intro t t' request masked htables hmasked
  change boundScan s id t request = boundScan s id t' request
  have hsame : s.Refers request id ∧ RecordsBound t.manifests id ↔
      s.Refers request id ∧ RecordsBound t'.manifests id := by
    refine and_congr_right fun hrefers => ?_
    have hid : id ∉ masked := fun hid => hmasked id hid hrefers
    have hmanifests : t.manifests.hide masked = t'.manifests.hide masked :=
      congrArg Table.manifests htables
    rw [← recordsBound_hide _ hid, hmanifests, recordsBound_hide _ hid]
  unfold boundScan
  by_cases h : s.Refers request id ∧ RecordsBound t.manifests id
  · rw [if_pos h, if_pos (hsame.mp h)]
  · rw [if_neg h, if_neg fun h' => h (hsame.mpr h')]

theorem finishPlan_nil (table : Table x.Datum) (plan : PreparedPlan x.Predicate)
    (snapshot : Snapshot) (planId : Text) :
    finishPlan s table plan snapshot [] planId =
      .ok ⟨"completed".toList, planId, [], []⟩ := by
  unfold finishPlan
  simp only [List.flatMap_nil, List.dedup_nil, List.map_nil, List.append_nil, ite_self]
  change encodePlan s table.metadata plan [] [] [] planId = _
  unfold encodePlan
  simp only [List.mergeSort_nil, List.mapM_nil]
  rfl

theorem not_hidesMasked_of_scans (h : ScansByMasked s table request obligations) :
    ¬ HidesMasked s table request obligations := by
  obtain ⟨plan, hplan, snapshot, hsnapshot, masked, hmasked, id, hid, hrefers⟩ := h
  intro hhides
  have hsame := hhides (boundScan s id) (boundScan_prunes s id) masked hmasked
    (oneBound id (x.bool true)) ((oneBound id (x.bool true)).hide masked)
    (Manifests.hide_hide masked _).symm []
  rw [buildPlan_some _ hplan hsnapshot, buildPlan_some _ hplan hsnapshot] at hsame
  have hpruned : boundScan s id { table with manifests := oneBound id (x.bool true) }
      ⟨snapshot, request.caseSensitive, plan.filter, request.select⟩ = .ok [] :=
    if_pos ⟨hrefers, recordsBound_oneBound id _⟩
  have hfailed : boundScan s id { table with manifests := (oneBound id (x.bool true)).hide masked }
      ⟨snapshot, request.caseSensitive, plan.filter, request.select⟩ =
        .error (invalid "unreadable".toList) :=
    if_neg fun h => not_recordsBound_hide _ hid h.2
  dsimp only at hsame
  rw [hpruned, hfailed] at hsame
  change finishPlan _ _ _ _ [] _ = _ at hsame
  rw [finishPlan_nil] at hsame
  cases hsame

variable (table request obligations)

/-- A plan depends on the statistics of a masked column exactly when it comes to a
scan whose filter refers to one. -/
theorem plan_hides_masked :
    HidesMasked s table request obligations ↔ ¬ ScansByMasked s table request obligations :=
  ⟨fun h hscans => not_hidesMasked_of_scans s hscans h, hidesMasked_of_not_scans s⟩

end

/-! ## A masked number -/

namespace PlainPredicate

def refersTo : PlainPredicate → Text → Prop
  | alwaysTrue, _ => False
  | alwaysFalse, _ => False
  | and left right, name => left.refersTo name ∨ right.refersTo name
  | or left right, name => left.refersTo name ∨ right.refersTo name
  | column atom, name => atom.column = name

variable (schema : Schema) (case : CaseSensitivity)

/-- Whether a file may hold a row that matches, by the upper bound of the column. -/
def atomMayMatch (upper : Option PlainDatum) : Atom Text PlainDatum → Bool
  | .comparison .gt _ datum => upper.all fun upper => less datum upper == .yes
  | _ => true

def mayMatch (statistics : Statistics PlainDatum) : PlainPredicate → Bool
  | alwaysTrue => true
  | alwaysFalse => false
  | and left right => left.mayMatch statistics && right.mayMatch statistics
  | or left right => left.mayMatch statistics || right.mayMatch statistics
  | column atom =>
      atomMayMatch ((schema.lookup case atom.column).bind fun field =>
        statistics.upperBounds field.id) atom

theorem mayMatch_hide (statistics : Statistics PlainDatum) {masked : List Int32}
    (p : PlainPredicate)
    (h : ∀ name field, p.refersTo name → schema.lookup case name = some field →
      field.id ∉ masked) :
    p.mayMatch schema case (statistics.hide masked) = p.mayMatch schema case statistics := by
  induction p with
  | alwaysTrue => rfl
  | alwaysFalse => rfl
  | and left right ihl ihr | or left right ihl ihr =>
      rw [mayMatch, mayMatch, ihl fun name field hname => h name field (Or.inl hname),
        ihr fun name field hname => h name field (Or.inr hname)]
  | column atom =>
      rw [mayMatch, mayMatch]
      cases hfield : schema.lookup case atom.column with
      | none => rfl
      | some field =>
          have hid := h atom.column field rfl hfield
          change atomMayMatch (hideIds masked statistics.upperBounds field.id) atom = _
          rw [hideIds, if_neg hid]
          rfl

end PlainPredicate

/-- What the scan yields for a file. -/
def plainTask (entry : ManifestEntry PlainDatum) : FileScanTask where
  dataFilePath := entry.dataFile.filePath
  dataFileFormat := entry.dataFile.fileFormat
  partitionSpec := none
  partition := none
  fileSizeInBytes := entry.dataFile.fileSizeInBytes
  recordCount := some entry.dataFile.recordCount
  firstRowId := none
  deletes := []

/-- A scan of a snapshot with one manifest, by upper bounds. -/
def plainPlanFiles (t : Table PlainDatum) (request : ScanRequest PlainPredicate) :
    Except Error (List (Except Error FileScanTask)) :=
  match request.snapshot.schema, t.manifests.manifestList request.snapshot with
  | .ok schema, .ok [manifestFile] =>
      (t.manifests.read manifestFile).map fun entries =>
        (entries.filter fun entry => request.filter.all fun p =>
          p.mayMatch schema (.fromFlag request.caseSensitive) entry.dataFile.statistics).map
            fun entry => .ok (plainTask entry)
  | _, _ => .ok []

def IcebergScan.plain : IcebergScan IcebergExpr.plain where
  refersTo := PlainPredicate.refersTo
  planFiles := plainPlanFiles
  literalFrom
    | .integer n => .primitive (.int128 n)
    | .text s => .primitive (.string s)
  dataType _ := .long
  tryIntoJson _ _ := .ok .null
  partitionType _ _ := .ok []
  jsonOfFloat _ := .null
  jsonOfDouble _ := .null

theorem plainPlanFiles_hide (t : Table PlainDatum) (request : ScanRequest PlainPredicate)
    {masked : List Int32} (h : ∀ id ∈ masked, ¬ IcebergScan.plain.Refers request id) :
    plainPlanFiles (t.hide masked) request = plainPlanFiles t request := by
  unfold plainPlanFiles
  change (match request.snapshot.schema, t.manifests.manifestList request.snapshot with
    | .ok _, .ok [_] => _ | _, _ => _) = _
  split
  · next schema manifestFile hschema hlist =>
      change ((t.manifests.read manifestFile).map (List.map (ManifestEntry.hide masked))).map _ = _
      cases t.manifests.read manifestFile with
      | error e => rfl
      | ok entries =>
          refine congrArg Except.ok ?_
          dsimp only
          rw [List.filter_map, List.map_map]
          refine congrArg (List.map _) (List.filter_congr fun entry _ => ?_)
          cases hfilter : request.filter with
          | none => rfl
          | some p =>
              refine PlainPredicate.mayMatch_hide schema _ entry.dataFile.statistics p ?_
              intro name field hname hfield hid
              exact h field.id hid ⟨p, hfilter, schema, hschema, name, field, hname, hfield, rfl⟩
  · rfl

theorem plain_prunes : IcebergScan.plain.PrunesByReferences := by
  intro t t' request masked htables h
  calc
    plainPlanFiles t request = plainPlanFiles (t.hide masked) request :=
      (plainPlanFiles_hide t request h).symm
    _ = plainPlanFiles (t'.hide masked) request :=
      congrArg (fun t => plainPlanFiles t request) htables
    _ = plainPlanFiles t' request := plainPlanFiles_hide t' request h

def employees : Schema :=
  .flat [.column 1 "id" false .long, .column 2 "salary" false .long] (by decide) (by decide)

/-- One file, whose largest salary is `upper`. -/
def salariesUpTo (upper : Int) : Manifests PlainDatum where
  manifestList _ := .ok [⟨"m0.avro".toList, 0⟩]
  read _ := .ok [⟨.added, {
    contentType := .data
    filePath := "s3://wh/db/t/data/0.parquet".toList
    fileFormat := .parquet
    partition := []
    fileSizeInBytes := 100
    recordCount := 10
    keyMetadata := none
    splitOffsets := none
    sortOrderId := none
    firstRowId := none
    equalityIds := none
    contentOffset := none
    contentSizeInBytes := none
    statistics := { upperBounds := fun id => if id = 2 then some (.integer upper) else none } }⟩]

theorem salariesUpTo_hide (upper upper' : Int) :
    (salariesUpTo upper).hide [2] = (salariesUpTo upper').hide [2] := by
  have hbounds : hideIds [2] (fun id => if id = 2 then some (PlainDatum.integer upper) else none) =
      hideIds [2] (fun id => if id = 2 then some (PlainDatum.integer upper') else none) := by
    funext id
    by_cases hid : id = 2 <;> simp [hideIds, hid]
  unfold Manifests.hide salariesUpTo
  simp only [Except.map, List.map_cons, ManifestEntry.hide, DataFile.hide, Statistics.hide, hbounds]

def salarySnapshot : Snapshot := ⟨1, .ok employees⟩

def salaryTable (m : Manifests PlainDatum) : Table PlainDatum :=
  ⟨⟨employees, [employees], []⟩, [salarySnapshot], some salarySnapshot, m⟩

/-- Files with a salary above 500. -/
def salaryProbe : PlanTableScanRequest where
  snapshotId := none
  select := none
  filter := some (.of [("type", .str "gt"), ("term", .str "salary"),
    ("value", .number (.posInt 500))])
  caseSensitive := true
  useSnapshotSchema := false
  statsFields := none

theorem plan_reveals_bound :
    ¬ ∀ (x : IcebergExpr) (s : IcebergScan x) (table : Table x.Datum)
      (request : PlanTableScanRequest) (obligations : Obligations),
      HidesMasked s table request obligations := by
  intro hall
  have hsame :=
    hall IcebergExpr.plain IcebergScan.plain (salaryTable (salariesUpTo 400)) salaryProbe
    ⟨[], ["salary".toList]⟩ plainPlanFiles plain_prunes [2] rfl (salariesUpTo 400)
    (salariesUpTo 600) (salariesUpTo_hide 400 600) []
  have hnone : ((buildPlan IcebergScan.plain (salaryTable (salariesUpTo 400)) salaryProbe
      ⟨[], ["salary".toList]⟩ []).toOption.map fun plan => plan.fileScanTasks.length) = some 0 := by
    decide +kernel
  have hone : ((buildPlan IcebergScan.plain (salaryTable (salariesUpTo 600)) salaryProbe
      ⟨[], ["salary".toList]⟩ []).toOption.map fun plan => plan.fileScanTasks.length) = some 1 := by
    decide +kernel
  change buildPlan IcebergScan.plain (salaryTable (salariesUpTo 400)) salaryProbe
      ⟨[], ["salary".toList]⟩ [] =
    buildPlan IcebergScan.plain (salaryTable (salariesUpTo 600)) salaryProbe
      ⟨[], ["salary".toList]⟩ [] at hsame
  rw [hsame, hone] at hnone
  cases hnone

end Rustberg.Query
