import Rustberg.Query.Pruning
import Rustberg.V1.ObjectUrl
import Rustberg.V1.Rules
import Rustberg.V1.Sign

/-!
# The scan planning endpoint

`catalog/v1/plan.rs`, from the request to the response. The plan itself is
`Query.buildPlan`. A caller who is held to restrictions gets neither a
credential nor a signature, so the files of its plan are pre-signed one by
one: `planned_presigned` says which URLs a plan can carry, and that nothing
else of it changes.
-/

namespace Rustberg.V1

open Process Auth Api

variable {ib : Iceberg} {d : Crates ib}

/-- What planning uses of `iceberg::scan`, and the tables it reads. -/
structure Planner (ib : Iceberg) where
  expr : Query.IcebergExpr
  scan : Query.IcebergScan expr
  /-- A loaded table, as a scan reads it. -/
  table : Table ib → Query.Table expr.Datum

/-- What pre-signing is configured with. -/
structure Presigning where
  config : SigningEndpointConfig
  allowedPrefixes : List Text
  /-- In seconds. -/
  presignTtl : Nat
  /-- `RequestSigner::presign_get` -/
  presignGet : Text → Text → Nat → Except SigningError Text

/-- The request, with the two fields that ask for an incremental scan. -/
structure PlanRequest where
  scan : Query.PlanTableScanRequest
  startSnapshotId : Option Int64
  endSnapshotId : Option Int64

/-- `impl Display for SigningError` -/
def SigningError.display : SigningError → Text
  | .notConfigured => "Remote signing is not configured for this storage location".toList
  | .unsignable reason => "Request cannot be signed: ".toList ++ reason
  | .failed reason => "Signing failed: ".toList ++ reason

/-! ## Planned files -/

/-- `value[key] = v`, where there is such a member. -/
def setMember (key : Text) (v : Json) : Json → Json
  | .object members => .object (members.map fun m => if m.1 = key then (key, v) else m)
  | other => other

def filePathKey : Text := "file-path".toList

def dataFileKey : Text := "data-file".toList

def member (key : Text) (value : Json) : Option Json :=
  value.asObject.bind fun members => Json.get members key

def filePath (file : Json) : Option Text := (member filePathKey file).bind Json.asStr

/-- The URL one planned file is pre-signed at. -/
def plannedFileUri (tableLocation path region : Text) (config : SigningEndpointConfig) :
    Except AppError Text :=
  if !isWithin tableLocation path then
    .error (.internal ("the plan named '".toList ++ path ++
      ("', which is outside this table's own storage. No URL              is issued for " ++
        "it.").toList))
  else
    match objectUrl path region config with
    | some uri => .ok uri
    | none => .error (.notSupported ("This table's files are at '".toList ++ path ++
        ("', which this server cannot pre-sign — only              S3 locations have a " ++
          "pre-signed URL form here. A restricted table on other              storage is " ++
          "planned but not delegated.").toList))

namespace Presigning

variable (p : Presigning) (location : Text)

def region : Text := p.config.fallbackRegion.getD "us-east-1".toList

/-- A file of the plan, its path replaced by a URL. -/
def file (file : Json) : Except AppError Json :=
  match filePath file with
  | none => .ok file
  | some path => do
      let uri ← plannedFileUri location path p.region p.config
      let signed ← (p.presignGet uri p.region p.presignTtl).mapError fun e =>
        .internal ("could not pre-sign '".toList ++ path ++ "': ".toList ++ e.display)
      return setMember filePathKey (.string signed) file

/-- A task of the plan, with its data file. -/
def task (task : Json) : Except AppError Json :=
  match member dataFileKey task with
  | none => .ok task
  | some dataFile => do
      let dataFile ← p.file location dataFile
      return setMember dataFileKey dataFile task

/-- The data files first, then the delete files. -/
def plan (plan : Query.CompletedPlan) : Except AppError Query.CompletedPlan := do
  let fileScanTasks ← plan.fileScanTasks.mapM (p.task location)
  let deleteFiles ← plan.deleteFiles.mapM (p.file location)
  return { plan with fileScanTasks, deleteFiles }

/-- Whether the files of a plan are pre-signed at all. -/
def applies (app : AppState) (obligations : Obligations) : Bool :=
  !obligations.isEmpty && app.signingEnabled && isVendable p.allowedPrefixes location

end Presigning

/-- Only for a restricted table on storage this server signs for. -/
def presignPlannedFiles (app : AppState) (p : Presigning) (obligations : Obligations)
    (location : Text) (plan : Query.CompletedPlan) : Except AppError Query.CompletedPlan :=
  if p.applies location app obligations then p.plan location plan else .ok plan

/-! ## The handlers -/

section Handlers

variable (app : AppState) (principal : Principal) (request : RequestContext) (table : TableIdent)

/-- `planId` is the fresh name of the plan. -/
def planTableScan (planner : Planner ib) (p : Presigning) (planId : Text) (payload : PlanRequest) :
    Served d Query.CompletedPlan := do
  let authorized ← authorize app principal request table.namespc (.table table.name) .read
  let capabilities ← call (.capabilitiesFor (some table.namespc))
  check (if !capabilities.scanPlanning then .error (.notSupported
      ("This namespace is served by a mount whose storage this catalog does not manage, so it " ++
        "cannot read the manifests a scan plan is built from. Plan client-side against the " ++
        "metadata `loadTable` returns.").toList)
    else .ok ())
  check (if payload.startSnapshotId.isSome || payload.endSnapshotId.isSome then
      .error (.notSupported
        ("Incremental scan planning (start-snapshot-id / end-snapshot-id) is not implemented. " ++
          "Plan the snapshot directly instead.").toList)
    else .ok ())
  let loaded ← call (.loadTable table)
  let tasks ← check (Query.buildPlan planner.scan (planner.table loaded) payload.scan
    authorized.obligations planId)
  check (presignPlannedFiles app p authorized.obligations (ib.location loaded.metadata) tasks)

/-- There is never a plan to poll for. -/
def fetchPlanningResult : Served d Unit := do
  let _ ← authorize app principal request table.namespc (.table table.name) .read
  check (.error (.noSuchPlan ("This catalog completes every plan in the response to " ++
    "planTableScan, so there is no plan to poll for.").toList))

/-- No plan task is ever issued. -/
def fetchScanTasks : Served d Unit := do
  let _ ← authorize app principal request table.namespc (.table table.name) .read
  check (.error (.noSuchPlanTask ("This catalog completes every plan in the response to " ++
    "planTableScan and issues no plan-tasks, so there is no task to fetch. The file scan tasks " ++
    "are in the planTableScan response itself.").toList))

/-- Cancelling a plan that has completed does nothing. -/
def cancelPlanning : Served d Unit := do
  let _ ← authorize app principal request table.namespc (.table table.name) .read
  return ()

end Handlers
/-! ## What a plan carries -/

/-- A URL of a plan, and the file it is for. -/
def PresignedAs (p : Presigning) (location path signed : Text) : Prop :=
  isWithin location path = true ∧ ∃ uri, objectUrl path p.region p.config = some uri ∧
    p.presignGet uri p.region p.presignTtl = .ok signed

/-- The file a task reads. -/
def taskPath (task : Json) : Option Text := (member dataFileKey task).bind filePath

def filePaths (plan : Query.CompletedPlan) : List Text :=
  plan.fileScanTasks.filterMap taskPath ++ plan.deleteFiles.filterMap filePath

/-- A file without its path. -/
def pathless (file : Json) : Json := setMember filePathKey .null file

def pathlessTask (task : Json) : Json :=
  match member dataFileKey task with
  | none => task
  | some dataFile => setMember dataFileKey (pathless dataFile) task

def pathlessPlan (plan : Query.CompletedPlan) : Query.CompletedPlan :=
  { plan with
    fileScanTasks := plan.fileScanTasks.map pathlessTask
    deleteFiles := plan.deleteFiles.map pathless }

theorem plannedFileUri_eq_ok {location path region uri : Text} {config : SigningEndpointConfig} :
    plannedFileUri location path region config = .ok uri ↔
      isWithin location path = true ∧ objectUrl path region config = some uri := by
  unfold plannedFileUri
  cases hwithin : isWithin location path with
  | false =>
      rw [Bool.not_false, if_pos rfl]
      exact iff_of_false (fun h => by cases h) fun h => Bool.false_ne_true h.1
  | true =>
      rw [Bool.not_true, if_neg Bool.false_ne_true]
      cases objectUrl path region config with
      | some url => exact ⟨fun h => ⟨rfl, congrArg some (Except.ok.inj h)⟩,
          fun h => congrArg Except.ok (Option.some.inj h.2)⟩
      | none => exact iff_of_false (fun h => by cases h) fun h => by cases h.2

theorem member_setMember (key : Text) (v value : Json) :
    member key (setMember key v value) = (member key value).map fun _ => v := by
  cases value with
  | object members =>
      change Json.get (members.map _) key = (Json.get members key).map _
      induction members with
      | nil => rfl
      | cons m members ih =>
          obtain ⟨k, w⟩ := m
          rw [List.map_cons, Json.get, Json.get]
          by_cases hk : k = key
          · subst hk
            rw [if_pos rfl, List.lookup_cons_self, List.lookup_cons_self]
            rfl
          · have hne : (key == k) = false := beq_false_of_ne (Ne.symm hk)
            rw [if_neg hk, List.lookup_cons, List.lookup_cons, hne]
            exact ih
  | _ => rfl

theorem setMember_setMember (key : Text) (v w value : Json) :
    setMember key v (setMember key w value) = setMember key v value := by
  cases value with
  | object members =>
      refine congrArg Json.object ?_
      rw [List.map_map]
      refine List.map_congr_left fun m _ => ?_
      rw [Function.comp_apply]
      split <;> simp_all
  | _ => rfl

section

variable {p : Presigning} {location : Text}

theorem Presigning.file_ok {file file' : Json} (h : p.file location file = .ok file') :
    Option.Rel (PresignedAs p location) (filePath file) (filePath file') ∧
      pathless file' = pathless file := by
  unfold Presigning.file at h
  cases hpath : filePath file with
  | none =>
      rw [hpath] at h
      cases h
      rw [hpath]
      exact ⟨.none, rfl⟩
  | some path =>
      rw [hpath] at h
      obtain ⟨uri, huri, h⟩ := Except.bind_eq_ok.mp h
      obtain ⟨signed, hsigned, h⟩ := Except.bind_eq_ok.mp h
      cases h
      obtain ⟨hwithin, hurl⟩ := plannedFileUri_eq_ok.mp huri
      obtain ⟨value, hvalue, -⟩ := Option.bind_eq_some_iff.mp hpath
      refine ⟨?_, setMember_setMember ..⟩
      rw [filePath, member_setMember, hvalue]
      exact .some ⟨hwithin, uri, hurl, Except.mapError_eq_ok.mp hsigned⟩

theorem Presigning.task_ok {task task' : Json} (h : p.task location task = .ok task') :
    Option.Rel (PresignedAs p location) (taskPath task) (taskPath task') ∧
      pathlessTask task' = pathlessTask task := by
  unfold Presigning.task at h
  cases hdata : member dataFileKey task with
  | none =>
      rw [hdata] at h
      cases h
      rw [taskPath, hdata]
      exact ⟨.none, rfl⟩
  | some dataFile =>
      rw [hdata] at h
      obtain ⟨dataFile', hfile, h⟩ := Except.bind_eq_ok.mp h
      cases h
      obtain ⟨hrel, hrest⟩ := Presigning.file_ok hfile
      have hdata' : member dataFileKey (setMember dataFileKey dataFile' task) = some dataFile' := by
        rw [member_setMember, hdata]
        rfl
      rw [taskPath, taskPath, hdata, hdata', pathlessTask, pathlessTask, hdata, hdata']
      refine ⟨hrel, ?_⟩
      change setMember dataFileKey (pathless dataFile') (setMember dataFileKey dataFile' task) = _
      rw [hrest]
      exact setMember_setMember ..

theorem map_eq_of_forall₂ {α β : Type} {R : α → α → Prop} {f : α → β} {as bs : List α}
    (h : List.Forall₂ R as bs) (hR : ∀ a b, R a b → f b = f a) : bs.map f = as.map f := by
  induction h with
  | nil => rfl
  | cons hab _ ih => rw [List.map_cons, List.map_cons, hR _ _ hab, ih]

theorem Presigning.plan_ok {built plan : Query.CompletedPlan}
    (h : p.plan location built = .ok plan) :
    List.Forall₂ (PresignedAs p location) (filePaths built) (filePaths plan) ∧
      pathlessPlan plan = pathlessPlan built := by
  obtain ⟨tasks, htasks, h⟩ := Except.bind_eq_ok.mp h
  obtain ⟨deletes, hdeletes, h⟩ := Except.bind_eq_ok.mp h
  cases h
  have htasks := Except.forall₂_of_mapM htasks
  have hdeletes := Except.forall₂_of_mapM hdeletes
  have htask : ∀ ⦃task task'⦄, p.task location task = .ok task' →
      Option.Rel (PresignedAs p location) (taskPath task) (taskPath task') :=
    fun _ _ h => (Presigning.task_ok h).1
  have hfile : ∀ ⦃file file'⦄, p.file location file = .ok file' →
      Option.Rel (PresignedAs p location) (filePath file) (filePath file') :=
    fun _ _ h => (Presigning.file_ok h).1
  constructor
  · exact List.rel_append (List.rel_filterMap htask htasks) (List.rel_filterMap hfile hdeletes)
  · rw [pathlessPlan, pathlessPlan, map_eq_of_forall₂ htasks fun _ _ h => (Presigning.task_ok h).2,
      map_eq_of_forall₂ hdeletes fun _ _ h => (Presigning.file_ok h).2]

end

theorem planTableScan_ends {P : Past d → Call d → Prop} (hP : Spares P)
    (hlayout : ∀ h ns, P h (.store (.capabilitiesFor ns))) {h : Past d} {planner : Planner ib}
    {p : Presigning}
    {app : AppState} {principal : Principal} {request : RequestContext} {table : TableIdent}
    (hread : P h (.store (.getNamespace table.namespc)))
    (hload : ∀ h authorized,
      Granted app principal request table.namespc (.table table.name) .read h authorized →
        P h (.store (.loadTable table)))
    (planId : Text) (payload : PlanRequest) :
    Prog.Traced P (Ends fun h' plan => ∃ (authorized : Authorized)
        (loaded : Table ib) (built : Query.CompletedPlan),
      Granted app principal request table.namespc (.table table.name) .read h' authorized ∧
      ⟨.store (.loadTable table), .ok loaded⟩ ∈ h' ∧
      Query.buildPlan planner.scan (planner.table loaded) payload.scan authorized.obligations
        planId = .ok built ∧
      presignPlannedFiles app p authorized.obligations (ib.location loaded.metadata) built =
        .ok plan) h
      (planTableScan app principal request table planner p planId payload : Served d _).run := by
  refine Ends.authorized hP hread fun h₁ authorized _ hgranted => ?_
  refine Ends.called (hlayout h₁ _) fun capabilities => Ends.checked fun _ _ =>
    Ends.checked fun _ _ => ?_
  have hgranted := hgranted.mono
    (List.prefix_append h₁ [⟨.store (.capabilitiesFor (some table.namespc)), .ok capabilities⟩])
  refine Ends.called (hload _ authorized hgranted) fun loaded => Ends.checked fun built hbuilt => ?_
  intro plan hplan
  refine ⟨authorized, loaded, built, hgranted.mono (List.prefix_append _ _),
    List.mem_append_right _ (List.mem_singleton_self _), hbuilt, mapError_eq_ok hplan⟩

/-- The rule on calls that every call meets. -/
theorem spares_all : Spares (fun _ _ => True : Past d → Call d → Prop) :=
  ⟨fun _ _ => trivial, fun _ _ => trivial, fun _ _ => trivial⟩

/-- A plan is the one that was built under the caller's restrictions. Where it is pre-signed,
each path in it has become the URL of that file, the file inside the table's own storage, and
nothing else of the plan has changed. -/
theorem planned_presigned (planner : Planner ib) (p : Presigning) (app : AppState)
    (principal : Principal) (request : RequestContext) (table : TableIdent) (planId : Text)
    (payload : PlanRequest) (h : Past d) (plan : Query.CompletedPlan)
    (hfollows : Prog.Follows (planTableScan app principal request table planner p planId payload :
      Served d Query.CompletedPlan).run h (.done (.ok plan))) :
    ∃ (authorized : Authorized) (loaded : Table ib) (built : Query.CompletedPlan),
      Granted app principal request table.namespc (.table table.name) .read h authorized ∧
      ⟨.store (.loadTable table), .ok loaded⟩ ∈ h ∧
      Query.buildPlan planner.scan (planner.table loaded) payload.scan authorized.obligations
        planId = .ok built ∧
      (p.applies (ib.location loaded.metadata) app authorized.obligations = false → plan = built) ∧
      (p.applies (ib.location loaded.metadata) app authorized.obligations = true →
        List.Forall₂ (PresignedAs p (ib.location loaded.metadata)) (filePaths built)
          (filePaths plan) ∧ pathlessPlan plan = pathlessPlan built) := by
  obtain ⟨authorized, loaded, built, hgranted, hloaded, hbuilt, hplan⟩ :=
    (planTableScan_ends spares_all (fun _ _ => trivial) (h := []) trivial (fun _ _ _ => trivial)
      planId payload).of_follows hfollows plan rfl
  refine ⟨authorized, loaded, built, hgranted, hloaded, hbuilt, fun happlies => ?_,
    fun happlies => ?_⟩
  · rw [presignPlannedFiles, happlies, if_neg Bool.false_ne_true] at hplan
    exact (Except.ok.inj hplan).symm
  · rw [presignPlannedFiles, happlies, if_pos rfl] at hplan
    exact Presigning.plan_ok hplan

/-! ## A plan under a mask -/

/-- A plain scan of one file. -/
def lakePlanner : Planner .plain where
  expr := .plain
  scan := { Query.IcebergScan.plain with
    planFiles := fun _ _ =>
      .ok [.ok ⟨"s3://lake/db/0".toList, .parquet, none, none, 1, none, none, []⟩] }
  table _ := Query.salaryTable ⟨fun _ => .ok [], fun _ => .ok []⟩

def lakePresigning : Presigning where
  config := ⟨none, none, none⟩
  allowedPrefixes := ["s3://lake".toList]
  presignTtl := 900
  presignGet uri _ _ := .ok (uri ++ "?sig".toList)

/-- Everybody may do everything, and sees no salary. -/
def lakeMasked : AppState :=
  { lakeApp with authorizer := ⟨fun _ => ⟨.allow, ⟨[], ["salary".toList]⟩, []⟩, none⟩ }

/-- A table at `s3://lake/db`. -/
def lakeTables : (e : Call plainCrates) → e.Answer
  | .store (.getNamespace ns) => .ok ⟨ns, setOwner ∅ "acme".toList⟩
  | .store (.capabilitiesFor _) => .ok ⟨true, true, true, true, true, true, true⟩
  | .store (.loadTable table) => .ok ⟨table, "s3://lake/db".toList, []⟩
  | .store _ => .error ⟨.featureUnsupported, []⟩
  | .write _ => .ok ()
  | .vendCredentials _ => .ok []

def lakePlanned : Served plainCrates Query.CompletedPlan :=
  planTableScan lakeMasked lakeUser ⟨none, none, []⟩ lake lakePlanner lakePresigning []
    ⟨⟨none, none, none, true, false, none⟩, none, none⟩

def lakeFileUrl : Text := "https://lake.s3.us-east-1.amazonaws.com/db/0?sig".toList

theorem lakePlanned_ok :
    ((lakePlanned.run.run (fun e s => (lakeTables e, s)) ()).1.toOption.map filePaths) =
      some [lakeFileUrl] := by
  decide +kernel

theorem lake_planned : ∃ (h : Past plainCrates) (plan : Query.CompletedPlan)
    (authorized : Authorized)
    (loaded : Table .plain) (built : Query.CompletedPlan),
    filePaths plan = [lakeFileUrl] ∧
    Granted lakeMasked lakeUser ⟨none, none, []⟩ lake.namespc (.table lake.name) .read h
    authorized ∧
    Query.buildPlan lakePlanner.scan (lakePlanner.table loaded) ⟨none, none, none, true,
      false, none⟩
      authorized.obligations [] = .ok built ∧
    (lakePresigning.applies (Iceberg.plain.location loaded.metadata) lakeMasked
        authorized.obligations = true →
      List.Forall₂ (PresignedAs lakePresigning (Iceberg.plain.location loaded.metadata))
        (filePaths built) (filePaths plan)) := by
  obtain ⟨h, hfollows⟩ := follows_answered lakeTables lakePlanned.run
  have hok := lakePlanned_ok
  cases hanswer : (lakePlanned.run.run (fun e s => (lakeTables e, s)) ()).1 with
  | error e =>
      rw [hanswer] at hok
      cases hok
  | ok plan =>
      rw [hanswer] at hok hfollows
      obtain ⟨authorized, loaded, built, hgranted, -, hbuilt, -, hsigned⟩ := planned_presigned
        lakePlanner lakePresigning lakeMasked lakeUser ⟨none, none, []⟩ lake [] _ h plan hfollows
      exact ⟨h, plan, authorized, loaded, built, Option.some.inj hok, hgranted, hbuilt,
        fun happlies => (hsigned happlies).1⟩

end Rustberg.V1
