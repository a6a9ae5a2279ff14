import Rustberg.Auth.Authz
import Rustberg.Query.Schema
import Rustberg.Error

/-!
# What column masks withhold

A policy masks columns by name, a schema knows them by id, and a name may
have stood for another column before. `masked_field_ids` of
`catalog/v1/plan.rs` resolves the names in the current schema, and refuses
a name that only an older schema knows.

`staysMasked_iff` says when that is enough to keep a column masked through
the evolution of its table: a name that has moved on to another column
leaves the first one readable (`renamed_column_unmasked`).
-/

namespace Rustberg.Query

open Auth

structure PartitionField where
  sourceId : Int32
  deriving DecidableEq

structure PartitionSpec where
  specId : Int32
  fields : List PartitionField
  deriving DecidableEq

/-- `TableMetadata`, its schemas and its partition specs. -/
structure TableMetadata where
  currentSchema : Schema
  /-- `schemas_iter`: every schema the table has had. -/
  schemas : List Schema
  partitionSpecs : List PartitionSpec

/-! ## Nesting -/

mutual

/-- The ids nested in a type, in the order of a walk. -/
def FieldType.nestedIds : FieldType → List Int32
  | .primitive _ => []
  | .struct fields => idsOfFields fields
  | .list element => element.ids
  | .map key value => key.ids ++ value.ids
  | .variant => []

/-- A field's id, and those nested beneath it. -/
def NestedField.ids : NestedField → List Int32
  | .mk id _ _ fieldType => id :: fieldType.nestedIds

def idsOfFields : List NestedField → List Int32
  | [] => []
  | field :: fields => field.ids ++ idsOfFields fields

end

/-- Every field id nested beneath `id`. -/
def descendantIds (schema : Schema) (id : Int32) : List Int32 :=
  match schema.fieldById id with
  | some field => field.fieldType.nestedIds
  | none => []

/-! ## Resolving masks -/

/-- The field a mask names in a schema. -/
def resolveMask (schema : Schema) (mask : Text) : Option NestedField :=
  (schema.fieldByName mask).or (schema.fieldByNameCaseInsensitive mask)

/-- Whether some schema of the table's history has a field the mask names. -/
def onceHad (metadata : TableMetadata) (mask : Text) : Bool :=
  metadata.schemas.any fun past =>
    (past.fieldByName mask).isSome || (past.fieldByNameCaseInsensitive mask).isSome

/-- The loop over the masks. -/
def resolveMasks (metadata : TableMetadata) : List Text → Except AppError (List Int32)
  | [] => .ok []
  | mask :: masks =>
      match resolveMask metadata.currentSchema mask with
      | some field => do return field.id :: (← resolveMasks metadata masks)
      | none =>
          if onceHad metadata mask then
            .error (.forbidden ("Policy withholds the column '".toList ++ mask ++
              ("', which this table had and no longer has — it was renamed or dropped. The mask " ++
                "now withholds nothing, so the request is refused rather than served with the " ++
                "restriction quietly missing. Update the policy to the current name.").toList))
          else resolveMasks metadata masks

/-- Every field id policy withholds, a masked struct's descendants included. -/
def maskedFieldIds (metadata : TableMetadata) (obligations : Obligations) :
    Except AppError (List Int32) :=
  if obligations.columnMasks.isEmpty then .ok []
  else do
    let ids ← resolveMasks metadata obligations.columnMasks
    return ids ++ ids.flatMap (descendantIds metadata.currentSchema)

/-- Every field of every partition spec carries its values in the plan. -/
def refuseMaskedPartitionColumns (metadata : TableMetadata) (masked : List Int32) :
    Except AppError Unit :=
  if masked.isEmpty then .ok ()
  else
    match (metadata.partitionSpecs.flatMap PartitionSpec.fields).find? fun field =>
        masked.contains field.sourceId with
    | none => .ok ()
    | some field =>
        let column := (metadata.currentSchema.nameByFieldId field.sourceId).getD
          ('#' :: Text.integer field.sourceId.toInt)
        .error (.forbidden ("Policy withholds the column '".toList ++ column ++
          ("', and this table is partitioned on it. Every file in a scan plan carries its " ++
            "partition values, and Iceberg writes them into the object key as well, so a plan " ++
            "cannot be served without publishing the column. Planning is refused rather than " ++
            "returning what the mask exists to withhold.").toList))

/-- The ids a plan withholds, where it is not refused on their account. -/
def withheldIds (metadata : TableMetadata) (obligations : Obligations) :
    Except AppError (List Int32) := do
  let masked ← maskedFieldIds metadata obligations
  refuseMaskedPartitionColumns metadata masked
  return masked

/-! ## What is withheld -/

section

variable {metadata : TableMetadata} {obligations : Obligations}

/-- In the current schema `id` is what a mask names, or nested in it. -/
def Covered (metadata : TableMetadata) (masks : List Text) (id : Int32) : Prop :=
  ∃ mask ∈ masks, ∃ field, resolveMask metadata.currentSchema mask = some field ∧
    (id = field.id ∨ id ∈ descendantIds metadata.currentSchema field.id)

/-- A mask names a field of the history and none of the current schema. -/
def Lost (metadata : TableMetadata) (masks : List Text) : Prop :=
  ∃ mask ∈ masks, resolveMask metadata.currentSchema mask = none ∧
    ∃ past ∈ metadata.schemas, ∃ field, resolveMask past mask = some field

theorem onceHad_iff {mask : Text} :
    onceHad metadata mask ↔
      ∃ past ∈ metadata.schemas, ∃ field, resolveMask past mask = some field := by
  rw [onceHad, List.any_eq_true]
  refine exists_congr fun past => and_congr_right fun _ => ?_
  rw [← Option.isSome_iff_exists, resolveMask, Option.isSome_or]

theorem resolveMasks_cases (metadata : TableMetadata) (masks : List Text) :
    ((∃ e, resolveMasks metadata masks = .error e) ∧ Lost metadata masks) ∨
      ∃ ids, resolveMasks metadata masks = .ok ids ∧ ¬ Lost metadata masks ∧
        ∀ id, id ∈ ids ↔ ∃ mask ∈ masks, ∃ field,
          resolveMask metadata.currentSchema mask = some field ∧ id = field.id := by
  induction masks with
  | nil => exact Or.inr ⟨[], rfl, by simp [Lost], by simp⟩
  | cons mask masks ih =>
      rw [resolveMasks]
      cases hmask : resolveMask metadata.currentSchema mask with
      | some field =>
          have hlost : Lost metadata (mask :: masks) ↔ Lost metadata masks := by
            simp [Lost, hmask]
          rw [hlost]
          rcases ih with ⟨⟨e, he⟩, h⟩ | ⟨ids, hids, h, hmem⟩
          · exact Or.inl ⟨⟨e, by rw [he]; rfl⟩, h⟩
          · refine Or.inr ⟨field.id :: ids, by rw [hids]; rfl, h, fun id => ?_⟩
            rw [List.mem_cons, hmem]
            simp [hmask]
      | none =>
          by_cases honce : onceHad metadata mask
          · refine Or.inl ⟨⟨_, if_pos honce⟩, mask, List.mem_cons_self .., hmask, ?_⟩
            exact onceHad_iff.mp honce
          · have hlost : Lost metadata (mask :: masks) ↔ Lost metadata masks := by
              rw [onceHad_iff] at honce
              constructor
              · rintro ⟨mask', hmem, hnone, hpast⟩
                rcases List.mem_cons.mp hmem with rfl | hmem
                · exact absurd hpast honce
                · exact ⟨mask', hmem, hnone, hpast⟩
              · rintro ⟨mask', hmem, h⟩
                exact ⟨mask', List.mem_cons_of_mem _ hmem, h⟩
            rw [hlost]
            dsimp only
            rw [if_neg honce]
            rcases ih with h | ⟨ids, hids, h, hmem⟩
            · exact Or.inl h
            · refine Or.inr ⟨ids, hids, h, fun id => ?_⟩
              rw [hmem]
              simp [hmask]

/-- A lost mask is refused; else what is withheld is what the masks cover. -/
theorem maskedFieldIds_cases (metadata : TableMetadata) (obligations : Obligations) :
    ((∃ e, maskedFieldIds metadata obligations = .error e) ∧
        Lost metadata obligations.columnMasks) ∨
      ∃ masked, maskedFieldIds metadata obligations = .ok masked ∧
        ¬ Lost metadata obligations.columnMasks ∧
        ∀ id, id ∈ masked ↔ Covered metadata obligations.columnMasks id := by
  unfold maskedFieldIds
  by_cases hempty : obligations.columnMasks.isEmpty
  · rw [if_pos hempty]
    have hnil := List.isEmpty_iff.mp hempty
    exact Or.inr ⟨[], rfl, by simp [Lost, hnil], by simp [Covered, hnil]⟩
  · rw [if_neg hempty]
    rcases resolveMasks_cases metadata obligations.columnMasks with ⟨⟨e, he⟩, h⟩ |
      ⟨ids, hids, h, hmem⟩
    · exact Or.inl ⟨⟨e, by rw [he]; rfl⟩, h⟩
    · refine Or.inr ⟨_, by rw [hids]; rfl, h, fun id => ?_⟩
      rw [List.mem_append, List.mem_flatMap]
      constructor
      · rintro (hid | ⟨id', hid', hid⟩)
        · obtain ⟨mask, hmask, field, hfield, rfl⟩ := (hmem id).mp hid
          exact ⟨mask, hmask, field, hfield, Or.inl rfl⟩
        · obtain ⟨mask, hmask, field, hfield, rfl⟩ := (hmem id').mp hid'
          exact ⟨mask, hmask, field, hfield, Or.inr hid⟩
      · rintro ⟨mask, hmask, field, hfield, rfl | hid⟩
        · exact Or.inl ((hmem _).mpr ⟨mask, hmask, field, hfield, rfl⟩)
        · exact Or.inr ⟨_, (hmem _).mpr ⟨mask, hmask, field, hfield, rfl⟩, hid⟩

theorem refuseMaskedPartitionColumns_eq_ok {masked : List Int32} :
    refuseMaskedPartitionColumns metadata masked = .ok () ↔
      ∀ spec ∈ metadata.partitionSpecs, ∀ field ∈ spec.fields, field.sourceId ∉ masked := by
  unfold refuseMaskedPartitionColumns
  cases masked with
  | nil => simp
  | cons first rest =>
      rw [if_neg (by simp)]
      split
      · next hfind =>
          refine iff_of_true rfl fun spec hspec field hfield hmasked => ?_
          have := List.find?_eq_none.mp hfind field
            (List.mem_flatMap.mpr ⟨spec, hspec, hfield⟩)
          exact this (List.contains_iff_mem.mpr hmasked)
      · next field hfind =>
          refine iff_of_false (fun h => by cases h) fun h => ?_
          obtain ⟨spec, hspec, hfield⟩ := List.mem_flatMap.mp (List.mem_of_find?_eq_some hfind)
          have hmasked := List.find?_some (p := fun f : PartitionField =>
            (first :: rest).contains f.sourceId) hfind
          exact h spec hspec field hfield (List.contains_iff_mem.mp hmasked)

end

/-! ## Through the evolution of a table -/

/-- Every field a mask has named in some schema, and that is still there, is
withheld, or the request is refused. -/
def StaysMasked (metadata : TableMetadata) (obligations : Obligations) : Prop :=
  ∀ mask ∈ obligations.columnMasks, ∀ past ∈ metadata.schemas, ∀ field,
    resolveMask past mask = some field → (metadata.currentSchema.fieldById field.id).isSome →
      (∃ e, withheldIds metadata obligations = .error e) ∨
        ∃ masked, withheldIds metadata obligations = .ok masked ∧ field.id ∈ masked

/-- Every field a mask has named in some schema, and that is still there, is in
the current schema what a mask names, or nested in it. -/
def NamesKept (metadata : TableMetadata) (masks : List Text) : Prop :=
  ∀ mask ∈ masks, ∀ past ∈ metadata.schemas, ∀ field, resolveMask past mask = some field →
    (metadata.currentSchema.fieldById field.id).isSome → Covered metadata masks field.id

/-- A mask covers a column the table is, or has been, partitioned on. -/
def PartitionCovered (metadata : TableMetadata) (masks : List Text) : Prop :=
  ∃ spec ∈ metadata.partitionSpecs, ∃ field ∈ spec.fields, Covered metadata masks field.sourceId

/-- Masks survive the evolution of a table exactly when a mask is lost, or
covers a partition column, or no name has moved away from a masked column. -/
theorem staysMasked_iff (metadata : TableMetadata) (obligations : Obligations) :
    StaysMasked metadata obligations ↔
      Lost metadata obligations.columnMasks ∨
        PartitionCovered metadata obligations.columnMasks ∨
          NamesKept metadata obligations.columnMasks := by
  rcases maskedFieldIds_cases metadata obligations with ⟨⟨e, he⟩, hlost⟩ |
    ⟨masked, hmasked, hlost, hmem⟩
  · refine iff_of_true (fun mask _ past _ field _ _ => Or.inl ⟨e, ?_⟩) (Or.inl hlost)
    rw [withheldIds, he]
    rfl
  · rw [or_iff_right hlost]
    cases hrefused : refuseMaskedPartitionColumns metadata masked with
    | error e =>
        refine iff_of_true (fun mask _ past _ field _ _ => Or.inl ⟨e, ?_⟩) (Or.inl ?_)
        · rw [withheldIds, hmasked]
          change (refuseMaskedPartitionColumns metadata masked >>= _) = _
          rw [hrefused]
          rfl
        · by_contra hnone
          have hok : refuseMaskedPartitionColumns metadata masked = .ok () := by
            rw [refuseMaskedPartitionColumns_eq_ok]
            intro spec hspec field hfield hid
            exact hnone ⟨spec, hspec, field, hfield, (hmem _).mp hid⟩
          rw [hok] at hrefused
          cases hrefused
    | ok v =>
        have hwithheld : withheldIds metadata obligations = .ok masked := by
          rw [withheldIds, hmasked]
          change (refuseMaskedPartitionColumns metadata masked >>= _) = _
          rw [hrefused]
          rfl
        have hpartition : ¬ PartitionCovered metadata obligations.columnMasks := by
          rintro ⟨spec, hspec, field, hfield, hcovered⟩
          exact refuseMaskedPartitionColumns_eq_ok.mp hrefused spec hspec field hfield
            ((hmem _).mpr hcovered)
        rw [or_iff_right hpartition]
        refine forall₂_congr fun mask _ => forall₂_congr fun past _ => forall_congr' fun field =>
          forall₂_congr fun _ _ => ?_
        rw [hwithheld, ← hmem]
        simp

/-! ## A name that moves on -/

/-- The schema a table starts with, and the one after `ssn` has been renamed
and a new column takes its name. -/
def beforeRename : Schema :=
  .flat [.column 1 "ssn" false .string] (by decide) (by decide)

def afterRename : Schema :=
  .flat [.column 1 "ssn_old" false .string, .column 2 "ssn" false .string] (by decide) (by decide)

theorem renamed_column_unmasked :
    ¬ ∀ (metadata : TableMetadata) (obligations : Obligations),
      StaysMasked metadata obligations := by
  intro hall
  have hstays := hall ⟨afterRename, [beforeRename, afterRename], []⟩ ⟨[], ["ssn".toList]⟩
    "ssn".toList (List.mem_singleton_self _) beforeRename (List.mem_cons_self ..)
    (.column 1 "ssn" false .string) rfl rfl
  have hwithheld : withheldIds ⟨afterRename, [beforeRename, afterRename], []⟩
      ⟨[], ["ssn".toList]⟩ = .ok [2] := rfl
  rw [hwithheld] at hstays
  rcases hstays with ⟨e, he⟩ | ⟨masked, hmasked, hmem⟩
  · cases he
  · obtain rfl := Except.ok.inj hmasked
    exact absurd hmem (by decide)

end Rustberg.Query
