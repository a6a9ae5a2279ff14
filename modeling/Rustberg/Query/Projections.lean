import Mathlib.Data.List.Sort
import Rustberg.Base.Result
import Rustberg.Query.Masks
import Rustberg.Query.Restrictions

/-!
# Masks as column projections

`for_table` of `catalog/v1/restrictions.rs`: the masked fields, with
everything nested in them, as one projection a column that covers its own
nested fields. A map's key may not be projected, and a map's key is
nested in the map: `forTable_iff` says that what is published is minimal
and complete, and that it is published at all exactly where no mask
encloses a key.
-/

namespace Rustberg.Query

open Auth

/-! ## Nesting, upwards -/

mutual

/-- Each id nested in a type, with the id of the field that encloses it. -/
def FieldType.parentIds (parent : Int32) : FieldType → List (Int32 × Int32)
  | .primitive _ => []
  | .struct fields => parentIdsOfFields parent fields
  | .list element => element.parentIds parent
  | .map key value => key.parentIds parent ++ value.parentIds parent
  | .variant => []

/-- `child` of `parent_ids`: a field enclosed by `parent`. -/
def NestedField.parentIds (parent : Int32) : NestedField → List (Int32 × Int32)
  | .mk id _ _ fieldType => (id, parent) :: fieldType.parentIds id

def parentIdsOfFields (parent : Int32) : List NestedField → List (Int32 × Int32)
  | [] => []
  | field :: fields => field.parentIds parent ++ parentIdsOfFields parent fields

end

/-- The id of the field that encloses `id`. Of two entries the later one stands. -/
def parentId (schema : Schema) (id : Int32) : Option Int32 :=
  (schema.fields.flatMap fun field => field.fieldType.parentIds field.id).reverse.lookup id

mutual

def FieldType.keyIds : FieldType → List Int32
  | .primitive _ => []
  | .struct fields => keyIdsOfFields fields
  | .list element => element.keyIds
  | .map key value => key.id :: key.keyIds ++ value.keyIds
  | .variant => []

def NestedField.keyIds : NestedField → List Int32
  | .mk _ _ _ fieldType => fieldType.keyIds

def keyIdsOfFields : List NestedField → List Int32
  | [] => []
  | field :: fields => field.keyIds ++ keyIdsOfFields fields

end

/-- Every field id that is the key half of a map. -/
def mapKeyFieldIds (schema : Schema) : List Int32 := keyIdsOfFields schema.fields

/-- Whether any field enclosing `id` is masked, `fuel` steps up at most. -/
def hasMaskedAncestor (schema : Schema) (masked : List Int32) : Nat → Int32 → Bool
  | 0, _ => false
  | fuel + 1, id =>
      match parentId schema id with
      | some parent => masked.contains parent || hasMaskedAncestor schema masked fuel parent
      | none => false

/-! ## What is published -/

structure ColumnProjection where
  action : Text
  fieldId : Int32
  deriving DecidableEq, Repr

structure ReadRestrictions where
  requiredColumnProjections : List ColumnProjection
  requiredRowFilter : Option Json

def nullableAction : Text := "replace-with-null".toList

def requiredAction : Text := "mask-to-fixed-value".toList

/-- `BTreeSet` of the masked fields that no masked field encloses. -/
def outermostIds (schema : Schema) (masked : List Int32) : List Int32 :=
  (masked.filter fun id =>
    !hasMaskedAncestor schema masked (idsOfFields schema.fields).length id).dedup.mergeSort
      (fun a b => a ≤ b)

def columnProjection (schema : Schema) (fieldId : Int32) : Except AppError ColumnProjection :=
  match schema.fieldById fieldId with
  | some field =>
      .ok ⟨if field.required then requiredAction else nullableAction, fieldId⟩
  | none => .error (.forbidden ("Policy withholds field id ".toList ++ Text.integer fieldId.toInt ++
      ", which this table's schema does not have.".toList))

/-- One action per masked column. -/
def columnProjections (schema : Schema) (masked : List Int32) :
    Except AppError (List ColumnProjection) :=
  if masked.isEmpty then .ok []
  else
    match masked.find? fun id => (mapKeyFieldIds schema).contains id with
    | some id =>
        let name := (schema.nameByFieldId id).getD ('#' :: Text.integer id.toInt)
        .error
          (.forbidden ("Policy withholds '".toList ++ name ++ ("', which is the key of a map. " ++
          "A projection on a map key can collapse or null distinct keys, so the specification " ++
          "forbids one and a reader must reject it. Mask the map or its value instead.").toList))
    | none => (outermostIds schema masked).mapM (columnProjection schema)

def readRestrictions (schema : Schema) (obligations : Obligations) (masked : List Int32) :
    Except AppError (Option ReadRestrictions) :=
  if obligations.isEmpty then .ok none
  else do
    let projections ← columnProjections schema masked
    let filter := rowFilter schema obligations
    if projections.isEmpty ∧ filter.isNone then return none
    else return some ⟨projections, filter⟩

/-- The restrictions for a table, its masks resolved against its current schema. -/
def forTable (metadata : TableMetadata) (obligations : Obligations) :
    Except AppError (Option ReadRestrictions) :=
  if obligations.isEmpty then .ok none
  else do
    let masked ← maskedFieldIds metadata obligations
    readRestrictions metadata.currentSchema obligations masked

/-! ## The tree of a schema -/

/-- The fields directly inside a type. -/
def FieldType.children : FieldType → List NestedField
  | .primitive _ => []
  | .struct fields => fields
  | .list element => [element]
  | .map key value => [key, value]
  | .variant => []

theorem sizeOf_child {field child : NestedField} (h : child ∈ field.fieldType.children) :
    sizeOf child < sizeOf field := by
  obtain ⟨id, name, required, fieldType⟩ := field
  have htype : sizeOf child < sizeOf fieldType := by
    cases fieldType with
    | primitive p => cases h
    | struct fields =>
        have hlt := List.sizeOf_lt_of_mem (show child ∈ fields from h)
        simp only [FieldType.struct.sizeOf_spec]
        omega
    | list element =>
        obtain rfl := List.mem_singleton.mp h
        simp only [FieldType.list.sizeOf_spec]
        omega
    | map key value =>
        have hkey : child = key ∨ child = value := by
          simpa [NestedField.fieldType, FieldType.children] using h
        simp only [FieldType.map.sizeOf_spec]
        rcases hkey with rfl | rfl <;> omega
    | variant => cases h
  simp only [NestedField.mk.sizeOf_spec]
  omega

theorem idsOfFields_eq (fields : List NestedField) :
    idsOfFields fields = fields.flatMap NestedField.ids := by
  induction fields with
  | nil => rfl
  | cons field fields ih => rw [idsOfFields, ih, List.flatMap_cons]

theorem nestedIds_eq (fieldType : FieldType) :
    fieldType.nestedIds = fieldType.children.flatMap NestedField.ids := by
  cases fieldType with
  | primitive p => rfl
  | struct fields => rw [FieldType.nestedIds, idsOfFields_eq]; rfl
  | list element => simp [FieldType.nestedIds, FieldType.children]
  | map key value => simp [FieldType.nestedIds, FieldType.children]
  | variant => rfl

theorem ids_eq (field : NestedField) : field.ids = field.id :: field.fieldType.nestedIds := by
  cases field
  rfl

theorem parentIdsOfFields_eq (parent : Int32) (fields : List NestedField) :
    parentIdsOfFields parent fields = fields.flatMap (NestedField.parentIds parent) := by
  induction fields with
  | nil => rfl
  | cons field fields ih => rw [parentIdsOfFields, ih, List.flatMap_cons]

theorem parentIds_eq (parent : Int32) (fieldType : FieldType) :
    fieldType.parentIds parent = fieldType.children.flatMap (NestedField.parentIds parent) := by
  cases fieldType with
  | primitive p => rfl
  | struct fields => rw [FieldType.parentIds, parentIdsOfFields_eq]; rfl
  | list element => simp [FieldType.parentIds, FieldType.children]
  | map key value => simp [FieldType.parentIds, FieldType.children]
  | variant => rfl

theorem nestedField_parentIds_eq (parent : Int32) (field : NestedField) :
    field.parentIds parent = (field.id, parent) :: field.fieldType.parentIds field.id := by
  cases field
  rfl

/-- The ids that have a parent are the nested ones. -/
theorem map_fst_parentIds (parent : Int32) (field : NestedField) :
    (field.parentIds parent).map Prod.fst = field.ids := by
  rw [nestedField_parentIds_eq, ids_eq, List.map_cons, parentIds_eq, nestedIds_eq,
    List.map_flatMap]
  refine congrArg (field.id :: ·) (List.flatMap_congr fun child hchild => ?_)
  exact map_fst_parentIds field.id child
termination_by sizeOf field
decreasing_by exact sizeOf_child hchild

/-- A nested id has a parent, which is the enclosing field or nested in it. -/
theorem exists_parent (field : NestedField) {id : Int32} (h : id ∈ field.fieldType.nestedIds) :
    ∃ parent, (id, parent) ∈ field.fieldType.parentIds field.id ∧
      (parent = field.id ∨ parent ∈ field.fieldType.nestedIds) := by
  rw [nestedIds_eq, List.mem_flatMap] at h
  obtain ⟨child, hchild, hid⟩ := h
  have hpair : ∀ {pair}, pair ∈ child.parentIds field.id →
      pair ∈ field.fieldType.parentIds field.id := fun hpair => by
    rw [parentIds_eq]
    exact List.mem_flatMap.mpr ⟨child, hchild, hpair⟩
  rw [nestedField_parentIds_eq] at hpair
  rw [ids_eq, List.mem_cons] at hid
  rcases hid with rfl | hid
  · exact ⟨field.id, hpair (List.mem_cons_self ..), .inl rfl⟩
  · obtain ⟨parent, hmem, hparent⟩ := exists_parent child hid
    refine ⟨parent, hpair (List.mem_cons_of_mem _ hmem), .inr ?_⟩
    rw [nestedIds_eq, List.mem_flatMap]
    exact ⟨child, hchild, by rw [ids_eq, List.mem_cons]; exact hparent⟩
termination_by sizeOf field
decreasing_by exact sizeOf_child hchild

/-- `inner` is `outer`, or nested in it. -/
def Inside (inner outer : NestedField) : Prop :=
  Relation.ReflTransGen (fun child field => child ∈ field.fieldType.children) inner outer

theorem child_ids_sublist {child field : NestedField} (h : child ∈ field.fieldType.children) :
    child.ids.Sublist field.fieldType.nestedIds := by
  rw [nestedIds_eq, List.flatMap_def]
  exact List.sublist_flatten_of_mem (List.mem_map_of_mem h)

theorem Inside.ids_sublist {inner outer : NestedField} (h : Inside inner outer) :
    inner.ids.Sublist outer.ids := by
  induction h with
  | refl => exact List.Sublist.refl _
  | tail _ hchild ih =>
      refine (ih.trans (child_ids_sublist hchild)).trans ?_
      rw [ids_eq]
      exact List.sublist_cons_self ..

theorem Inside.nestedIds_subset {inner outer : NestedField} (h : Inside inner outer) :
    inner.fieldType.nestedIds ⊆ outer.fieldType.nestedIds := by
  rcases Relation.ReflTransGen.cases_tail h with rfl | ⟨child, hinner, hchild⟩
  · exact List.Subset.refl _
  · have hsub := (Inside.ids_sublist hinner).trans (child_ids_sublist hchild)
    rw [ids_eq] at hsub
    exact fun id hid => hsub.subset (List.mem_cons_of_mem _ hid)

theorem Inside.parentIds_subset {inner outer : NestedField} (h : Inside inner outer) :
    inner.fieldType.parentIds inner.id ⊆ outer.fieldType.parentIds outer.id := by
  induction h with
  | refl => exact List.Subset.refl _
  | @tail child field _ hchild ih =>
      refine List.Subset.trans ih fun pair hpair => ?_
      rw [parentIds_eq]
      refine List.mem_flatMap.mpr ⟨child, hchild, ?_⟩
      rw [nestedField_parentIds_eq]
      exact List.mem_cons_of_mem _ hpair

/-- A nested id is the id of a field inside one of the children. -/
theorem exists_inside (field : NestedField) {id : Int32} (h : id ∈ field.fieldType.nestedIds) :
    ∃ child ∈ field.fieldType.children, ∃ inner, Inside inner child ∧ inner.id = id := by
  rw [nestedIds_eq, List.mem_flatMap] at h
  obtain ⟨child, hchild, hid⟩ := h
  rw [ids_eq, List.mem_cons] at hid
  rcases hid with rfl | hid
  · exact ⟨child, hchild, child, .refl, rfl⟩
  · obtain ⟨next, hnext, inner, hinner, hinnerId⟩ := exists_inside child hid
    exact ⟨child, hchild, inner, hinner.trans (.single hnext), hinnerId⟩
termination_by sizeOf field
decreasing_by exact sizeOf_child hchild

/-- A recorded parent encloses what it is recorded for. -/
theorem parent_encloses (field : NestedField) {id parent : Int32}
    (h : (id, parent) ∈ field.fieldType.parentIds field.id) :
    ∃ outer, Inside outer field ∧ outer.id = parent ∧ id ∈ outer.fieldType.nestedIds := by
  rw [parentIds_eq, List.mem_flatMap] at h
  obtain ⟨child, hchild, hpair⟩ := h
  rw [nestedField_parentIds_eq, List.mem_cons] at hpair
  rcases hpair with hpair | hpair
  · obtain ⟨rfl, rfl⟩ := Prod.mk.inj hpair
    refine ⟨field, .refl, rfl, (child_ids_sublist hchild).subset ?_⟩
    rw [ids_eq]
    exact List.mem_cons_self ..
  · obtain ⟨outer, houter, hid, hmem⟩ := parent_encloses child hpair
    exact ⟨outer, houter.trans (.single hchild), hid, hmem⟩
termination_by sizeOf field
decreasing_by exact sizeOf_child hchild

theorem lookup_eq_some {α β : Type} [DecidableEq α] {pairs : List (α × β)} {a : α} {b : β}
    (h : (pairs.map Prod.fst).Nodup) : pairs.lookup a = some b ↔ (a, b) ∈ pairs := by
  induction pairs with
  | nil => simp
  | cons pair pairs ih =>
      obtain ⟨key, value⟩ := pair
      obtain ⟨hkey, hrest⟩ := List.nodup_cons.mp h
      rw [List.lookup_cons, List.mem_cons, Prod.mk.injEq]
      by_cases ha : a = key
      · subst ha
        have hnot : (a, b) ∉ pairs := fun hmem => hkey (List.mem_map.mpr ⟨(a, b), hmem, rfl⟩)
        simp [hnot, eq_comm]
      · rw [beq_false_of_ne ha, ← ih hrest]
        simp [ha]

namespace Schema

/-- The field is one of the schema's, at whatever depth. -/
def Has (schema : Schema) (field : NestedField) : Prop := ∃ top ∈ schema.fields, Inside field top

/-- What a built schema guarantees about its nesting: ids are unique, and the
index by id holds every field. -/
structure Indexed (schema : Schema) : Prop where
  ids_nodup : (idsOfFields schema.fields).Nodup
  fieldById_iff : ∀ id field, schema.fieldById id = some field ↔ schema.Has field ∧ field.id = id

namespace Indexed

variable {schema : Schema} (h : schema.Indexed)

include h

theorem eq_of_id {a b : NestedField} (ha : schema.Has a) (hb : schema.Has b) (hid : a.id = b.id) :
    a = b := by
  have hfind := (h.fieldById_iff b.id a).mpr ⟨ha, hid⟩
  exact Option.some.inj (hfind.symm.trans ((h.fieldById_iff b.id b).mpr ⟨hb, rfl⟩))

theorem mem_parents {id parent : Int32} : parentId schema id = some parent ↔
    ∃ field ∈ schema.fields, (id, parent) ∈ field.fieldType.parentIds field.id := by
  have hkeys : ((schema.fields.flatMap fun field =>
      field.fieldType.parentIds field.id).map Prod.fst).Nodup := by
    refine List.Sublist.nodup ?_ h.ids_nodup
    rw [List.map_flatMap, idsOfFields_eq]
    refine List.Sublist.flatMap_right _ fun field _ => ?_
    rw [ids_eq, parentIds_eq, List.map_flatMap, nestedIds_eq]
    simp only [map_fst_parentIds]
    exact List.sublist_cons_self ..
  have hreverse := (List.nodup_reverse.mpr hkeys)
  rw [← List.map_reverse] at hreverse
  rw [parentId, lookup_eq_some hreverse, List.mem_reverse, List.mem_flatMap]

/-- What is nested in a field is reached from below, parent by parent. -/
theorem mem_descendantIds {id ancestor : Int32} : id ∈ descendantIds schema ancestor ↔
    ∃ parent, parentId schema id = some parent ∧
      (parent = ancestor ∨ parent ∈ descendantIds schema ancestor) := by
  constructor
  · intro hid
    unfold descendantIds at hid ⊢
    cases hfield : schema.fieldById ancestor with
    | none =>
        rw [hfield] at hid
        cases hid
    | some field =>
        rw [hfield] at hid
        obtain ⟨⟨top, htop, hinside⟩, rfl⟩ := (h.fieldById_iff ancestor field).mp hfield
        obtain ⟨parent, hpair, hparent⟩ := exists_parent field hid
        exact ⟨parent, h.mem_parents.mpr ⟨top, htop, hinside.parentIds_subset hpair⟩, hparent⟩
  · rintro ⟨parent, hparent, hcase⟩
    obtain ⟨top, htop, hpair⟩ := h.mem_parents.mp hparent
    obtain ⟨outer, houter, rfl, hid⟩ := parent_encloses top hpair
    have hhas : schema.Has outer := ⟨top, htop, houter⟩
    have hindexed : schema.fieldById outer.id = some outer :=
      (h.fieldById_iff _ _).mpr ⟨hhas, rfl⟩
    rcases hcase with rfl | hnested
    · rw [descendantIds, hindexed]
      exact hid
    · unfold descendantIds at hnested ⊢
      cases hfield : schema.fieldById ancestor with
      | none =>
          rw [hfield] at hnested
          cases hnested
      | some field =>
          rw [hfield] at hnested
          obtain ⟨⟨top', htop', hinside⟩, -⟩ := (h.fieldById_iff ancestor field).mp hfield
          obtain ⟨child, hchild, inner, hinner, hinnerId⟩ := exists_inside field hnested
          have hinnerHas : schema.Has inner :=
            ⟨top', htop', (hinner.trans (.single hchild)).trans hinside⟩
          obtain rfl := h.eq_of_id hinnerHas hhas hinnerId
          have hsub := hinner.ids_sublist.trans (child_ids_sublist hchild)
          rw [ids_eq] at hsub
          exact hsub.subset (List.mem_cons_of_mem _ hid)

/-- A field has more fields at and below it than one nested in it. -/
theorem ids_length_lt {id ancestor : Int32} {field above : NestedField}
    (hid : id ∈ descendantIds schema ancestor) (hfield : schema.fieldById id = some field)
    (habove : schema.fieldById ancestor = some above) :
    field.ids.length < above.ids.length ∧
      above.ids.length ≤ (idsOfFields schema.fields).length := by
  rw [descendantIds, habove] at hid
  obtain ⟨hhas, hfieldId⟩ := (h.fieldById_iff _ _).mp hfield
  obtain ⟨⟨top, htop, hinside⟩, -⟩ := (h.fieldById_iff _ _).mp habove
  obtain ⟨child, hchild, inner, hinner, hinnerId⟩ := exists_inside above hid
  obtain rfl := h.eq_of_id ⟨top, htop, (hinner.trans (.single hchild)).trans hinside⟩ hhas
    (hinnerId.trans hfieldId.symm)
  have hsub := (hinner.ids_sublist.trans (child_ids_sublist hchild)).length_le
  have htotal : top.ids.Sublist (idsOfFields schema.fields) := by
    rw [idsOfFields_eq, List.flatMap_def]
    exact List.sublist_flatten_of_mem (List.mem_map_of_mem htop)
  refine ⟨?_, (hinside.ids_sublist.trans htotal).length_le⟩
  rw [ids_eq above, List.length_cons]
  omega

theorem fieldById_parent {id parent : Int32} (hparent : parentId schema id = some parent) :
    ∃ outer, schema.fieldById parent = some outer := by
  obtain ⟨top, htop, hpair⟩ := h.mem_parents.mp hparent
  obtain ⟨outer, houter, rfl, -⟩ := parent_encloses top hpair
  exact ⟨outer, (h.fieldById_iff _ _).mpr ⟨⟨top, htop, houter⟩, rfl⟩⟩

/-- The climb finds a masked ancestor wherever there is one: each step up has
more fields below it, so `fuel` is enough. -/
theorem hasMaskedAncestor_iff {masked : List Int32} {fuel : Nat} {id : Int32} {field : NestedField}
    (hfield : schema.fieldById id = some field)
    (hfuel : (idsOfFields schema.fields).length ≤ fuel + field.ids.length) :
    hasMaskedAncestor schema masked fuel id = true ↔
      ∃ ancestor ∈ masked, id ∈ descendantIds schema ancestor := by
  induction fuel generalizing id field with
  | zero =>
      refine iff_of_false Bool.false_ne_true ?_
      rintro ⟨ancestor, -, hid⟩
      obtain ⟨parent, hparent, -⟩ := h.mem_descendantIds.mp hid
      obtain ⟨outer, houter⟩ := h.fieldById_parent hparent
      have hlt :=
        h.ids_length_lt (h.mem_descendantIds.mpr ⟨parent, hparent, .inl rfl⟩) hfield houter
      omega
  | succ fuel ih =>
      rw [hasMaskedAncestor]
      cases hparent : parentId schema id with
      | none =>
          refine iff_of_false Bool.false_ne_true ?_
          rintro ⟨ancestor, -, hid⟩
          obtain ⟨parent, hsome, -⟩ := h.mem_descendantIds.mp hid
          rw [hparent] at hsome
          cases hsome
      | some parent =>
          obtain ⟨outer, houter⟩ := h.fieldById_parent hparent
          have hnested : id ∈ descendantIds schema parent :=
            h.mem_descendantIds.mpr ⟨parent, hparent, .inl rfl⟩
          have hlt := h.ids_length_lt hnested hfield houter
          dsimp only
          rw [Bool.or_eq_true, ih houter (by omega), List.contains_iff_mem]
          constructor
          · rintro (hmasked | ⟨ancestor, hancestor, hnested⟩)
            · exact ⟨parent, hmasked, hnested⟩
            · exact ⟨ancestor, hancestor, h.mem_descendantIds.mpr ⟨parent, hparent, .inr hnested⟩⟩
          · rintro ⟨ancestor, hancestor, hid⟩
            obtain ⟨parent', hparent', hcase⟩ := h.mem_descendantIds.mp hid
            obtain rfl := Option.some.inj (hparent.symm.trans hparent')
            rcases hcase with rfl | hnested
            · exact .inl hancestor
            · exact .inr ⟨ancestor, hancestor, hnested⟩

end Indexed
end Schema

/-! ## Minimal and complete -/

/-- No projection lies under another, and between them they cover what is
masked, with all that is nested in it. -/
structure Projects (schema : Schema) (covered : Int32 → Prop)
    (projections : List ColumnProjection) :
    Prop where
  minimal : ∀ p ∈ projections, ∀ q ∈ projections, q.fieldId ∉ descendantIds schema p.fieldId
  complete : ∀ id, covered id ↔
    ∃ p ∈ projections, id = p.fieldId ∨ id ∈ descendantIds schema p.fieldId

section

variable {schema : Schema} (h : schema.Indexed) {masked : List Int32}

include h

theorem descendantIds_trans {a b c : Int32} (hab : a ∈ descendantIds schema b)
    (hbc : b ∈ descendantIds schema c) : a ∈ descendantIds schema c := by
  unfold descendantIds at hab hbc ⊢
  cases hc : schema.fieldById c with
  | none =>
      rw [hc] at hbc
      cases hbc
  | some top =>
      cases hb : schema.fieldById b with
      | none =>
          rw [hb] at hab
          cases hab
      | some field =>
          rw [hc] at hbc
          rw [hb] at hab
          obtain ⟨⟨root, hroot, htop⟩, -⟩ := (h.fieldById_iff _ _).mp hc
          obtain ⟨hfield, hfieldId⟩ := (h.fieldById_iff _ _).mp hb
          obtain ⟨child, hchild, inner, hinner, hinnerId⟩ := exists_inside top hbc
          obtain rfl := h.eq_of_id ⟨root, hroot, (hinner.trans (.single hchild)).trans htop⟩ hfield
            (hinnerId.trans hfieldId.symm)
          have hsub := hinner.ids_sublist.trans (child_ids_sublist hchild)
          rw [ids_eq] at hsub
          exact hsub.subset (List.mem_cons_of_mem _ hab)

theorem mem_outermostIds {id : Int32} (hindexed : ∀ id ∈ masked, (schema.fieldById id).isSome) :
    id ∈ outermostIds schema masked ↔
      id ∈ masked ∧ ¬ ∃ ancestor ∈ masked, id ∈ descendantIds schema ancestor := by
  rw [outermostIds, List.mem_mergeSort, List.mem_dedup, List.mem_filter]
  refine and_congr_right fun hid => ?_
  obtain ⟨field, hfield⟩ := Option.isSome_iff_exists.mp (hindexed id hid)
  rw [← h.hasMaskedAncestor_iff hfield (Nat.le_add_right ..)]
  simp

/-- A masked field is outermost, or inside an outermost one. -/
theorem exists_outermost (hindexed : ∀ id ∈ masked, (schema.fieldById id).isSome) {id : Int32}
    {field : NestedField} (hfield : schema.fieldById id = some field) (hid : id ∈ masked) :
    ∃ outer ∈ outermostIds schema masked, id = outer ∨ id ∈ descendantIds schema outer := by
  -- Each step outwards has more fields below it.
  induction hrest : (idsOfFields schema.fields).length - field.ids.length
      using Nat.strong_induction_on generalizing id field with
  | _ rest ih =>
      by_cases houter : ∃ ancestor ∈ masked, id ∈ descendantIds schema ancestor
      · obtain ⟨ancestor, hancestor, hnested⟩ := houter
        obtain ⟨above, habove⟩ := Option.isSome_iff_exists.mp (hindexed ancestor hancestor)
        have hlt := h.ids_length_lt hnested hfield habove
        obtain ⟨outer, houter, hcase⟩ := ih _ (by omega) habove hancestor rfl
        refine ⟨outer, houter, .inr ?_⟩
        rcases hcase with rfl | hcase
        · exact hnested
        · exact descendantIds_trans h hnested hcase
      · exact ⟨id, (mem_outermostIds h hindexed).mpr ⟨hid, houter⟩, .inl rfl⟩

end

theorem columnProjection_eq_ok {schema : Schema} {id : Int32} {p : ColumnProjection}
    (h : columnProjection schema id = .ok p) : p.fieldId = id := by
  unfold columnProjection at h
  split at h
  · cases h
    rfl
  · cases h

theorem mapM_fieldId {schema : Schema} {ids : List Int32} {projections : List ColumnProjection}
    (h : ids.mapM (columnProjection schema) = .ok projections) :
    projections.map ColumnProjection.fieldId = ids := by
  induction ids generalizing projections with
  | nil =>
      cases h
      rfl
  | cons id ids ih =>
      rw [List.mapM_cons] at h
      obtain ⟨p, hp, h⟩ := Except.bind_eq_ok.mp h
      obtain ⟨rest, hrest, h⟩ := Except.bind_eq_ok.mp h
      cases h
      rw [List.map_cons, ih hrest, columnProjection_eq_ok hp]

/-- The projections are refused over a key, and are else the outermost masked fields. -/
theorem columnProjections_cases (schema : Schema) {masked : List Int32}
    (hindexed : ∀ id ∈ masked, (schema.fieldById id).isSome) :
    ((∃ e, columnProjections schema masked = .error e) ∧
        ∃ id ∈ masked, id ∈ mapKeyFieldIds schema) ∨
      (∀ id ∈ masked, id ∉ mapKeyFieldIds schema) ∧
        ∃ projections, columnProjections schema masked = .ok projections ∧
          projections.map ColumnProjection.fieldId = outermostIds schema masked := by
  unfold columnProjections
  cases masked with
  | nil => exact .inr ⟨(fun id hid => by cases hid), [], rfl, by simp [outermostIds]⟩
  | cons first rest =>
      rw [if_neg (by simp)]
      split
      next id hfind =>
        have hkey := List.find?_some (p := fun id => (mapKeyFieldIds schema).contains id) hfind
        exact .inl ⟨⟨_, rfl⟩, id, List.mem_of_find?_eq_some hfind, List.contains_iff_mem.mp hkey⟩
      next hfind =>
        refine .inr ⟨fun id hid hkey => ?_, ?_⟩
        · exact List.find?_eq_none.mp hfind id hid (List.contains_iff_mem.mpr hkey)
        · have hall : ∀ id ∈ outermostIds schema (first :: rest),
              ∃ p, columnProjection schema id = .ok p := by
            intro id hid
            rw [outermostIds, List.mem_mergeSort, List.mem_dedup] at hid
            obtain ⟨field, hfield⟩ :=
              Option.isSome_iff_exists.mp (hindexed id (List.mem_of_mem_filter hid))
            exact ⟨_, by rw [columnProjection, hfield]⟩
          obtain ⟨projections, hprojections⟩ := Except.exists_mapM_ok.mpr hall
          exact ⟨projections, hprojections, mapM_fieldId hprojections⟩

/-! ## Maps -/

/-- The field is a map, or has one nested in it. -/
def EnclosesMap (field : NestedField) : Prop :=
  ∃ inner, Inside inner field ∧ ∃ key value, inner.fieldType = .map key value

theorem keyIdsOfFields_eq (fields : List NestedField) :
    keyIdsOfFields fields = fields.flatMap fun field => field.fieldType.keyIds := by
  induction fields with
  | nil => rfl
  | cons field fields ih =>
      rw [keyIdsOfFields, ih, List.flatMap_cons]
      cases field
      rfl

/-- The keys in a type are those of the maps inside it. -/
theorem mem_keyIds (field : NestedField) {id : Int32} :
    id ∈ field.fieldType.keyIds ↔
      ∃ inner, Inside inner field ∧ ∃ key value, inner.fieldType = .map key value ∧
        key.id = id := by
  have hchildren : ∀ {id}, (∃ child ∈ field.fieldType.children, id ∈ child.fieldType.keyIds) ↔
      ∃ child ∈ field.fieldType.children, ∃ inner, Inside inner child ∧
        ∃ key value, inner.fieldType = .map key value ∧ key.id = id := by
    intro id
    refine exists_congr fun child => and_congr_right fun hchild => ?_
    exact mem_keyIds child
  have hinside : ∀ {P : NestedField → Prop}, (∃ inner, Inside inner field ∧ P inner) ↔
      P field ∨ ∃ child ∈ field.fieldType.children, ∃ inner, Inside inner child ∧ P inner := by
    intro P
    constructor
    · rintro ⟨inner, hinner, hP⟩
      rcases Relation.ReflTransGen.cases_tail hinner with rfl | ⟨child, hbelow, hchild⟩
      · exact .inl hP
      · exact .inr ⟨child, hchild, inner, hbelow, hP⟩
    · rintro (hP | ⟨child, hchild, inner, hbelow, hP⟩)
      · exact ⟨field, .refl, hP⟩
      · exact ⟨inner, hbelow.tail hchild, hP⟩
  rw [hinside, ← hchildren]
  obtain ⟨fieldId, name, required, fieldType⟩ := field
  have hkeys : ∀ nested : NestedField, nested.keyIds = nested.fieldType.keyIds := fun nested => by
    cases nested
    rfl
  cases fieldType with
  | primitive p | variant => simp [NestedField.fieldType, FieldType.keyIds, FieldType.children]
  | struct fields =>
      simp [NestedField.fieldType, FieldType.keyIds, FieldType.children, keyIdsOfFields_eq]
  | list element =>
      simp [NestedField.fieldType, FieldType.keyIds, FieldType.children, hkeys]
  | map key value =>
      simp [NestedField.fieldType, FieldType.keyIds, FieldType.children, hkeys, eq_comm]
termination_by sizeOf field
decreasing_by exact sizeOf_child hchild

section

variable {schema : Schema}

theorem mem_mapKeyFieldIds {id : Int32} : id ∈ mapKeyFieldIds schema ↔
    ∃ map, schema.Has map ∧ ∃ key value, map.fieldType = .map key value ∧ key.id = id := by
  rw [mapKeyFieldIds, keyIdsOfFields_eq, List.mem_flatMap]
  simp only [mem_keyIds, Schema.Has]
  constructor
  · rintro ⟨top, htop, map, hinside, hmap⟩
    exact ⟨map, ⟨top, htop, hinside⟩, hmap⟩
  · rintro ⟨map, ⟨top, htop, hinside⟩, hmap⟩
    exact ⟨top, htop, map, hinside, hmap⟩

variable (h : schema.Indexed)

include h

theorem parentId_child {field child : NestedField} (hfield : schema.Has field)
    (hchild : child ∈ field.fieldType.children) : parentId schema child.id = some field.id := by
  obtain ⟨top, htop, hinside⟩ := hfield
  refine h.mem_parents.mpr ⟨top, htop, hinside.parentIds_subset ?_⟩
  rw [parentIds_eq]
  refine List.mem_flatMap.mpr ⟨child, hchild, ?_⟩
  rw [nestedField_parentIds_eq]
  exact List.mem_cons_self ..

/-- A key is nested in a field exactly where its map is the field or nested in it. -/
theorem exists_key_iff {field : NestedField} (hfield : schema.Has field) :
    (∃ id ∈ field.fieldType.nestedIds, id ∈ mapKeyFieldIds schema) ↔ EnclosesMap field := by
  have hindexed : schema.fieldById field.id = some field := (h.fieldById_iff _ _).mpr ⟨hfield, rfl⟩
  constructor
  · rintro ⟨id, hid, hkey⟩
    obtain ⟨map, hmapHas, key, value, hmap, rfl⟩ := mem_mapKeyFieldIds.mp hkey
    have hdescendant : key.id ∈ descendantIds schema field.id := by
      rw [descendantIds, hindexed]
      exact hid
    obtain ⟨parent, hparent, hcase⟩ := h.mem_descendantIds.mp hdescendant
    have hkeyChild : key ∈ map.fieldType.children := by
      rw [hmap]
      exact List.mem_cons_self ..
    have hmapParent := parentId_child h hmapHas hkeyChild
    obtain rfl := Option.some.inj (hmapParent.symm.trans hparent)
    rcases hcase with hself | hnested
    · obtain rfl := h.eq_of_id hmapHas hfield hself
      exact ⟨map, .refl, key, value, hmap⟩
    · rw [descendantIds, hindexed] at hnested
      obtain ⟨child, hchild, inner, hinner, hinnerId⟩ := exists_inside field hnested
      obtain ⟨top, htop, hinside⟩ := hfield
      have hinnerField : Inside inner field := hinner.tail hchild
      obtain rfl := h.eq_of_id ⟨top, htop, hinnerField.trans hinside⟩ hmapHas hinnerId
      exact ⟨inner, hinnerField, key, value, hmap⟩
  · rintro ⟨map, hinside, key, value, hmap⟩
    obtain ⟨top, htop, hfieldInside⟩ := hfield
    refine ⟨key.id, hinside.nestedIds_subset ?_, mem_mapKeyFieldIds.mpr
      ⟨map, ⟨top, htop, hinside.trans hfieldInside⟩, key, value, hmap, rfl⟩⟩
    rw [hmap, FieldType.nestedIds, ids_eq]
    exact List.mem_cons_self ..

end

/-! ## Restrictions -/

/-- No mask names a map's key, a map, or a field with a map nested in it. -/
def MasksNoMap (metadata : TableMetadata) (masks : List Text) : Prop :=
  ∀ mask ∈ masks, ∀ field, resolveMask metadata.currentSchema mask = some field →
    field.id ∉ mapKeyFieldIds metadata.currentSchema ∧ ¬ EnclosesMap field

/-- What is published for the masks: a projection a column, minimal and complete. -/
def Publishes (metadata : TableMetadata) (obligations : Obligations) : Prop :=
  ∃ published, forTable metadata obligations = .ok published ∧
    Projects metadata.currentSchema (Covered metadata obligations.columnMasks)
      ((published.map ReadRestrictions.requiredColumnProjections).getD [])

theorem resolveMask_indexed {schema : Schema} {mask : Text} {field : NestedField}
    (h : resolveMask schema mask = some field) : schema.fieldById field.id = some field := by
  unfold resolveMask at h
  cases hname : schema.fieldByName mask with
  | some found =>
      rw [hname, Option.some_or] at h
      obtain rfl := Option.some.inj h
      exact schema.fieldById_fieldByName mask found hname
  | none =>
      rw [hname, Option.none_or] at h
      exact schema.fieldById_fieldByNameCaseInsensitive mask field h

section

variable {metadata : TableMetadata} (h : metadata.currentSchema.Indexed)

include h

theorem Covered.indexed {masks : List Text} {id : Int32} (hcovered : Covered metadata masks id) :
    (metadata.currentSchema.fieldById id).isSome := by
  obtain ⟨mask, -, field, hfield, hid⟩ := hcovered
  have hindexed := resolveMask_indexed hfield
  rcases hid with rfl | hid
  · rw [hindexed]
    rfl
  · rw [descendantIds, hindexed] at hid
    obtain ⟨⟨top, htop, hinside⟩, -⟩ := (h.fieldById_iff _ _).mp hindexed
    obtain ⟨child, hchild, inner, hinner, rfl⟩ := exists_inside field hid
    have hhas : metadata.currentSchema.Has inner :=
      ⟨top, htop, (hinner.tail hchild).trans hinside⟩
    rw [(h.fieldById_iff _ _).mpr ⟨hhas, rfl⟩]
    rfl

theorem Covered.nested {masks : List Text} {id outer : Int32}
    (hcovered : Covered metadata masks outer)
    (hid : id ∈ descendantIds metadata.currentSchema outer) : Covered metadata masks id := by
  obtain ⟨mask, hmask, field, hfield, houter⟩ := hcovered
  refine ⟨mask, hmask, field, hfield, .inr ?_⟩
  rcases houter with rfl | houter
  · exact hid
  · exact descendantIds_trans h hid houter

theorem masksNoMap_iff {masks : List Text} :
    MasksNoMap metadata masks ↔
      ∀ id, Covered metadata masks id → id ∉ mapKeyFieldIds metadata.currentSchema := by
  have hfield : ∀ {mask field}, resolveMask metadata.currentSchema mask = some field →
      (EnclosesMap field ↔ ∃ id ∈ descendantIds metadata.currentSchema field.id,
        id ∈ mapKeyFieldIds metadata.currentSchema) := by
    intro mask field hmask
    have hindexed := resolveMask_indexed hmask
    rw [descendantIds, hindexed, exists_key_iff h ((h.fieldById_iff _ _).mp hindexed).1]
  constructor
  · rintro hmasks id ⟨mask, hmask, field, hresolve, hid⟩ hkey
    obtain ⟨hnot, hno⟩ := hmasks mask hmask field hresolve
    rcases hid with rfl | hid
    · exact hnot hkey
    · exact hno ((hfield hresolve).mpr ⟨id, hid, hkey⟩)
  · intro hcovered mask hmask field hresolve
    refine ⟨hcovered _ ⟨mask, hmask, field, hresolve, .inl rfl⟩, fun hencloses => ?_⟩
    obtain ⟨id, hid, hkey⟩ := (hfield hresolve).mp hencloses
    exact hcovered id ⟨mask, hmask, field, hresolve, .inr hid⟩ hkey

/-- The outermost masked fields are minimal and complete. -/
theorem projects_outermost {masks : List Text} {masked : List Int32}
    {projections : List ColumnProjection} (hmasked : ∀ id, id ∈ masked ↔ Covered metadata masks id)
    (hids : projections.map ColumnProjection.fieldId = outermostIds metadata.currentSchema masked) :
    Projects metadata.currentSchema (Covered metadata masks) projections := by
  have hindexed : ∀ id ∈ masked, (metadata.currentSchema.fieldById id).isSome := fun id hid =>
    Covered.indexed h ((hmasked id).mp hid)
  have hmem : ∀ p ∈ projections, p.fieldId ∈ masked ∧ ¬ ∃ ancestor ∈ masked,
      p.fieldId ∈ descendantIds metadata.currentSchema ancestor := by
    intro p hp
    rw [← mem_outermostIds h hindexed, ← hids]
    exact List.mem_map_of_mem hp
  constructor
  · intro p hp q hq hnested
    exact (hmem q hq).2 ⟨p.fieldId, (hmem p hp).1, hnested⟩
  · intro id
    constructor
    · intro hcovered
      obtain ⟨field, hfield⟩ := Option.isSome_iff_exists.mp (Covered.indexed h hcovered)
      obtain ⟨outer, houter, hcase⟩ :=
        exists_outermost h hindexed hfield ((hmasked id).mpr hcovered)
      rw [← hids] at houter
      obtain ⟨p, hp, rfl⟩ := List.mem_map.mp houter
      exact ⟨p, hp, hcase⟩
    · rintro ⟨p, hp, hcase⟩
      have hcovered := (hmasked _).mp (hmem p hp).1
      rcases hcase with rfl | hnested
      · exact hcovered
      · exact hcovered.nested h hnested

end

theorem readRestrictions_of_projections (schema : Schema) {obligations : Obligations}
    (masked : List Int32) (hsome : obligations.isEmpty = false) :
    (∀ e, columnProjections schema masked = .error e →
      readRestrictions schema obligations masked = .error e) ∧
    ∀ projections, columnProjections schema masked = .ok projections →
      ∃ published, readRestrictions schema obligations masked = .ok published ∧
        (published.map ReadRestrictions.requiredColumnProjections).getD [] = projections := by
  unfold readRestrictions
  rw [if_neg (by rw [hsome]; exact Bool.false_ne_true)]
  refine ⟨fun e he => by rw [he]; rfl, fun projections hok => ?_⟩
  rw [hok]
  by_cases hnone : projections.isEmpty ∧ (rowFilter schema obligations).isNone
  · refine ⟨none, if_pos hnone, ?_⟩
    exact (List.isEmpty_iff.mp hnone.1).symm
  · exact ⟨some ⟨projections, rowFilter schema obligations⟩, if_neg hnone, rfl⟩

/-- Masks are published exactly where none is lost and none takes a map along. -/
theorem forTable_iff (metadata : TableMetadata) (h : metadata.currentSchema.Indexed)
    (obligations : Obligations) :
    Publishes metadata obligations ↔
      ¬ Lost metadata obligations.columnMasks ∧ MasksNoMap metadata obligations.columnMasks := by
  unfold Publishes forTable
  cases hempty : obligations.isEmpty with
  | true =>
      rw [Obligations.isEmpty, Bool.and_eq_true, List.isEmpty_iff, List.isEmpty_iff] at hempty
      rw [if_pos rfl, hempty.2]
      refine iff_of_true ⟨none, rfl, ⟨?_, fun id => iff_of_false ?_ ?_⟩⟩ ⟨?_, ?_⟩
      · intro p hp
        cases hp
      · rintro ⟨_, hmask, -⟩
        cases hmask
      · rintro ⟨_, hp, -⟩
        cases hp
      · rintro ⟨_, hmask, -⟩
        cases hmask
      · intro mask hmask
        cases hmask
  | false =>
      rw [if_neg Bool.false_ne_true]
      rcases maskedFieldIds_cases metadata obligations with ⟨⟨e, he⟩, hlost⟩ |
        ⟨masked, hok, hlost, hmem⟩
      · rw [he]
        exact iff_of_false (fun ⟨_, hpublished, _⟩ => by cases hpublished) fun hnot => hnot.1 hlost
      · rw [hok, and_iff_right hlost, masksNoMap_iff h]
        have hread := readRestrictions_of_projections metadata.currentSchema masked hempty
        rcases columnProjections_cases metadata.currentSchema
          (fun id hid => Covered.indexed h ((hmem id).mp hid)) with ⟨⟨e, he⟩, id, hid, hkey⟩ |
          ⟨hclear, projections, hprojections, hids⟩
        · refine iff_of_false ?_ fun hnot => hnot id ((hmem id).mp hid) hkey
          rintro ⟨published, hpublished, -⟩
          have hrefused := hread.1 e he
          rw [show (Except.ok masked >>= readRestrictions metadata.currentSchema obligations) =
            readRestrictions metadata.currentSchema obligations masked from rfl,
              hrefused] at hpublished
          cases hpublished
        · obtain ⟨published, hpublished, hget⟩ := hread.2 projections hprojections
          refine iff_of_true ⟨published, hpublished, ?_⟩ fun id hcovered =>
            hclear id ((hmem id).mpr hcovered)
          rw [hget]
          exact projects_outermost h hmem hids

/-! ## A table of one column -/

namespace Schema

/-- The schema of one column and the fields in it, each with its full ASCII name. -/
def ofColumn (column : NestedField) (index : List (Text × NestedField))
    (hids : (index.map fun entry => entry.2.id).Nodup) (hnames : (index.map Prod.fst).Nodup) :
    Schema where
  fields := [column]
  fieldById id := (index.find? fun entry => entry.2.id == id).map Prod.snd
  fieldByName name := (index.find? fun entry => entry.1 == name).map Prod.snd
  fieldByNameCaseInsensitive name :=
    (index.find? fun entry => entry.1.toAsciiLowercase == name.toAsciiLowercase).map Prod.snd
  nameByFieldId id := (index.find? fun entry => entry.2.id == id).map Prod.fst
  fieldById_id id field h := by
    obtain ⟨entry, hentry, rfl⟩ := Option.map_eq_some_iff.mp h
    simpa using List.find?_some hentry
  nameByFieldId_isSome id := by simp
  fieldByName_nameByFieldId id name h := by
    obtain ⟨entry, hentry, rfl⟩ := Option.map_eq_some_iff.mp h
    rw [hentry, find?_key_eq_some Prod.fst hnames (List.mem_of_find?_eq_some hentry)]
  fieldById_fieldByName name field h := by
    obtain ⟨entry, hentry, rfl⟩ := Option.map_eq_some_iff.mp h
    rw [find?_key_eq_some (fun entry : Text × NestedField => entry.2.id) hids
      (List.mem_of_find?_eq_some hentry)]
    rfl
  fieldById_fieldByNameCaseInsensitive name field h := by
    obtain ⟨entry, hentry, rfl⟩ := Option.map_eq_some_iff.mp h
    rw [find?_key_eq_some (fun entry : Text × NestedField => entry.2.id) hids
      (List.mem_of_find?_eq_some hentry)]
    rfl
  fieldByNameCaseInsensitive_isSome name h := by
    rw [Option.isSome_map, List.find?_isSome] at h ⊢
    obtain ⟨entry, hentry, hname⟩ := h
    exact ⟨entry, hentry, by simp [eq_of_beq hname]⟩

theorem indexed_ofColumn {column : NestedField} {index : List (Text × NestedField)}
    (hids : (index.map fun entry => entry.2.id).Nodup) (hnames : (index.map Prod.fst).Nodup)
    (hleaves : ∀ child ∈ column.fieldType.children, child.fieldType.children = [])
    (hindex : index.map Prod.snd = column :: column.fieldType.children)
    (hnodup : (idsOfFields [column]).Nodup) : (ofColumn column index hids hnames).Indexed := by
  have hhas : ∀ field, (ofColumn column index hids hnames).Has field ↔
      field ∈ index.map Prod.snd := by
    intro field
    rw [hindex, List.mem_cons]
    constructor
    · rintro ⟨top, htop, hinside⟩
      obtain rfl := List.mem_singleton.mp htop
      rcases Relation.ReflTransGen.cases_tail hinside with heq | ⟨child, hbelow, hchild⟩
      · exact .inl heq.symm
      · rcases Relation.ReflTransGen.cases_tail hbelow with rfl | ⟨leaf, -, hleaf⟩
        · exact .inr hchild
        · rw [hleaves child hchild] at hleaf
          cases hleaf
    · rintro (rfl | hchild)
      · exact ⟨field, List.mem_singleton_self _, .refl⟩
      · exact ⟨column, List.mem_singleton_self _, .single hchild⟩
  refine ⟨hnodup, fun id field => ?_⟩
  rw [hhas, List.mem_map]
  constructor
  · intro hfield
    obtain ⟨entry, hentry, rfl⟩ := Option.map_eq_some_iff.mp hfield
    exact ⟨⟨entry, List.mem_of_find?_eq_some hentry, rfl⟩, by simpa using List.find?_some hentry⟩
  · rintro ⟨⟨entry, hentry, rfl⟩, rfl⟩
    exact congrArg (Option.map Prod.snd) (find?_key_eq_some
      (fun entry : Text × NestedField => entry.2.id) hids hentry)

end Schema

/-! ## A struct, and a map -/

/-- `user`, a struct of one text. -/
def userColumn : NestedField :=
  .mk 1 "user".toList false (.struct [.column 2 "ssn" false .string])

def userIndex : List (Text × NestedField) :=
  [("user".toList, userColumn), ("user.ssn".toList, .column 2 "ssn" false .string)]

def users : TableMetadata where
  currentSchema := Schema.ofColumn userColumn userIndex (by decide) (by decide)
  schemas := []
  partitionSpecs := []

theorem users_indexed : users.currentSchema.Indexed :=
  Schema.indexed_ofColumn (by decide) (by decide)
    (fun child hchild => by obtain rfl := List.mem_singleton.mp hchild; rfl) rfl (by decide)

/-- A masked struct is published, as one projection. -/
theorem forTable_user : Publishes users ⟨[], ["user".toList]⟩ := by
  refine (forTable_iff users users_indexed _).mpr ⟨?_, ?_⟩
  · rintro ⟨mask, hmask, hnone, -⟩
    obtain rfl := List.mem_singleton.mp hmask
    cases hnone
  · intro mask hmask field hfield
    obtain rfl := List.mem_singleton.mp hmask
    obtain rfl := Option.some.inj (show some userColumn = some field from hfield)
    have hkeys : mapKeyFieldIds users.currentSchema = [] := rfl
    have hnone : ¬ ∃ id ∈ userColumn.fieldType.nestedIds,
        id ∈ mapKeyFieldIds users.currentSchema := by
      rw [hkeys]
      rintro ⟨id, -, hid⟩
      cases hid
    rw [exists_key_iff users_indexed ⟨userColumn, List.mem_singleton_self _, .refl⟩] at hnone
    refine ⟨?_, hnone⟩
    rw [hkeys]
    exact List.not_mem_nil

/-- `tags`, a map from text to text. -/
def tagsColumn : NestedField :=
  .mk 3 "tags".toList false (.map (.column 4 "key" true .string) (.column 5 "value" false .string))

def tagsIndex : List (Text × NestedField) :=
  [("tags".toList, tagsColumn), ("tags.key".toList, .column 4 "key" true .string),
    ("tags.value".toList, .column 5 "value" false .string)]

def tagged : TableMetadata where
  currentSchema := Schema.ofColumn tagsColumn tagsIndex (by decide) (by decide)
  schemas := []
  partitionSpecs := []

/-- A masked map is no map's key, and is refused for its own key. -/
theorem masked_map_refused :
    tagged.currentSchema.Indexed ∧
      (∀ field, resolveMask tagged.currentSchema "tags".toList = some field →
        field.id ∉ mapKeyFieldIds tagged.currentSchema) ∧
      ¬ Lost tagged ["tags".toList] ∧ ¬ Publishes tagged ⟨[], ["tags".toList]⟩ := by
  refine ⟨Schema.indexed_ofColumn (by decide) (by decide) ?_ rfl (by decide), ?_, ?_, ?_⟩
  · intro child hchild
    have hcase :
      child = .column 4 "key" true .string ∨ child = .column 5 "value" false .string := by
      simpa [tagsColumn, NestedField.fieldType, FieldType.children] using hchild
    rcases hcase with rfl | rfl <;> rfl
  · intro field hfield
    obtain rfl := Option.some.inj (show some tagsColumn = some field from hfield)
    have hkeys : mapKeyFieldIds tagged.currentSchema = [4] := rfl
    rw [hkeys]
    decide
  · rintro ⟨mask, hmask, hnone, -⟩
    obtain rfl := List.mem_singleton.mp hmask
    cases hnone
  · rintro ⟨published, hpublished, -⟩
    have hmasked : maskedFieldIds tagged ⟨[], ["tags".toList]⟩ = .ok [3, 4, 5] := rfl
    have hkeys : mapKeyFieldIds tagged.currentSchema = [4] := rfl
    rw [forTable, if_neg (by decide), hmasked] at hpublished
    cases hpublished

end Rustberg.Query
