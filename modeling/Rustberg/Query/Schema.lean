import Rustberg.Base.Text

/-!
# Table schemas

A table's columns as `iceberg::spec` types them. `Schema` is a built schema
seen through its lookups: by field id, and by name with and without regard
to case. Its laws are what the builder of a schema guarantees about them.
-/

namespace Rustberg.Query

inductive PrimitiveType where
  | boolean
  | int
  | long
  | float
  | double
  | decimal (precision scale : Nat)
  | date
  | time
  | timestamp
  | timestamptz
  | timestampNs
  | timestamptzNs
  | string
  | uuid
  | fixed (length : Nat)
  | binary
  deriving DecidableEq, Repr

mutual

inductive FieldType where
  | primitive (primitive : PrimitiveType)
  | struct (fields : List NestedField)
  | list (element : NestedField)
  | map (key value : NestedField)
  | variant

inductive NestedField where
  | mk (id : Int32) (name : Text) (required : Bool) (fieldType : FieldType)

end

namespace NestedField

def id : NestedField → Int32
  | mk id _ _ _ => id

def name : NestedField → Text
  | mk _ name _ _ => name

def required : NestedField → Bool
  | mk _ _ required _ => required

def fieldType : NestedField → FieldType
  | mk _ _ _ fieldType => fieldType

/-- A top-level or nested column of a primitive type. -/
def column (id : Int32) (name : String) (required : Bool) (primitive : PrimitiveType) :
    NestedField :=
  mk id name.toList required (.primitive primitive)

end NestedField

/-- A built schema. -/
structure Schema where
  /-- `as_struct().fields()` -/
  fields : List NestedField
  fieldById : Int32 → Option NestedField
  fieldByName : Text → Option NestedField
  fieldByNameCaseInsensitive : Text → Option NestedField
  nameByFieldId : Int32 → Option Text
  /-- Fields are indexed by their own id. -/
  fieldById_id : ∀ id field, fieldById id = some field → field.id = id
  /-- Every indexed field has a name. -/
  nameByFieldId_isSome : ∀ id, (nameByFieldId id).isSome = (fieldById id).isSome
  /-- The name of a field finds it. -/
  fieldByName_nameByFieldId : ∀ id name, nameByFieldId id = some name →
    fieldByName name = fieldById id
  /-- A field found by name is an indexed field. -/
  fieldById_fieldByName : ∀ name field, fieldByName name = some field →
    fieldById field.id = some field
  fieldById_fieldByNameCaseInsensitive : ∀ name field,
    fieldByNameCaseInsensitive name = some field → fieldById field.id = some field
  /-- A name that is matched exactly is matched without regard to case. -/
  fieldByNameCaseInsensitive_isSome : ∀ name, (fieldByName name).isSome →
    (fieldByNameCaseInsensitive name).isSome

namespace Schema

/-- `field_id_by_name` -/
def fieldIdByName (schema : Schema) (name : Text) : Option Int32 :=
  (schema.fieldByName name).map NestedField.id

/-- Of distinct keys the first match is the only one. -/
theorem find?_key_eq_some {α κ : Type} [BEq κ] [LawfulBEq κ] (key : α → κ) {as : List α}
    (h : (as.map key).Nodup) {a : α} (ha : a ∈ as) :
    (as.find? fun b => key b == key a) = some a := by
  induction as with
  | nil => cases ha
  | cons first rest ih =>
      obtain ⟨hfirst, hrest⟩ := List.nodup_cons.mp h
      rcases List.mem_cons.mp ha with rfl | ha
      · simp
      · have hne : key first ≠ key a := fun heq => hfirst (heq ▸ List.mem_map_of_mem ha)
        rw [List.find?_cons_of_neg (by simpa using hne), ih hrest ha]

/-- The schema of top-level columns with ASCII names. -/
def flat (fields : List NestedField) (hids : (fields.map NestedField.id).Nodup)
    (hnames : (fields.map NestedField.name).Nodup) : Schema where
  fields := fields
  fieldById id := fields.find? fun field => field.id == id
  fieldByName name := fields.find? fun field => field.name == name
  fieldByNameCaseInsensitive name :=
    fields.find? fun field => field.name.toAsciiLowercase == name.toAsciiLowercase
  nameByFieldId id := (fields.find? fun field => field.id == id).map NestedField.name
  fieldById_id id field h := by simpa using List.find?_some h
  nameByFieldId_isSome id := Option.isSome_map
  fieldByName_nameByFieldId id name h := by
    obtain ⟨field, hfield, rfl⟩ := Option.map_eq_some_iff.mp h
    rw [hfield, find?_key_eq_some NestedField.name hnames (List.mem_of_find?_eq_some hfield)]
  fieldById_fieldByName name field h :=
    find?_key_eq_some NestedField.id hids (List.mem_of_find?_eq_some h)
  fieldById_fieldByNameCaseInsensitive name field h :=
    find?_key_eq_some NestedField.id hids (List.mem_of_find?_eq_some h)
  fieldByNameCaseInsensitive_isSome name h := by
    obtain ⟨field, hfield⟩ := Option.isSome_iff_exists.mp h
    have hname : field.name = name := by simpa using List.find?_some hfield
    rw [List.find?_isSome]
    exact ⟨field, List.mem_of_find?_eq_some hfield, by simp [hname]⟩

section

variable {fields : List NestedField} {hids : (fields.map NestedField.id).Nodup}
  {hnames : (fields.map NestedField.name).Nodup} {field : NestedField}

theorem flat_fieldByName (h : field ∈ fields) :
    (flat fields hids hnames).fieldByName field.name = some field :=
  find?_key_eq_some NestedField.name hnames h

theorem flat_nameByFieldId (h : field ∈ fields) :
    (flat fields hids hnames).nameByFieldId field.id = some field.name :=
  congrArg (Option.map NestedField.name) (find?_key_eq_some NestedField.id hids h)

end

end Schema

end Rustberg.Query
