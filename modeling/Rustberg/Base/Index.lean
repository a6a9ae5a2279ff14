import Rustberg.Base.Relation

/-!
# Rows and an index over one of their fields

Rows are stored under ids; an index lists, under each value of a field,
the ids of the rows that have it. Reading the index is reading the rows
of the ids it lists, skipping an id that has no row.

`IndexOf` is the invariant of an index that is kept up: it is kept by
adding a row under a new id, by replacing a row with one of the same
field value, and by removing a row together with its id.
`IndexOf.exact` is what it is for. The other direction is
`IndexOf.field_eq` and `IndexOf.new_id`: a row that is replaced by one
with another value, or listed again, makes some answer wrong.
-/

abbrev Index := Relation (List Text)

namespace Index

variable {V : Type}

/-! ## Listing and reading -/

def listed (index : Index) (value : Text) : List Text := (index[value]?).getD []

def push (index : Index) (value id : Text) : Index :=
  index.insert value (listed index value ++ [id])

def withdraw (index : Index) (value id : Text) : Index :=
  match index[value]? with
  | none => index
  | some ids => index.insert value (ids.filter (· ≠ id))

/-- The rows of the ids listed under `value`. -/
def answer (rows : Relation V) (index : Index) (value : Text) : List V :=
  ((index[value]?).map fun ids => ids.filterMap fun id => rows[id]?).getD []

@[simp] theorem listed_empty (value : Text) : listed ∅ value = [] := by
  simp [listed]

theorem listed_push (index : Index) (value id a : Text) :
    listed (push index value id) a =
      if value = a then listed index value ++ [id] else listed index a := by
  unfold push
  rw [listed, Relation.getElem?_insert]
  split
  · rfl
  · rfl

theorem listed_withdraw (index : Index) (value id a : Text) :
    listed (withdraw index value id) a =
      if value = a then (listed index value).filter (· ≠ id) else listed index a := by
  unfold withdraw
  cases hids : index[value]? with
  | none =>
      by_cases ha : value = a
      · subst ha
        simp [listed, hids]
      · simp [ha]
  | some ids =>
      simp only [listed, Relation.getElem?_insert, hids]
      split
      · rfl
      · rfl

theorem answer_eq (rows : Relation V) (index : Index) (value : Text) :
    answer rows index value = (listed index value).filterMap fun id => rows[id]? := by
  unfold answer listed
  cases index[value]? with
  | none => rfl
  | some ids => rfl

theorem mem_answer {rows : Relation V} {index : Index} {value : Text} {row : V} :
    row ∈ answer rows index value ↔ ∃ id ∈ listed index value, rows[id]? = some row := by
  rw [answer_eq, List.mem_filterMap]

/-! ## The invariant -/

/-- `index` lists under each value the ids of the rows whose field has it, each once. -/
structure IndexOf (rows : Relation V) (field : V → Text) (index : Index) : Prop where
  nodup : ∀ value, (listed index value).Nodup
  mem : ∀ value id,
    id ∈ listed index value ↔ ∃ row, rows[id]? = some row ∧ field row = value

namespace IndexOf

variable {rows : Relation V} {field : V → Text} {index : Index}

theorem empty (field : V → Text) : IndexOf ∅ field ∅ where
  nodup value := by simp
  mem value id := by simp

theorem mem_own (h : IndexOf rows field index) {id : Text} {row : V}
    (hrow : rows[id]? = some row) : id ∈ listed index (field row) :=
  (h.mem _ _).mpr ⟨row, hrow, rfl⟩

theorem not_listed (h : IndexOf rows field index) {id : Text} (hnew : rows[id]? = none)
    (value : Text) : id ∉ listed index value := by
  intro hmem
  obtain ⟨row, hrow, _⟩ := (h.mem _ _).mp hmem
  rw [hnew] at hrow
  cases hrow

theorem field_of_listed (h : IndexOf rows field index) {value id : Text} {row : V}
    (hmem : id ∈ listed index value) (hrow : rows[id]? = some row) : field row = value := by
  obtain ⟨other, hother, hvalue⟩ := (h.mem _ _).mp hmem
  rw [hrow] at hother
  cases hother
  exact hvalue

theorem insert_new (h : IndexOf rows field index) {id : Text} (row : V)
    (hnew : rows[id]? = none) :
    IndexOf (rows.insert id row) field (push index (field row) id) where
  nodup value := by
    rw [listed_push]
    split
    · rw [List.nodup_append]
      refine ⟨h.nodup _, List.nodup_singleton _, ?_⟩
      intro a ha b hb heq
      rw [heq, List.mem_singleton.mp hb] at ha
      exact h.not_listed hnew _ ha
    · exact h.nodup value
  mem value a := by
    rw [listed_push, Relation.getElem?_insert]
    by_cases ha : id = a
    · subst ha
      by_cases hv : field row = value
      · simp [hv]
      · simp [hv, h.not_listed hnew value]
    · rw [if_neg ha, ← h.mem]
      by_cases hv : field row = value
      · simp [hv, Ne.symm ha]
      · simp [hv]

theorem replace (h : IndexOf rows field index) {id : Text} {old : V} (row : V)
    (hold : rows[id]? = some old) (hfield : field row = field old) :
    IndexOf (rows.insert id row) field index where
  nodup := h.nodup
  mem value a := by
    rw [Relation.getElem?_insert, h.mem]
    by_cases ha : id = a
    · subst ha
      simp [hold, hfield]
    · rw [if_neg ha]

theorem erase (h : IndexOf rows field index) {id : Text} {row : V}
    (hrow : rows[id]? = some row) :
    IndexOf (rows.erase id) field (withdraw index (field row) id) where
  nodup value := by
    rw [listed_withdraw]
    split
    · exact (h.nodup _).filter _
    · exact h.nodup value
  mem value a := by
    rw [listed_withdraw, Relation.getElem?_erase]
    by_cases ha : id = a
    · subst ha
      by_cases hv : field row = value
      · simp [hv]
      · have hout : id ∉ listed index value := fun hmem => hv (h.field_of_listed hmem hrow)
        simp [hv, hout]
    · rw [if_neg ha, ← h.mem]
      by_cases hv : field row = value
      · simp [hv, Ne.symm ha]
      · simp [hv]

end IndexOf

/-! ## Exact answers -/

/-- Under each value the answer is the rows whose field has it, each once. -/
def Exact (rows : Relation V) (field : V → Text) (index : Index) : Prop :=
  ∀ value, (answer rows index value).Nodup ∧
    ∀ row, row ∈ answer rows index value ↔ (∃ id : Text, rows[id]? = some row) ∧ field row = value

/-- Each row knows the id it is stored under. -/
def Keyed (rows : Relation V) (key : V → Text) : Prop :=
  ∀ (id : Text) (row : V), rows[id]? = some row → key row = id

theorem Keyed.insert {rows : Relation V} {key : V → Text} (h : Keyed rows key) (row : V) :
    Keyed (rows.insert (key row) row) key := by
  intro id other hother
  rw [Relation.getElem?_insert] at hother
  split at hother
  next hid =>
    cases hother
    exact hid
  next => exact h id other hother

theorem Keyed.erase {rows : Relation V} {key : V → Text} (h : Keyed rows key) (id : Text) :
    Keyed (rows.erase id) key := by
  intro other row hrow
  rw [Relation.getElem?_erase] at hrow
  split at hrow
  · cases hrow
  · exact h other row hrow

namespace IndexOf

variable {rows : Relation V} {key field : V → Text} {index : Index}

theorem exact (h : IndexOf rows field index) (hkeyed : Keyed rows key) :
    Exact rows field index := by
  intro value
  constructor
  · rw [answer_eq]
    refine List.Nodup.filterMap ?_ (h.nodup value)
    intro a b row ha hb
    rw [← hkeyed a row ha, ← hkeyed b row hb]
  · intro row
    rw [mem_answer]
    constructor
    · rintro ⟨id, hid, hrow⟩
      exact ⟨⟨id, hrow⟩, h.field_of_listed hid hrow⟩
    · rintro ⟨⟨id, hrow⟩, hvalue⟩
      exact ⟨id, (h.mem value id).mpr ⟨row, hrow, hvalue⟩, hrow⟩

/-- Where the id stays listed under the old value, exact answers need the new
row to have that value. -/
theorem field_eq (h : IndexOf rows field index) {id : Text} {old row : V} {index' : Index}
    (hold : rows[id]? = some old)
    (hlisted : listed index (field old) ⊆ listed index' (field old))
    (hexact : Exact (rows.insert id row) field index') : field row = field old := by
  have hmem : row ∈ answer (rows.insert id row) index' (field old) := by
    refine mem_answer.mpr ⟨id, hlisted (h.mem_own hold), ?_⟩
    rw [Relation.getElem?_insert, if_pos rfl]
  exact ((hexact (field old)).2 row |>.mp hmem).2

/-- An id listed again is exact only where it had no row. -/
theorem new_id (h : IndexOf rows field index) {id : Text} {row : V}
    (hexact : Exact (rows.insert id row) field (push index (field row) id)) :
    rows[id]? = none := by
  by_contra hne
  obtain ⟨old, hold⟩ := Option.ne_none_iff_exists'.mp hne
  have hsubset : listed index (field old) ⊆
      listed (push index (field row) id) (field old) := by
    intro a ha
    rw [listed_push]
    split
    next hfield =>
      rw [hfield]
      exact List.mem_append_left _ ha
    next => exact ha
  have hfield : field row = field old := h.field_eq hold hsubset hexact
  have hnodup := (hexact (field row)).1
  rw [answer_eq, listed_push, if_pos rfl, List.filterMap_append] at hnodup
  -- the row stands once for the id listed before and once for the one pushed
  have hrow : (rows.insert id row)[id]? = some row := by
    rw [Relation.getElem?_insert, if_pos rfl]
  have hfirst : row ∈ (listed index (field row)).filterMap
      fun a => (rows.insert id row)[a]? := by
    refine List.mem_filterMap.mpr ⟨id, ?_, hrow⟩
    rw [hfield]
    exact h.mem_own hold
  have hsecond : row ∈ [id].filterMap fun a => (rows.insert id row)[a]? :=
    List.mem_filterMap.mpr ⟨id, List.mem_singleton.mpr rfl, hrow⟩
  exact (List.nodup_append.mp hnodup).2.2 row hfirst row hsecond rfl

end IndexOf

end Index
