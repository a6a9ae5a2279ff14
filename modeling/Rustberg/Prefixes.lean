import Rustberg.LocationBound

/-!
# Do two resources' prefixes overlap?

A resource keeps its files under `<warehouse>/<namespace…>/<name>`. By
`isWithin_below`, containment between two such prefixes is the prefix
order on their paths, the namespace levels followed by the name. Distinct
paths can still be nested: a table may be called as a namespace is, and
then every resource of that namespace lies inside it.
-/

namespace Rustberg

/-- The warehouse has a `..` segment, so `is_within` admits nothing below it. -/
def warehouseClimbs (warehouse : Text) : Bool := climbs (warehouse.trimEndMatches '/' ++ ['/'])

/-- A resource with a validated name: the path its prefix is built from. -/
structure Resource (u : UnicodeData) where
  namespc : List Text
  name : Text
  namespc_valid : ∀ s ∈ namespc, ValidName u s
  name_valid : ValidName u name

namespace Resource

variable {u : UnicodeData} (a b : Resource u)

/-- The namespace levels, then the name. -/
def path : List Text := a.namespc ++ [a.name]

/-- Where the resource's files live. -/
def storage (warehouse : Text) : Text := canonicalPrefix warehouse a.namespc a.name

/-- A prefix that only one of the resources can reach. -/
def Apart (warehouse : Text) : Prop :=
  isWithin (a.storage warehouse) (b.storage warehouse) = false ∧
    isWithin (b.storage warehouse) (a.storage warehouse) = false ∧
    ∀ location, ¬ (isWithin (a.storage warehouse) location = true ∧
      isWithin (b.storage warehouse) location = true)

theorem path_ne_nil : a.path ≠ [] := by simp [path]

theorem valid_of_mem_path {s : Text} (hs : s ∈ a.path) : ValidName u s := by
  rcases List.mem_append.mp hs with hs | hs
  · exact a.namespc_valid s hs
  · rw [List.mem_singleton.mp hs]
    exact a.name_valid

theorem isPiece_of_mem_path {s : Text} (hs : s ∈ a.path) : IsPiece s :=
  (a.valid_of_mem_path hs).isPiece

theorem parent_notMem_path : parentSegment ∉ a.path := fun h =>
  (a.valid_of_mem_path h).ne_dotdot rfl

theorem storage_eq (warehouse : Text) :
    a.storage warehouse = warehouse.trimEndMatches '/' ++ Text.below '/' a.path :=
  canonicalPrefix_eq ..

variable {a b}

theorem ext_path (h : a.path = b.path) : a = b := by
  obtain ⟨hns, hname⟩ := List.append_inj' h rfl
  cases a; cases b
  simp_all

theorem isWithin_storage (warehouse : Text) :
    isWithin (a.storage warehouse) (b.storage warehouse) = true ↔
      a.path <+: b.path ∧ warehouseClimbs warehouse = false := by
  rw [storage_eq, storage_eq]
  exact isWithin_below a.path_ne_nil (fun _ => a.isPiece_of_mem_path) b.path_ne_nil
    (fun _ => b.isPiece_of_mem_path) b.parent_notMem_path _

/-- Between distinct resources, being nested is being named by a namespace. -/
theorem prefix_path_iff (hne : a ≠ b) : a.path <+: b.path ↔ a.path <+: b.namespc := by
  constructor
  · intro h
    rcases List.prefix_concat_iff.mp h with heq | h
    · exact absurd (ext_path heq) hne
    · exact h
  · exact fun h => h.trans (List.prefix_append ..)

/-- Two resources keep apart exactly when neither is called as a namespace
of the other - or when the warehouse climbs, and nothing is inside it. -/
theorem apart_iff (u : UnicodeData) (warehouse : Text) (a b : Resource u) (hne : a ≠ b) :
    Apart a b warehouse ↔
      warehouseClimbs warehouse = true ∨
        (¬ a.path <+: b.namespc ∧ ¬ b.path <+: a.namespc) := by
  rw [← prefix_path_iff hne, ← prefix_path_iff (Ne.symm hne)]
  cases hclimb : warehouseClimbs warehouse with
  | true =>
      refine iff_of_true ?_ (Or.inl rfl)
      have hout : ∀ x y : Resource u,
          isWithin (x.storage warehouse) (y.storage warehouse) = false := fun x y => by
        rw [Bool.eq_false_iff]
        intro h
        simpa [hclimb] using (isWithin_storage warehouse).mp h
      refine ⟨hout a b, hout b a, fun location ⟨ha, hb⟩ => ?_⟩
      rcases isWithin_of_both ha hb with h | h
      · exact absurd h (by simp [hout])
      · exact absurd h (by simp [hout])
  | false =>
      have hab := isWithin_storage (a := a) (b := b) warehouse
      have hba := isWithin_storage (a := b) (b := a) warehouse
      simp only [hclimb, and_true] at hab hba
      simp only [Bool.false_eq_true, false_or]
      rw [← hab, ← hba]
      simp only [Bool.not_eq_true]
      constructor
      · exact fun h => ⟨h.1, h.2.1⟩
      · rintro ⟨hab, hba⟩
        refine ⟨hab, hba, fun location ⟨ha, hb⟩ => ?_⟩
        rcases isWithin_of_both ha hb with h | h
        · exact absurd h (by simp [hab])
        · exact absurd h (by simp [hba])

/-! ## A table called as a namespace -/

theorem validName_letter {c : Char} (h : validateName UnicodeData.plain [c] [] = .ok ()) :
    ∀ s ∈ [[c]], ValidName UnicodeData.plain s := by
  simpa using ValidName.of_check h

/-- Table `b` of namespace `a`. -/
def outer : Resource UnicodeData.plain where
  namespc := [['a']]
  name := ['b']
  namespc_valid := validName_letter (by decide)
  name_valid := .of_check (by decide)

/-- Table `c` of namespace `a.b`. -/
def inner : Resource UnicodeData.plain where
  namespc := [['a'], ['b']]
  name := ['c']
  namespc_valid s hs := by
    rcases List.mem_cons.mp hs with rfl | hs
    · exact .of_check (by decide)
    · exact validName_letter (by decide) s hs
  name_valid := .of_check (by decide)

theorem outer_ne_inner : outer ≠ inner := fun h =>
  absurd (congrArg Resource.name h) (by decide)

theorem apart_iff_outer_inner :
    Apart outer inner "s3://bucket/wh".toList ↔
      warehouseClimbs "s3://bucket/wh".toList = true ∨
        (¬ outer.path <+: inner.namespc ∧ ¬ inner.path <+: outer.namespc) :=
  apart_iff UnicodeData.plain "s3://bucket/wh".toList outer inner outer_ne_inner

theorem prefixes_overlap :
    ¬ ∀ (u : UnicodeData) (warehouse : Text) (a b : Resource u), a ≠ b → Apart a b warehouse := by
  intro hall
  have hout := (hall _ "s3://bucket/wh".toList outer inner outer_ne_inner).1
  exact absurd hout (by decide)

end Resource

end Rustberg
