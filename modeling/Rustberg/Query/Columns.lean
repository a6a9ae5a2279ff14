import Mathlib.Data.Finset.Image
import Rustberg.Query.Agreement
import Rustberg.Query.Masks

/-!
# The columns a filter names

`referenced_columns` of `predicate.rs` walks a filter's JSON, and
`filter_alignment.rs` holds what it finds against the partition spec. The
walk looks under three keys of every node on a column, the reader under
one of them, and constants fold away nodes that both have read. The walk
also takes a name as it is spelled, and the schema may find a column of
another name by it: `referencedColumns_iff` says when the two sets are one
all the same.
-/

namespace Rustberg.Query

open Logic

/-! ## The walk -/

/-- The column an operand names, where it names one. -/
def namedBy (schema : Schema) (value : Json) : Option Text :=
  match referenceOperand value with
  | .ok operand =>
      match operand.resolve schema with
      | .ok name => name
      | .error _ => none
  | .error _ => none

/-- The columns named under the keys that may hold an operand. -/
def namedColumns (schema : Schema) (members : List (Text × Json)) : List Text :=
  ["child", "term", "left"].filterMap fun key =>
    (Json.get members key.toList).bind (namedBy schema)

def collectColumns (schema : Schema) : Json → Finset Text
  | .object members =>
      match (Json.get members "type".toList).bind Json.asStr with
      | none => ∅
      | some kind =>
          match FilterKind.ofText kind with
          | .junction _ =>
              (match child members "left" with
                | .ok ⟨value, _⟩ => collectColumns schema value
                | .error _ => ∅) ∪
              (match child members "right" with
                | .ok ⟨value, _⟩ => collectColumns schema value
                | .error _ => ∅)
          | .not =>
              match child members "child" with
              | .ok ⟨value, _⟩ => collectColumns schema value
              | .error _ => ∅
          | _ => (namedColumns schema members).toFinset
  | _ => ∅
termination_by json => sizeOf json

def referencedColumns (json : Json) (schema : Schema) : Finset Text := collectColumns schema json

/-! ## Partitions -/

inductive Transform where
  | identity
  | bucket (count : Nat)
  | truncate (width : Nat)
  | year
  | month
  | day
  | hour
  | void
  | unknown
  deriving DecidableEq, Repr

/-- A partition field with its transform. -/
structure TransformedField extends PartitionField where
  transform : Transform

/-- Columns a filter can be enforced on by withholding files. -/
def partitionSourceColumns (schema : Schema) (spec : List TransformedField) : Finset Text :=
  ((spec.filter fun field => field.transform = .identity).filterMap fun field =>
    schema.nameByFieldId field.sourceId).toFinset

/-- Columns a filter references that the table does not partition on. -/
def unalignedColumns (filter : Json) (schema : Schema) (spec : List TransformedField) :
    Finset Text :=
  (referencedColumns filter schema).filter fun column => column ∉ partitionSourceColumns schema spec

/-! ## What the predicate tests -/

/-- The names a predicate's references carry, as they are spelled, and what
`iceberg::expr` keeps of them. -/
structure IcebergExpr.References (x : IcebergExpr) where
  columns : x.Predicate → Finset Text
  constant : ∀ value, columns (x.constant value) = ∅
  ofAtom : ∀ atom, columns (x.ofAtom atom) = {atom.column}
  and : ∀ p q, p ≠ x.alwaysFalse → q ≠ x.alwaysFalse →
    columns (x.and p q) = columns p ∪ columns q
  or : ∀ p q, p ≠ x.alwaysTrue → q ≠ x.alwaysTrue → columns (x.or p q) = columns p ∪ columns q
  /-- Of a predicate that itself holds no double negation. -/
  negate : ∀ f, columns (x.negate (x.build f)) = columns (x.build f)

/-- The column a reference binds to, by its full name: the field that the
schema finds by the reference's own. -/
def Schema.columnOf (schema : Schema) (case : CaseSensitivity) (name : Text) : Option Text :=
  (schema.lookup case name).bind fun field => schema.nameByFieldId field.id

section

variable {x : IcebergExpr} (refs : x.References)

/-- The columns a predicate tests once it is bound. -/
def IcebergExpr.References.bound (schema : Schema) (case : CaseSensitivity) (p : x.Predicate) :
    Finset Text :=
  (refs.columns p).biUnion fun name => (schema.columnOf case name).toFinset

/-- Where each name read is the name of a column bound, they are as many, and so
the same. -/
theorem IcebergExpr.References.bound_eq {schema : Schema} {case : CaseSensitivity}
    {p : x.Predicate} (h : refs.columns p ⊆ refs.bound schema case p) :
    refs.columns p = refs.bound schema case p := by
  refine Finset.eq_of_subset_of_card_le h ?_
  have hcard : (refs.bound schema case p).card ≤ (refs.columns p).card * 1 :=
    Finset.card_biUnion_le_card_mul _ _ _ fun name _ => by
      cases schema.columnOf case name <;> simp
  rwa [Nat.mul_one] at hcard

/-- A predicate reads the names of the atoms that its constants leave. -/
theorem IcebergExpr.References.columns_build (hx : x.Folds)
    (f : Formula (Atom Text x.Datum) Empty) :
    refs.columns (x.build f) = (f.live.map Atom.column).toFinset := by
  have hconstant : ∀ {f : Formula (Atom Text x.Datum) Empty}, f.folded.isSome →
      refs.columns (x.build f) = ∅ := fun h => by
    obtain ⟨value, hvalue⟩ := Option.isSome_iff_exists.mp h
    rw [(hx.build_eq _ value).mpr hvalue, refs.constant]
  induction f with
  | const b => rw [IcebergExpr.build, refs.constant]; rfl
  | atom a => rw [IcebergExpr.build, refs.ofAtom]; rfl
  | hole e => exact e.elim
  | and left right ihl ihr =>
      rw [Formula.live]
      split
      next h => exact hconstant h
      next h =>
        have hne : ∀ {f : Formula (Atom Text x.Datum) Empty}, f = left ∨ f = right →
            x.build f ≠ x.alwaysFalse := fun hf hfalse => by
          have hfolded := (hx.build_eq _ false).mp hfalse
          refine h (Option.isSome_iff_exists.mpr ⟨false, Formula.folded_and_false.mpr ?_⟩)
          rcases hf with rfl | rfl
          · exact .inl hfolded
          · exact .inr hfolded
        rw [IcebergExpr.build, refs.and _ _ (hne (.inl rfl)) (hne (.inr rfl)), ihl, ihr,
          List.map_append, List.toFinset_append]
  | or left right ihl ihr =>
      rw [Formula.live]
      split
      next h => exact hconstant h
      next h =>
        have hne : ∀ {f : Formula (Atom Text x.Datum) Empty}, f = left ∨ f = right →
            x.build f ≠ x.alwaysTrue := fun hf htrue => by
          have hfolded := (hx.build_eq _ true).mp htrue
          refine h (Option.isSome_iff_exists.mpr ⟨true, Formula.folded_or_true.mpr ?_⟩)
          rcases hf with rfl | rfl
          · exact .inl hfolded
          · exact .inr hfolded
        rw [IcebergExpr.build, refs.or _ _ (hne (.inl rfl)) (hne (.inr rfl)), ihl, ihr,
          List.map_append, List.toFinset_append]
  | not child ih => rw [IcebergExpr.build, refs.negate, ih]; rfl

end

/-! ## The nodes of a filter -/

/-- The expressions of a filter that connect no others. -/
def leaves : Json → List (List (Text × Json))
  | .object members =>
      match (Json.get members "type".toList).bind Json.asStr with
      | none => []
      | some kind =>
          match FilterKind.ofText kind with
          | .junction _ =>
              (match child members "left" with
                | .ok ⟨value, _⟩ => leaves value
                | .error _ => []) ++
              (match child members "right" with
                | .ok ⟨value, _⟩ => leaves value
                | .error _ => [])
          | .not =>
              match child members "child" with
              | .ok ⟨value, _⟩ => leaves value
              | .error _ => []
          | _ => [members]
  | _ => []
termination_by json => sizeOf json

section

variable (schema : Schema)

/-- The walk finds what the leaves name. -/
theorem collectColumns_leaves : (json : Json) →
    collectColumns schema json = ((leaves json).flatMap (namedColumns schema)).toFinset
  | .null | .bool _ | .number _ | .string _ | .array _ => by
      rw [collectColumns, leaves]
      · rfl
      all_goals exact fun _ h => by cases h
  | .object members => by
      rw [collectColumns, leaves]
      cases (Json.get members "type".toList).bind Json.asStr with
      | none => rfl
      | some kind =>
          dsimp only
          cases FilterKind.ofText kind with
          | constant value | column op | other => simp
          | junction op =>
              dsimp only
              cases child members "left" with
              | error e =>
                  cases child members "right" with
                  | error e => rfl
                  | ok right =>
                      obtain ⟨right, hright⟩ := right
                      simp [collectColumns_leaves right]
              | ok left =>
                  obtain ⟨left, hleft⟩ := left
                  cases child members "right" with
                  | error e => simp [collectColumns_leaves left]
                  | ok right =>
                      obtain ⟨right, hright⟩ := right
                      simp [collectColumns_leaves left, collectColumns_leaves right]
          | not =>
              dsimp only
              cases child members "child" with
              | error e => rfl
              | ok value =>
                  obtain ⟨value, hlt⟩ := value
                  exact collectColumns_leaves value
termination_by json => sizeOf json

/-- A node on a column is a leaf. -/
theorem members_mem_leaves : (json : Json) → ∀ node ∈ (shapeOf json).atoms,
    node.members ∈ leaves json
  | .null | .bool _ | .number _ | .string _ | .array _ => by
      intro node hnode
      rw [shapeOf] at hnode
      · cases hnode
      all_goals exact fun _ h => by cases h
  | .object members => by
      intro node hnode
      rw [shapeOf] at hnode
      rw [leaves]
      cases hkind : kindOf members with
      | error e =>
          rw [hkind] at hnode
          cases hnode
      | ok kind =>
          rw [hkind] at hnode
          rw [kindOf_eq_ok.mp hkind]
          dsimp only at hnode ⊢
          cases hof : FilterKind.ofText kind with
          | constant value | other =>
              rw [hof] at hnode
              cases hnode
          | column op =>
              rw [hof] at hnode
              obtain rfl := List.mem_singleton.mp hnode
              exact List.mem_singleton_self _
          | junction op =>
              rw [hof] at hnode
              dsimp only at hnode ⊢
              cases hleft : child members "left" with
              | error e =>
                  rw [hleft] at hnode
                  cases hnode
              | ok left =>
                  cases hright : child members "right" with
                  | error e =>
                      rw [hleft, hright] at hnode
                      cases hnode
                  | ok right =>
                      obtain ⟨left, hltl⟩ := left
                      obtain ⟨right, hltr⟩ := right
                      rw [hleft, hright] at hnode
                      have hsides : node ∈ (shapeOf left).atoms ++ (shapeOf right).atoms := by
                        cases op <;> exact hnode
                      exact List.mem_append.mpr ((List.mem_append.mp hsides).imp
                        (members_mem_leaves left node) (members_mem_leaves right node))
          | not =>
              rw [hof] at hnode
              dsimp only at hnode ⊢
              cases hchild : child members "child" with
              | error e =>
                  rw [hchild] at hnode
                  cases hnode
              | ok value =>
                  obtain ⟨value, hlt⟩ := value
                  rw [hchild] at hnode
                  exact members_mem_leaves value node hnode
termination_by json => sizeOf json

/-- The name a node reads: the one under the key of its operator. -/
def ColumnNode.column (node : ColumnNode) : Option Text :=
  match node.op.operand node.members with
  | .ok operand =>
      match operand.resolve schema with
      | .ok name => name
      | .error _ => none
  | .error _ => none

theorem ColumnNode.column_mem {node : ColumnNode} {name : Text}
    (h : node.column schema = some name) : name ∈ namedColumns schema node.members := by
  have hnamed : ∀ {key key' : String} {value : Json}, key ∈ ["child", "term", "left"] →
      key' ∈ ["child", "term", "left"] → firstOf node.members key key' = some value →
      namedBy schema value = some name → name ∈ namedColumns schema node.members := by
    intro key key' value hkey hkey' hfirst hvalue
    rw [namedColumns, List.mem_filterMap]
    unfold firstOf at hfirst
    cases hget : Json.get node.members key.toList with
    | none =>
        rw [hget, Option.none_or] at hfirst
        exact ⟨key', hkey', by rw [hfirst]; exact hvalue⟩
    | some value' =>
        rw [hget, Option.some_or] at hfirst
        exact ⟨key, hkey, by rw [hget, hfirst]; exact hvalue⟩
  obtain ⟨op, kind, members⟩ := node
  unfold ColumnNode.column at h
  cases op with
  | unary op | set op =>
      dsimp only [ColumnOp.operand, operandOf] at h
      cases hfirst : firstOf members "child" "term" with
      | none =>
          rw [hfirst] at h
          cases h
      | some value =>
          rw [hfirst] at h
          exact hnamed (by decide) (by decide) hfirst h
  | comparison op =>
      dsimp only [ColumnOp.operand, comparisonOperandOf] at h
      cases hfirst : firstOf members "left" "term" with
      | none =>
          rw [hfirst] at h
          cases h
      | some value =>
          rw [hfirst] at h
          exact hnamed (by decide) (by decide) hfirst h

variable {schema} {x : IcebergExpr} {case : CaseSensitivity}

theorem plannedAtom_column {node : ColumnNode} {atom : Atom Text x.Datum}
    (h : plannedAtom x schema case node = some atom) : node.column schema = some atom.column := by
  unfold plannedAtom columnAtom at h
  unfold ColumnNode.column
  cases hoperand : node.op.operand node.members with
  | error e =>
      rw [hoperand] at h
      cases h
  | ok operand =>
      rw [hoperand] at h
      simp only [bind, Except.bind] at h
      dsimp only
      cases hresolve : operand.resolve schema with
      | error e =>
          rw [hresolve] at h
          cases h
      | ok column =>
          rw [hresolve] at h
          cases column with
          | none => cases h
          | some name =>
              dsimp only at h ⊢
              cases hfield : fieldNamed schema name case with
              | error e =>
                  rw [hfield] at h
                  cases h
              | ok field =>
                  rw [hfield] at h
                  dsimp only at h
                  cases hatom : node.op.atom x node.kind node.members name field with
                  | error e =>
                      rw [hatom] at h
                      cases h
                  | ok atom' =>
                      rw [hatom] at h
                      obtain rfl := Option.some.inj h
                      exact congrArg some (atom_column x hatom).symm

/-- The predicate a filter is read into reads the names of its live nodes. -/
theorem mem_columns (refs : x.References) (hx : x.Folds) {filter : Json} {p : x.Predicate}
    (hp : parsePolicyPredicate x schema case filter = .ok p) {name : Text} :
    name ∈ refs.columns p ↔ ∃ node ∈ (shapeOf filter).live, node.column schema = some name := by
  have hread := parse_shape x schema case true filter
  rw [← parsePolicyPredicate, hp] at hread
  obtain ⟨f, hf, rfl⟩ := Option.map_eq_some_iff.mp hread.symm
  have hplanned : ∀ node ∈ (shapeOf filter).live, (plannedAtom x schema case node).isSome := by
    intro node hnode
    exact (Formula.traverse_isSome.mp (Option.isSome_iff_exists.mpr ⟨f, hf⟩)).2 node
      ((shapeOf filter).live_subset_atoms hnode)
  rw [refs.columns_build hx, Formula.live_traverse hf, List.mem_toFinset, List.map_filterMap,
    List.mem_filterMap]
  refine exists_congr fun node => and_congr_right fun hnode => ?_
  obtain ⟨atom, hatom⟩ := Option.isSome_iff_exists.mp (hplanned node hnode)
  rw [hatom, plannedAtom_column hatom]
  rfl

variable (schema)

/-- The names that the expressions a filter's constants leave read, each under
its own operator's key. -/
def namesRead (filter : Json) : Finset Text :=
  ((shapeOf filter).live.filterMap (ColumnNode.column schema)).toFinset

/-- The full names of the columns which the schema finds by those. -/
def columnsFound (case : CaseSensitivity) (filter : Json) : Finset Text :=
  ((shapeOf filter).live.filterMap fun node =>
    (node.column schema).bind (schema.columnOf case)).toFinset

/-- A name that the walk takes in and no expression reads there. -/
inductive StrayName (filter : Json) (name : Text) : Prop
  /-- Under a key that the operator passes over. -/
  | unread (node : ColumnNode) (hnode : node ∈ (shapeOf filter).live)
      (hnamed : name ∈ namedColumns schema node.members) (hread : node.column schema ≠ some name)
  /-- In a constant, or in an expression that a constant folds away. -/
  | folded (members : List (Text × Json)) (hmembers : members ∈ leaves filter)
      (hdead : ∀ node ∈ (shapeOf filter).live, node.members ≠ members)
      (hnamed : name ∈ namedColumns schema members)

/-- The filter spells its columns as the schema does, and names no other on the
way. -/
structure SpelledOut (case : CaseSensitivity) (filter : Json) : Prop where
  inFull : namesRead schema filter = columnsFound schema case filter
  noStray : ∀ name, StrayName schema filter name → name ∈ namesRead schema filter

variable {schema}

theorem mem_namesRead {filter : Json} {name : Text} :
    name ∈ namesRead schema filter ↔
      ∃ node ∈ (shapeOf filter).live, node.column schema = some name := by
  rw [namesRead, List.mem_toFinset, List.mem_filterMap]

/-- The walk finds the names that are read and the stray ones. -/
theorem mem_referencedColumns {filter : Json} {name : Text} :
    name ∈ referencedColumns filter schema ↔
      name ∈ namesRead schema filter ∨ StrayName schema filter name := by
  rw [referencedColumns, collectColumns_leaves, List.mem_toFinset, List.mem_flatMap, mem_namesRead]
  constructor
  · rintro ⟨members, hmembers, hname⟩
    by_cases hlive : ∃ node ∈ (shapeOf filter).live, node.members = members
    · obtain ⟨node, hnode, rfl⟩ := hlive
      by_cases hread : node.column schema = some name
      · exact .inl ⟨node, hnode, hread⟩
      · exact .inr (.unread node hnode hname hread)
    · exact .inr (.folded members hmembers (fun node hnode heq => hlive ⟨node, hnode, heq⟩) hname)
  · have hleaf : ∀ node ∈ (shapeOf filter).live, node.members ∈ leaves filter := fun node hnode =>
      members_mem_leaves filter node ((shapeOf filter).live_subset_atoms hnode)
    rintro (⟨node, hnode, hread⟩ | hstray)
    · exact ⟨node.members, hleaf node hnode, ColumnNode.column_mem schema hread⟩
    · cases hstray with
      | unread node hnode hnamed _ => exact ⟨node.members, hleaf node hnode, hnamed⟩
      | folded members hmembers _ hnamed => exact ⟨members, hmembers, hnamed⟩

/-- The names of a predicate are those its filter reads, and it is bound to the
columns found by them. -/
theorem columns_eq (refs : x.References) (hx : x.Folds) {filter : Json} {p : x.Predicate}
    (hp : parsePolicyPredicate x schema case filter = .ok p) :
    refs.columns p = namesRead schema filter ∧
      refs.bound schema case p = columnsFound schema case filter := by
  have hcolumns : refs.columns p = namesRead schema filter := by
    ext name
    rw [mem_columns refs hx hp, mem_namesRead]
  refine ⟨hcolumns, ?_⟩
  ext column
  simp only [IcebergExpr.References.bound, hcolumns, columnsFound, Finset.mem_biUnion,
    mem_namesRead, Option.mem_toFinset, Option.mem_def, List.mem_toFinset, List.mem_filterMap,
    Option.bind_eq_some_iff]
  constructor
  · rintro ⟨name, ⟨node, hnode, hread⟩, hfound⟩
    exact ⟨node, hnode, name, hread, hfound⟩
  · rintro ⟨node, hnode, name, hread, hfound⟩
    exact ⟨name, ⟨node, hnode, hread⟩, hfound⟩

/-- What is reported about a filter's columns is what its predicate tests. -/
def ColumnsExact (columns : Finset Text) (schema : Schema) (filter : Json) : Prop :=
  referencedColumns filter schema = columns ∧ ∀ spec,
    (unalignedColumns filter schema spec = ∅ →
      ∀ name ∈ columns, name ∈ partitionSourceColumns schema spec) ∧
    (unalignedColumns filter schema spec ≠ ∅ →
      ∃ name ∈ columns, name ∉ partitionSourceColumns schema spec)

/-- What is reported follows from the set alone. -/
theorem columnsExact_iff {columns : Finset Text} {filter : Json} :
    ColumnsExact columns schema filter ↔ referencedColumns filter schema = columns := by
  refine ⟨fun h => h.1, fun h => ⟨h, fun spec => ⟨fun hnone name hname => ?_, fun hsome => ?_⟩⟩⟩
  · by_contra hout
    have hmem : name ∈ unalignedColumns filter schema spec :=
      Finset.mem_filter.mpr ⟨h ▸ hname, hout⟩
    rw [hnone] at hmem
    cases hmem
  · obtain ⟨name, hname⟩ := Finset.nonempty_iff_ne_empty.mpr hsome
    obtain ⟨hmem, hout⟩ := Finset.mem_filter.mp hname
    exact ⟨name, h ▸ hmem, hout⟩

/-- The walk finds the columns that the bound predicate tests, and no other, for
the filters that spell out their columns and name no stray one. -/
theorem referencedColumns_iff (x : IcebergExpr) (refs : x.References) (hx : x.Folds)
    (schema : Schema) (case : CaseSensitivity) (filter : Json) (p : x.Predicate)
    (hp : parsePolicyPredicate x schema case filter = .ok p) :
    ColumnsExact (refs.bound schema case p) schema filter ↔ SpelledOut schema case filter := by
  obtain ⟨hcolumns, hbound⟩ := columns_eq refs hx hp
  have hread : namesRead schema filter ⊆ referencedColumns filter schema := fun name hname =>
    mem_referencedColumns.mpr (.inl hname)
  rw [columnsExact_iff]
  constructor
  · intro h
    -- The names read lie among the columns bound, so they are all of them.
    have hinFull : namesRead schema filter = columnsFound schema case filter := by
      rw [← hcolumns, ← hbound]
      exact refs.bound_eq (by rw [hcolumns, ← h]; exact hread)
    refine ⟨hinFull, fun name hstray => ?_⟩
    rw [hinFull, ← hbound, ← h]
    exact mem_referencedColumns.mpr (.inr hstray)
  · rintro ⟨hinFull, hstray⟩
    rw [hbound, ← hinFull]
    refine Finset.Subset.antisymm (fun name hname => ?_) hread
    exact (mem_referencedColumns.mp hname).elim id (hstray name)

end

/-! ## A table with a region -/

namespace PlainPredicate

def columns : PlainPredicate → Finset Text
  | alwaysTrue => ∅
  | alwaysFalse => ∅
  | and left right => left.columns ∪ right.columns
  | or left right => left.columns ∪ right.columns
  | column atom => {atom.column}

theorem columns_negate (p : PlainPredicate) : p.negate.columns = p.columns := by
  induction p with
  | alwaysTrue => rfl
  | alwaysFalse => rfl
  | and left right ihl ihr | or left right ihl ihr => rw [negate, columns, columns, ihl, ihr]
  | column atom =>
      cases atom with
      | unary op name | comparison op name datum | set op name datums => cases op <;> rfl

end PlainPredicate

def plainReferences : IcebergExpr.plain.References where
  columns := PlainPredicate.columns
  constant value := by cases value <;> rfl
  ofAtom atom := rfl
  and p q hp hq := by
    change (PlainPredicate.conj p q).columns = _
    cases p <;> cases q <;>
      simp_all [PlainPredicate.conj, PlainPredicate.columns, IcebergExpr.plain]
  or p q hp hq := by
    change (PlainPredicate.disj p q).columns = _
    cases p <;> cases q <;>
      simp_all [PlainPredicate.disj, PlainPredicate.columns, IcebergExpr.plain]
  negate f := PlainPredicate.columns_negate _

/-- A filter whose nodes all bind is read as its tree. -/
theorem parse_of_shape (x : IcebergExpr) {schema : Schema} {case : CaseSensitivity} {filter : Json}
    (f : Formula (Atom Text x.Datum) Empty)
    (h : (shapeOf filter).traverse (plannedAtom x schema case) = some f) :
    parsePolicyPredicate x schema case filter = .ok (x.build f) := by
  rw [← Except.toOption_eq_some, parsePolicyPredicate, parse_shape, h]
  rfl

theorem leaves_junction {op : Junction} {kind : Text}
    (hkind : FilterKind.ofText kind = .junction op)
    (left right : Json) :
    leaves (.of [("type", .string kind), ("left", left), ("right", right)]) =
      leaves left ++ leaves right := by
  let members := [("type", Json.string kind), ("left", left), ("right", right)]
  obtain ⟨hlt, hleft⟩ := child_fields members "left" left (by simp [members, List.lookup])
  obtain ⟨hlt', hright⟩ := child_fields members "right" right (by simp [members, List.lookup])
  have hkindOf : kindOf (Json.fields members) = .ok kind :=
    kindOf_fields (by simp [members, List.lookup])
  rw [Json.of, leaves, kindOf_eq_ok.mp hkindOf]
  dsimp only
  rw [hkind]
  dsimp only
  rw [hleft, hright]

theorem leaves_column {op : ColumnOp} {kind : Text} {members : List (String × Json)}
    (hkind : FilterKind.ofText kind = .column op)
    (htype : members.lookup "type" = some (.string kind)) :
    leaves (.of members) = [Json.fields members] := by
  rw [Json.of, leaves, kindOf_eq_ok.mp (kindOf_fields htype)]
  dsimp only
  rw [hkind]

/-- `{"type":"eq","left":"region","child":"count","right":"EU"}` -/
def regionAndMore : List (String × Json) :=
  [("type", .str "eq"), ("left", .str "region"), ("child", .str "count"), ("right", .str "EU")]

/-- `{"type":"not-null","term":"count"}` -/
def countKnown : List (String × Json) := [("type", .str "not-null"), ("term", .str "count")]

/-- `{"type":"eq","term":"REGION","value":"EU"}` -/
def upperRegion : List (String × Json) :=
  [("type", .str "eq"), ("term", .str "REGION"), ("value", .str "EU")]

theorem kind_eq : FilterKind.ofText "eq".toList = .column (.comparison .eq) := by decide

theorem kind_notNull : FilterKind.ofText "not-null".toList = .column (.unary .notNull) := by decide

theorem kind_and : FilterKind.ofText "and".toList = .junction .and := by decide

/-- Both filters in one. -/
def regionAndCount : Json :=
  .of [("type", .string "and".toList), ("left", .of regionAndMore), ("right", .of countKnown)]

theorem shapeOf_regionAndCount :
    shapeOf regionAndCount = .and (.atom ⟨.comparison .eq, "eq".toList, Json.fields regionAndMore⟩)
      (.atom ⟨.unary .notNull, "not-null".toList, Json.fields countKnown⟩) := by
  rw [regionAndCount, shapeOf_junction kind_and, shapeOf_column kind_eq rfl,
    shapeOf_column kind_notNull rfl]
  rfl

theorem leaves_regionAndCount :
    leaves regionAndCount = [Json.fields regionAndMore, Json.fields countKnown] := by
  rw [regionAndCount, leaves_junction kind_and, leaves_column kind_eq rfl,
    leaves_column kind_notNull rfl]
  rfl

/-- The one expression names `count` under a key that it passes over, the other
reads it. -/
theorem referencedColumns_regionAndCount :
    ColumnsExact (plainReferences.bound regions .insensitive
        (.and (.column (.comparison .eq "region".toList (.text "EU".toList)))
          (.column (.unary .notNull "count".toList)))) regions regionAndCount := by
  have hparse : parsePolicyPredicate IcebergExpr.plain regions .insensitive regionAndCount =
      .ok (.and (.column (.comparison .eq "region".toList (.text "EU".toList)))
        (.column (.unary .notNull "count".toList))) :=
    parse_of_shape IcebergExpr.plain (.and (.atom (.comparison .eq "region".toList
      (PlainDatum.text "EU".toList))) (.atom (.unary .notNull "count".toList)))
      (by rw [shapeOf_regionAndCount]; rfl)
  have hlive : (shapeOf regionAndCount).live =
      [⟨.comparison .eq, "eq".toList, Json.fields regionAndMore⟩,
        ⟨.unary .notNull, "not-null".toList, Json.fields countKnown⟩] := by
    rw [shapeOf_regionAndCount]
    rfl
  have hread : namesRead regions regionAndCount = {"region".toList, "count".toList} := by
    rw [namesRead, hlive]
    decide
  refine (referencedColumns_iff IcebergExpr.plain plainReferences plain_folds regions .insensitive
    regionAndCount _ hparse).mpr ⟨?_, fun name hstray => ?_⟩
  · rw [hread, columnsFound, hlive]
    decide
  · rw [hread]
    cases hstray with
    | unread node hnode hnamed hother =>
        rw [hlive] at hnode
        fin_cases hnode <;> fin_cases hnamed <;> decide
    | folded members hmembers hdead hnamed =>
        rw [leaves_regionAndCount] at hmembers
        rw [hlive] at hdead
        fin_cases hmembers
        · exact absurd rfl (hdead _ (List.mem_cons_self ..))
        · exact absurd rfl (hdead _ (List.mem_cons_of_mem _ (List.mem_cons_self ..)))

/-- A name under a key that is not read, and a name in another letter case: each
filter tests the partition column alone, and is reported as unaligned. -/
theorem columns_misreported :
    (∃ p, parsePolicyPredicate IcebergExpr.plain regions .sensitive (.of regionAndMore) = .ok p ∧
      plainReferences.bound regions .sensitive p = {"region".toList} ∧
      referencedColumns (.of regionAndMore) regions = {"region".toList, "count".toList} ∧
      unalignedColumns (.of regionAndMore) regions [⟨⟨1⟩, .identity⟩] = {"count".toList}) ∧
    ∃ p, parsePolicyPredicate IcebergExpr.plain regions .insensitive (.of upperRegion) = .ok p ∧
      plainReferences.bound regions .insensitive p = {"region".toList} ∧
      referencedColumns (.of upperRegion) regions = {"REGION".toList} ∧
      unalignedColumns (.of upperRegion) regions [⟨⟨1⟩, .identity⟩] = {"REGION".toList} := by
  have hmore : referencedColumns (.of regionAndMore) regions =
      {"region".toList, "count".toList} := by
    rw [referencedColumns, collectColumns_leaves, leaves_column kind_eq rfl]
    decide
  have hupper : referencedColumns (.of upperRegion) regions = {"REGION".toList} := by
    rw [referencedColumns, collectColumns_leaves, leaves_column kind_eq rfl]
    decide
  refine ⟨⟨_, parse_of_shape IcebergExpr.plain (.atom (.comparison .eq "region".toList
      (PlainDatum.text "EU".toList))) ?_, by decide, hmore, ?_⟩,
    _, parse_of_shape IcebergExpr.plain (.atom (.comparison .eq "REGION".toList
      (PlainDatum.text "EU".toList))) ?_, by decide, hupper, ?_⟩
  · rw [shapeOf_column kind_eq rfl]
    rfl
  · rw [unalignedColumns, hmore]
    decide
  · rw [shapeOf_column kind_eq rfl]
    rfl
  · rw [unalignedColumns, hupper]
    decide

end Rustberg.Query
