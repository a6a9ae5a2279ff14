import Rustberg.Base.Result
import Rustberg.Query.Restrictions
import Rustberg.Query.Widening

/-!
# Whether the published and the enforced row filter agree

Both are made of the same JSON. `shapeOf` is its tree, its nodes on one
column as atoms and its malformed nodes as holes; planning and publishing
each read the atoms in their own way, and the published predicate is read
back by the same grammar.

`restrictions_agree` says when the two select the same rows, and when one
is the constant false exactly where the other is. They part on a column
reference that the two resolve differently, on a literal that only one of
them types, and on constants that only planning folds.
-/

namespace Rustberg.Query

open Auth Logic

/-- A node on one column. -/
structure ColumnNode where
  op : ColumnOp
  kind : Text
  members : List (Text × Json)

/-- The tree of a filter; a hole is a node neither reader can use. -/
def shapeOf : Json → Formula ColumnNode Unit
  | .bool value => .const value
  | .object members =>
      match kindOf members with
      | .error _ => .hole ()
      | .ok kind =>
          match FilterKind.ofText kind with
          | .constant value => .const value
          | .junction op =>
              match child members "left", child members "right" with
              | .ok ⟨left, _⟩, .ok ⟨right, _⟩ => op.join (shapeOf left) (shapeOf right)
              | _, _ => .hole ()
          | .not =>
              match child members "child" with
              | .ok ⟨value, _⟩ => .not (shapeOf value)
              | .error _ => .hole ()
          | .column op => .atom ⟨op, kind, members⟩
          | .other => .hole ()
  | _ => .hole ()
termination_by json => sizeOf json

section

variable (x : IcebergExpr) (schema : Schema) (case : CaseSensitivity)

/-- What planning makes of a node. -/
def plannedAtom (node : ColumnNode) : Option (Atom Text x.Datum) :=
  match columnAtom x schema case node.op node.kind node.members with
  | .ok atom => atom
  | .error _ => none

/-- What a node is published as. -/
def publishedNode (node : ColumnNode) : Option ColumnNode :=
  match toIdColumn schema node.op node.kind node.members with
  | .ok (.object members) => some ⟨node.op, node.kind, members⟩
  | _ => none

theorem traverse_join {A B H K : Type} {g : A → Option B} {op : Junction}
    {left right : Formula A H} :
    ((op.join left right).traverse g : Option (Formula B K)) =
      (left.traverse g).bind fun l => (right.traverse g).map (op.join l) := by
  cases op <;> rw [Junction.join, Formula.traverse] <;>
    cases (left.traverse g : Option (Formula B K)) <;>
      cases (right.traverse g : Option (Formula B K)) <;> rfl

theorem map_build_join (op : Junction) (left right : Option (Formula (Atom Text x.Datum) Empty)) :
    (left.bind fun l => right.map (op.join l)).map x.build =
      (left.map x.build).bind fun p => (right.map x.build).map (x.junction op p) := by
  cases left <;> cases right <;> simp [build_join]

theorem map_build_not (child : Option (Formula (Atom Text x.Datum) Empty)) :
    child.map (x.build ∘ .not) = (child.map x.build).map x.negate := by
  cases child <;> rfl

/-- Planning reads the tree atom by atom. -/
theorem parse_shape (positive : Bool) : (json : Json) →
    (parseWithPolarity x schema case .bindable positive json).toOption =
      ((shapeOf json).traverse (plannedAtom x schema case)).map x.build
  | .bool value => by
      rw [parseWithPolarity, shapeOf]
      rfl
  | .null | .number _ | .string _ | .array _ => by
      simp only [parseWithPolarity, shapeOf]
      rfl
  | .object members => by
      rw [parseWithPolarity, shapeOf]
      cases kindOf members with
      | error e => rfl
      | ok kind =>
          simp only [bind, Except.bind]
          cases FilterKind.ofText kind with
          | constant value => rfl
          | junction op =>
              dsimp only
              cases child members "left" with
              | error e => rfl
              | ok left =>
                  obtain ⟨left, hleft⟩ := left
                  have ihl := parse_shape positive left
                  cases child members "right" with
                  | error e =>
                      dsimp only
                      cases parseWithPolarity x schema case .bindable positive left <;> rfl
                  | ok right =>
                      obtain ⟨right, hright⟩ := right
                      have ihr := parse_shape positive right
                      dsimp only
                      rw [traverse_join, map_build_join, ← ihl, ← ihr]
                      cases parseWithPolarity x schema case .bindable positive left with
                      | error e => rfl
                      | ok l =>
                          cases parseWithPolarity x schema case .bindable positive right <;> rfl
          | not =>
              dsimp only
              cases child members "child" with
              | error e => rfl
              | ok value =>
                  obtain ⟨value, hlt⟩ := value
                  have ih := parse_shape (!positive) value
                  dsimp only
                  rw [Formula.traverse, Option.map_map, map_build_not, ← ih]
                  cases parseWithPolarity x schema case .bindable (!positive) value <;> rfl
          | column op =>
              dsimp only
              rw [Formula.traverse, plannedAtom]
              dsimp only
              rcases columnAtom x schema case op kind members with e | _ | atom <;> rfl
          | other => rfl
termination_by json => sizeOf json

/-! ## The published tree -/

theorem kindOf_eq_ok {members : List (Text × Json)} {kind : Text} :
    kindOf members = .ok kind ↔ (Json.get members "type".toList).bind Json.asStr = some kind := by
  unfold kindOf
  split
  · next h => rw [h, Option.some.injEq, Except.ok.injEq]
  · next h =>
      rw [h]
      exact iff_of_false (fun h => by cases h) (fun h => by cases h)

theorem child_of_get {members : List (Text × Json)} {name : String} {value : Json}
    (h : Json.get members name.toList = some value) :
    ∃ hlt, child members name = .ok ⟨value, hlt⟩ := by
  refine ⟨Json.sizeOf_get h, ?_⟩
  unfold child
  split
  · next value' h' =>
      obtain rfl := Option.some.inj (h.symm.trans h')
      rfl
  · next h' =>
      rw [h] at h'
      cases h'

theorem branch_of_get {members : List (Text × Json)} {name : String} {value : Json}
    (h : Json.get members name.toList = some value) :
    branch members name = .ok ⟨value, Json.sizeOf_get h⟩ := by
  unfold branch
  split
  · next value' h' =>
      obtain rfl := Option.some.inj (h.symm.trans h')
      rfl
  · next h' =>
      rw [h] at h'
      cases h'

theorem child_of_get_none {members : List (Text × Json)} {name : String}
    (h : Json.get members name.toList = none) : ∃ e, child members name = .error e := by
  unfold child
  split
  · next value h' =>
      rw [h] at h'
      cases h'
  · exact ⟨_, rfl⟩

theorem branch_of_get_none {members : List (Text × Json)} {name : String}
    (h : Json.get members name.toList = none) : ∃ e, branch members name = .error e := by
  unfold branch
  split
  · next value h' =>
      rw [h] at h'
      cases h'
  · exact ⟨_, rfl⟩

/-- The two readers find the same children. -/
theorem branch_cases (members : List (Text × Json)) (name : String) :
    (∃ value, child members name = .ok value ∧ branch members name = .ok value) ∨
      (∃ e, child members name = .error e) ∧ ∃ e, branch members name = .error e := by
  cases h : Json.get members name.toList with
  | some value =>
      obtain ⟨hlt, hchild⟩ := child_of_get h
      exact Or.inl ⟨_, hchild, branch_of_get h⟩
  | none => exact Or.inr ⟨child_of_get_none h, branch_of_get_none h⟩

theorem kindOf_fields {members : List (String × Json)} {kind : Text}
    (h : members.lookup "type" = some (.string kind)) :
    kindOf (Json.fields members) = .ok kind := by
  rw [kindOf_eq_ok, Json.get_fields, h]
  rfl

theorem child_fields (members : List (String × Json)) (name : String) (value : Json)
    (h : members.lookup name = some value) :
    ∃ hlt, child (Json.fields members) name = .ok ⟨value, hlt⟩ :=
  child_of_get ((Json.get_fields members name).trans h)

theorem shapeOf_junction {op : Junction} {kind : Text}
    (hkind : FilterKind.ofText kind = .junction op)
    (left right : Json) :
    shapeOf (.of [("type", .string kind), ("left", left), ("right", right)]) =
      op.join (shapeOf left) (shapeOf right) := by
  let members := [("type", Json.string kind), ("left", left), ("right", right)]
  obtain ⟨hlt, hleft⟩ := child_fields members "left" left (by simp [members, List.lookup])
  obtain ⟨hlt', hright⟩ := child_fields members "right" right (by simp [members, List.lookup])
  have hkindOf : kindOf (Json.fields members) = .ok kind :=
    kindOf_fields (by simp [members, List.lookup])
  rw [Json.of, shapeOf, hkindOf]
  dsimp only
  rw [hkind, hleft, hright]

theorem shapeOf_not (value : Json) :
    shapeOf (.of [("type", .str "not"), ("child", value)]) = .not (shapeOf value) := by
  let members := [("type", Json.str "not"), ("child", value)]
  obtain ⟨hlt, hchild⟩ := child_fields members "child" value (by simp [members, List.lookup])
  have hkindOf : kindOf (Json.fields members) = .ok "not".toList :=
    kindOf_fields (by simp [members, List.lookup, Json.str])
  rw [Json.of, shapeOf, hkindOf]
  dsimp only
  rw [show FilterKind.ofText "not".toList = .not from by decide, hchild]

theorem shapeOf_column {op : ColumnOp} {kind : Text} {members : List (String × Json)}
    (hkind : FilterKind.ofText kind = .column op)
    (htype : members.lookup "type" = some (.string kind)) :
    shapeOf (.of members) = .atom ⟨op, kind, Json.fields members⟩ := by
  rw [Json.of, shapeOf, kindOf_fields htype]
  dsimp only
  rw [hkind]

/-! ### One column -/

/-- The operand of an expression on one column. -/
def ColumnOp.operandJson (members : List (Text × Json)) : ColumnOp → Option Json
  | .unary _ => firstOf members "child" "term"
  | .comparison _ => firstOf members "left" "term"
  | .set _ => firstOf members "child" "term"

/-- Whether the literals an operator needs are there at all. -/
def ColumnOp.hasValue (members : List (Text × Json)) : ColumnOp → Bool
  | .unary _ => true
  | .comparison _ => (firstOf members "right" "value").isSome
  | .set _ => (Json.get members "values".toList).isSome

/-- The members of a published node on the field `id`. -/
def ColumnOp.publish (kind : Text) (members : List (Text × Json)) (id : Int32) :
    ColumnOp → List (String × Json)
  | .unary _ => [("type", .string kind), ("child", referenceTo id)]
  | .comparison _ => [("type", .string kind), ("left", referenceTo id),
      ("right", asLiteral ((firstOf members "right" "value").getD .null))]
  | .set _ => [("type", .string kind), ("child", referenceTo id),
      ("values", (Json.get members "values".toList).getD .null)]

theorem lookup_publish_type (op : ColumnOp) (kind : Text) (members : List (Text × Json))
    (id : Int32) : (op.publish kind members id).lookup "type" = some (.string kind) := by
  cases op <;> simp [ColumnOp.publish]

theorem fieldById_idOfName {name : Text} {id : Int32} (h : idOfName schema name = .ok id) :
    ∃ field, schema.fieldById id = some field := by
  unfold idOfName at h
  split at h
  · next id' hid =>
      obtain rfl := Except.ok.inj h
      rcases Option.or_eq_some_iff.mp hid with hname | ⟨-, hname⟩
      · obtain ⟨field, hfield, rfl⟩ := Option.map_eq_some_iff.mp hname
        exact ⟨field, schema.fieldById_fieldByName name field hfield⟩
      · obtain ⟨field, hfield, rfl⟩ := Option.map_eq_some_iff.mp hname
        exact ⟨field, schema.fieldById_fieldByNameCaseInsensitive name field hfield⟩
  · cases h

/-- A reference that is published names a field of the schema. -/
theorem fieldById_referencedId {value : Json} {id : Int32}
    (h : referencedId schema value = .ok id) :
    ∃ field, schema.fieldById id = some field := by
  unfold referencedId at h
  split at h
  · exact fieldById_idOfName schema h
  · split at h
    · split at h
      · split at h
        · cases h
        · split at h
          · cases h
          · next hsome =>
              obtain rfl := Except.ok.inj h
              exact Option.ne_none_iff_exists'.mp (by simpa using hsome)
      · split at h
        · exact fieldById_idOfName schema h
        · cases h
    · cases h
  · cases h

/-- The field an operand is published for. -/
def operandField (operand : Option Json) : Option NestedField :=
  operand.bind fun operand =>
    match referencedId schema operand with
    | .ok id => schema.fieldById id
    | .error _ => none

/-- The field a node is published for. -/
def publishedField (node : ColumnNode) : Option NestedField :=
  operandField schema (node.op.operandJson node.members)

theorem reference_cases (members : List (Text × Json)) (key key' : String) :
    (∃ e, (operand members key key' >>= idReference schema) = .error e) ∧
        operandField schema (firstOf members key key') = none ∨
      ∃ field, operandField schema (firstOf members key key') = some field ∧
        (operand members key key' >>= idReference schema) = .ok (referenceTo field.id) := by
  unfold operand
  cases firstOf members key key' with
  | none => exact Or.inl ⟨⟨_, rfl⟩, rfl⟩
  | some value =>
      change (∃ e, (referencedId schema value >>= _) = _) ∧ _ ∨ _
      cases hid : referencedId schema value with
      | error e => exact Or.inl ⟨⟨e, rfl⟩, by rw [operandField, Option.bind_some, hid]⟩
      | ok id =>
          obtain ⟨field, hfield⟩ := fieldById_referencedId schema hid
          refine Or.inr ⟨field, by rw [operandField, Option.bind_some, hid]; exact hfield, ?_⟩
          change (referencedId schema value >>= _) = _
          rw [hid, schema.fieldById_id id field hfield]
          rfl

/-- When a node is published, and as what. -/
theorem toIdColumn_cases (node : ColumnNode) :
    (∃ e, toIdColumn schema node.op node.kind node.members = .error e) ∧
        (publishedField schema node = none ∨ node.op.hasValue node.members = false) ∨
      ∃ field, publishedField schema node = some field ∧ node.op.hasValue node.members = true ∧
        toIdColumn schema node.op node.kind node.members =
          .ok (.of (node.op.publish node.kind node.members field.id)) := by
  obtain ⟨op, kind, members⟩ := node
  unfold publishedField
  cases op with
  | unary op =>
      rw [toIdColumn, ← bind_assoc]
      dsimp only [ColumnOp.operandJson]
      rcases reference_cases schema members "child" "term" with
        ⟨⟨e, he⟩, hnone⟩ | ⟨field, hfield, h⟩
      · rw [he]
        exact Or.inl ⟨⟨e, rfl⟩, Or.inl hnone⟩
      · rw [h]
        exact Or.inr ⟨field, hfield, rfl, rfl⟩
  | comparison op =>
      rw [toIdColumn, ← bind_assoc]
      dsimp only [ColumnOp.operandJson, ColumnOp.hasValue, ColumnOp.publish]
      rcases reference_cases schema members "left" "term" with ⟨⟨e, he⟩, hnone⟩ | ⟨field, hfield, h⟩
      · rw [he]
        exact Or.inl ⟨⟨e, rfl⟩, Or.inl hnone⟩
      · rw [h]
        cases firstOf members "right" "value" with
        | none => exact Or.inl ⟨⟨_, rfl⟩, Or.inr rfl⟩
        | some right => exact Or.inr ⟨field, hfield, rfl, rfl⟩
  | set op =>
      rw [toIdColumn, ← bind_assoc]
      dsimp only [ColumnOp.operandJson, ColumnOp.hasValue, ColumnOp.publish]
      rcases reference_cases schema members "child" "term" with
        ⟨⟨e, he⟩, hnone⟩ | ⟨field, hfield, h⟩
      · rw [he]
        exact Or.inl ⟨⟨e, rfl⟩, Or.inl hnone⟩
      · rw [h]
        cases Json.get members "values".toList with
        | none => exact Or.inl ⟨⟨_, rfl⟩, Or.inr rfl⟩
        | some values => exact Or.inr ⟨field, hfield, rfl, rfl⟩

/-- Publishing reads the tree atom by atom. -/
theorem toIdPredicate_shape : (json : Json) →
    (toIdPredicate schema json).toOption.map shapeOf =
      (shapeOf json).traverse (publishedNode schema)
  | .bool value => by
      rw [toIdPredicate]
      change some (shapeOf (.bool value)) = _
      rw [shapeOf]
      rfl
  | .null | .number _ | .string _ | .array _ => by
      simp only [toIdPredicate, shapeOf]
      rfl
  | .object members => by
      rw [toIdPredicate, shapeOf]
      cases hkind : kindOf members with
      | error e =>
          have hnone : (Json.get members "type".toList).bind Json.asStr = none := by
            rw [Option.eq_none_iff_forall_ne_some]
            intro kind hsome
            rw [kindOf_eq_ok.mpr hsome] at hkind
            cases hkind
          rw [hnone]
          rfl
      | ok kind =>
          rw [kindOf_eq_ok.mp hkind]
          dsimp only
          cases hof : FilterKind.ofText kind with
          | constant value =>
              change some (shapeOf (.bool value)) = _
              rw [shapeOf]
              rfl
          | junction op =>
              dsimp only
              rcases branch_cases members "left" with ⟨left, hleft, hleft'⟩ | ⟨⟨e, he⟩, e', he'⟩
              · obtain ⟨left, hlt⟩ := left
                have ihl := toIdPredicate_shape left
                rcases branch_cases members "right" with
                  ⟨right, hright, hright'⟩ | ⟨⟨e, he⟩, e', he'⟩
                · obtain ⟨right, hlt'⟩ := right
                  have ihr := toIdPredicate_shape right
                  rw [hleft, hright, hleft', hright']
                  dsimp only [bind, Except.bind]
                  rw [traverse_join, ← ihl, ← ihr]
                  cases toIdPredicate schema left with
                  | error e => rfl
                  | ok l =>
                      cases toIdPredicate schema right with
                      | error e => rfl
                      | ok r => exact congrArg some (shapeOf_junction hof l r)
                · rw [hleft, he, hleft', he']
                  dsimp only [bind, Except.bind]
                  cases toIdPredicate schema left <;> rfl
              · rw [he, he']
                rfl
          | not =>
              dsimp only
              rcases branch_cases members "child" with ⟨value, hvalue, hvalue'⟩ | ⟨⟨e, he⟩, e', he'⟩
              · obtain ⟨value, hlt⟩ := value
                have ih := toIdPredicate_shape value
                rw [hvalue, hvalue']
                dsimp only [bind, Except.bind]
                rw [Formula.traverse, ← ih]
                cases toIdPredicate schema value with
                | error e => rfl
                | ok v => exact congrArg some (shapeOf_not v)
              · rw [he, he']
                rfl
          | column op =>
              dsimp only
              rw [Formula.traverse, publishedNode]
              dsimp only
              rcases toIdColumn_cases schema ⟨op, kind, members⟩ with
                ⟨⟨e, he⟩, -⟩ | ⟨field, -, -, h⟩
              · rw [he]
                rfl
              · rw [h]
                exact congrArg some (shapeOf_column hof (lookup_publish_type ..))
          | other => rfl
termination_by json => sizeOf json

/-! ### Reading a published column back -/

/-- The field a node is bound to. -/
def enforcedField (node : ColumnNode) : Option NestedField :=
  match node.op.operand node.members with
  | .ok operand =>
      match operand.resolve schema with
      | .ok (some name) => schema.lookup case name
      | _ => none
  | .error _ => none

/-- The node's literals are there, and are of the field's type. -/
def Fits (node : ColumnNode) (field : NestedField) : Prop :=
  ∃ atom, node.op.atom x node.kind node.members [] field = .ok atom

theorem atom_on (op : ColumnOp) (kind : Text) (members : List (Text × Json)) (name name' : Text)
    (field : NestedField) :
    op.atom x kind members name field =
      (op.atom x kind members name' field).map (Atom.on name) := by
  unfold ColumnOp.atom
  cases op with
  | unary op =>
      dsimp only
      cases checkNan op kind field <;> rfl
  | comparison op =>
      dsimp only
      cases firstOf members "right" "value" with
      | none => rfl
      | some value =>
          dsimp only
          cases parseLiteral x value field <;> rfl
  | set op =>
      dsimp only
      cases Json.get members "values".toList with
      | none => rfl
      | some values =>
          dsimp only
          cases parseLiterals x values field <;> rfl

/-- When planning can bind a node, and what it then makes of it. -/
theorem plannedAtom_cases (node : ColumnNode) :
    plannedAtom x schema case node = none ∧
        (∀ field, enforcedField schema case node = some field → ¬ Fits x node field) ∨
      ∃ field name atom, enforcedField schema case node = some field ∧ Fits x node field ∧
        schema.lookup case name = some field ∧
        node.op.atom x node.kind node.members name field = .ok atom ∧
        plannedAtom x schema case node = some atom := by
  unfold plannedAtom columnAtom enforcedField
  rcases node.op.operand node.members with e | operand
  · exact Or.inl ⟨rfl, fun field h => by cases h⟩
  · simp only [bind, Except.bind]
    rcases operand.resolve schema with e | _ | name
    · exact Or.inl ⟨rfl, fun field h => by cases h⟩
    · exact Or.inl ⟨rfl, fun field h => by cases h⟩
    · dsimp only
      unfold fieldNamed
      cases hfield : schema.lookup case name with
      | none => exact Or.inl ⟨rfl, fun field h => by cases h⟩
      | some field =>
          dsimp only
          cases hatom : node.op.atom x node.kind node.members name field with
          | error e =>
              refine Or.inl ⟨rfl, fun field' hfield' hfits => ?_⟩
              obtain rfl := Option.some.inj hfield'
              obtain ⟨atom, hfits⟩ := hfits
              rw [atom_on x _ _ _ _ [], hfits] at hatom
              cases hatom
          | ok atom =>
              refine Or.inr ⟨field, name, atom, rfl, ?_, hfield, hatom, rfl⟩
              rw [atom_on x _ _ _ _ []] at hatom
              unfold Fits
              cases hfits : node.op.atom x node.kind node.members [] field with
              | error e =>
                  rw [hfits] at hatom
                  cases hatom
              | ok atom => exact ⟨atom, rfl⟩

theorem toI32_toInt (n : Int32) : toI32 n.toInt = some n := by
  have hlower := n.le_toInt
  have hupper := n.toInt_lt
  rw [toI32, if_pos (by omega), Int32.ofInt_toInt]

theorem hasType_fields (members : List (String × Json)) (kind kind' : String)
    (h : members.lookup "type" = some (.str kind)) :
    hasType (Json.fields members) kind' = (kind == kind') := by
  rw [hasType, Json.get_fields, h]
  by_cases hkind : kind = kind'
  · simp [hkind, Json.str, Json.asStr]
  · have hne : kind.toList ≠ kind'.toList := fun h => hkind (String.toList_inj.mp h)
    simp [hkind, hne, Json.str, Json.asStr]

/-- An id reference is read back as that id. -/
theorem referenceOperand_referenceTo (id : Int32) :
    referenceOperand (referenceTo id) = .ok (.id id) := by
  rw [referenceTo, Json.of, referenceOperand, hasType_fields _ "reference" "reference" rfl,
    Json.get_fields, Json.get_fields]
  simp [List.lookup, Json.asI64_ofInt32, toI32_toInt]

theorem operand_publish (op : ColumnOp) (kind : Text) (members : List (Text × Json)) (id : Int32) :
    op.operand (Json.fields (op.publish kind members id)) = .ok (.id id) := by
  cases op with
  | unary op =>
      rw [ColumnOp.operand, operandOf, firstOf, Json.get_fields]
      simp [ColumnOp.publish, List.lookup, referenceOperand_referenceTo]
  | comparison op =>
      rw [ColumnOp.operand, comparisonOperandOf, firstOf, Json.get_fields]
      simp [ColumnOp.publish, List.lookup, referenceOperand_referenceTo]
  | set op =>
      rw [ColumnOp.operand, operandOf, firstOf, Json.get_fields]
      simp [ColumnOp.publish, List.lookup, referenceOperand_referenceTo]

/-- A literal is typed alike in its bare and in its published form. -/
theorem parseLiteral_asLiteral (value : Json) (field : NestedField) :
    parseLiteral x (asLiteral value) field = parseLiteral x value field := by
  let wrapped := [("type", Json.str "literal"), ("value", value)]
  have hwrapped : parseLiteral x (.of wrapped) field =
      primitiveType field >>= fun primitive => datumFromJson x value primitive := by
    have htype : hasType (Json.fields wrapped) "literal" = true :=
      hasType_fields wrapped "literal" "literal" rfl
    unfold parseLiteral Json.of
    simp only [htype, if_true, Json.get_fields]
    rfl
  unfold asLiteral
  split
  · next members =>
      split
      · rfl
      · next htype =>
          rw [hwrapped, parseLiteral]
          simp only [Bool.not_eq_true _ ▸ htype, Bool.false_eq_true, if_false]
  · next hobject =>
      rw [hwrapped, parseLiteral]
      cases value with
      | object members => exact absurd rfl (hobject members)
      | _ => rfl

theorem atom_publish {op : ColumnOp} {members : List (Text × Json)} (hvalue : op.hasValue members)
    (kind : Text) (id : Int32) (name : Text) (field : NestedField) :
    op.atom x kind (Json.fields (op.publish kind members id)) name field =
      op.atom x kind members name field := by
  cases op with
  | unary op => rfl
  | comparison op =>
      obtain ⟨value, h⟩ := Option.isSome_iff_exists.mp hvalue
      have hget : firstOf (Json.fields ((ColumnOp.comparison op).publish kind members id))
          "right" "value" = some (asLiteral value) := by
        rw [firstOf, Json.get_fields, ColumnOp.publish, h]
        rfl
      unfold ColumnOp.atom
      dsimp only
      rw [hget, h]
      dsimp only
      rw [parseLiteral_asLiteral]
  | set op =>
      obtain ⟨values, h⟩ := Option.isSome_iff_exists.mp hvalue
      have hget : Json.get (Json.fields ((ColumnOp.set op).publish kind members id))
          "values".toList = some values := by
        rw [Json.get_fields, ColumnOp.publish, h]
        rfl
      unfold ColumnOp.atom
      dsimp only
      rw [hget, h]

theorem hasValue_of_fits {node : ColumnNode} {field : NestedField} (h : Fits x node field) :
    node.op.hasValue node.members = true := by
  obtain ⟨op, kind, members⟩ := node
  obtain ⟨atom, h⟩ := h
  unfold ColumnOp.atom at h
  cases op with
  | unary op => rfl
  | comparison op =>
      dsimp only at h
      split at h
      · cases h
      · next hvalue => exact congrArg Option.isSome hvalue
  | set op =>
      dsimp only at h
      split at h
      · cases h
      · next hvalues => exact congrArg Option.isSome hvalues

/-- A node as its published form is read. -/
def rereadNode (node : ColumnNode) : Option (Atom Text x.Datum) :=
  (publishedNode schema node).bind (plannedAtom x schema .sensitive)

theorem rereadNode_def :
    rereadNode x schema = fun node =>
      (publishedNode schema node).bind (plannedAtom x schema .sensitive) := rfl

/-- What is published for a field is bound to that field again. -/
theorem rereadNode_eq {node : ColumnNode} {field : NestedField}
    (hfield : publishedField schema node = some field)
    (hvalue : node.op.hasValue node.members = true) :
    ∃ name, schema.lookup .sensitive name = some field ∧
      rereadNode x schema node = (node.op.atom x node.kind node.members name field).toOption := by
  rcases toIdColumn_cases schema node with ⟨-, hnone | hnone⟩ | ⟨field', hfield', -, h⟩
  · rw [hfield] at hnone
    cases hnone
  · rw [hvalue] at hnone
    cases hnone
  · obtain rfl := Option.some.inj (hfield.symm.trans hfield')
    have hindexed : schema.fieldById field.id = some field := by
      obtain ⟨operand, -, h⟩ := Option.bind_eq_some_iff.mp hfield
      split at h
      · next id _ =>
          rw [schema.fieldById_id id field h]
          exact h
      · cases h
    obtain ⟨name, hname⟩ : ∃ name, schema.nameByFieldId field.id = some name := by
      rw [← Option.isSome_iff_exists, schema.nameByFieldId_isSome, hindexed]
      rfl
    have hlookup : schema.lookup .sensitive name = some field :=
      (schema.fieldByName_nameByFieldId field.id name hname).trans hindexed
    refine ⟨name, hlookup, ?_⟩
    rw [rereadNode, publishedNode, h, Json.of]
    dsimp only
    rw [Option.bind_some, plannedAtom, columnAtom]
    dsimp only
    rw [operand_publish]
    simp only [bind, Except.bind, Operand.resolve, hname, fieldNamed, hlookup]
    rw [atom_publish x hvalue]
    cases node.op.atom x node.kind node.members name field <;> rfl

/-! ## Where the two agree -/

/-- Both bind the node to one field, of which its literals are. -/
def Alike (node : ColumnNode) : Prop :=
  ∃ field, enforcedField schema case node = some field ∧ publishedField schema node = some field ∧
    Fits x node field

/-- Planning cannot bind some part of the filter. -/
def RefusedByPlan (filter : Json) : Prop :=
  ¬ (shapeOf filter).Holeless ∨ ∃ node ∈ (shapeOf filter).atoms,
    ∀ field, enforcedField schema case node = some field → ¬ Fits x node field

/-- Some part of the filter has no published form. -/
def RefusedByPublishing (filter : Json) : Prop :=
  ¬ (shapeOf filter).Holeless ∨ ∃ node ∈ (shapeOf filter).atoms,
    publishedField schema node = none ∨ node.op.hasValue node.members = false

/-- Both refuse the filter, or both read each of its nodes alike. -/
def Faithful (filter : Json) : Prop :=
  RefusedByPlan x schema case filter ∧ RefusedByPublishing schema filter ∨
    (shapeOf filter).Holeless ∧ ∀ node ∈ (shapeOf filter).atoms, Alike x schema case node

theorem plannedAtom_isSome {node : ColumnNode} :
    (plannedAtom x schema case node).isSome ↔
      ¬ ∀ field, enforcedField schema case node = some field → ¬ Fits x node field := by
  rcases plannedAtom_cases x schema case node with
    ⟨hnone, h⟩ | ⟨field, _, _, hfield, hfits, -, -, hsome⟩
  · exact iff_of_false (by rw [hnone]; exact Bool.false_ne_true) (not_not_intro h)
  · exact iff_of_true (by rw [hsome]; rfl) fun h => h field hfield hfits

theorem publishedNode_isSome {node : ColumnNode} :
    (publishedNode schema node).isSome ↔
      ¬ (publishedField schema node = none ∨ node.op.hasValue node.members = false) := by
  unfold publishedNode
  rcases toIdColumn_cases schema node with ⟨⟨e, he⟩, h⟩ | ⟨field, hfield, hvalue, hsome⟩
  · exact iff_of_false (by rw [he]; exact Bool.false_ne_true) (not_not_intro h)
  · refine iff_of_true (by rw [hsome]; rfl) ?_
    rw [hfield, hvalue]
    exact fun h => h.elim (fun h => by cases h) (fun h => by cases h)

/-- A filter is refused exactly where one of its parts is. -/
theorem traverse_eq_none {A B H K : Type} {g : A → Option B} {f : Formula A H} {P : A → Prop}
    (hg : ∀ a, (g a).isSome ↔ ¬ P a) :
    (f.traverse g : Option (Formula B K)) = none ↔ ¬ f.Holeless ∨ ∃ a ∈ f.atoms, P a := by
  rw [← Option.not_isSome_iff_eq_none, Formula.traverse_isSome, not_and_or]
  simp only [hg, not_forall, not_not, exists_prop]

theorem parse_error_iff {filter : Json} :
    (∃ e, parsePolicyPredicate x schema case filter = .error e) ↔
      RefusedByPlan x schema case filter := by
  rw [← Except.toOption_eq_none, parsePolicyPredicate, parse_shape, Option.map_eq_none_iff]
  exact traverse_eq_none fun node => plannedAtom_isSome x schema case

theorem publish_error_iff {filter : Json} :
    (∃ e, toIdPredicate schema filter = .error e) ↔ RefusedByPublishing schema filter := by
  rw [← Except.toOption_eq_none, ← Option.map_eq_none_iff (f := shapeOf), toIdPredicate_shape]
  exact traverse_eq_none fun node => publishedNode_isSome schema

/-! ## One filter -/

/-- A reading of predicates on one row, whose columns have the schema's field
ids. -/
structure IcebergExpr.Reads (x : IcebergExpr) (schema : Schema) (case : CaseSensitivity)
    (row : Atom Int32 x.Datum → Truth) (value : x.Predicate → Truth) : Prop extends
    x.Sound value where
  ofAtom : ∀ atom field, schema.lookup case atom.column = some field →
    value (x.ofAtom atom) = row (atom.on field.id)

theorem atom_column {op : ColumnOp} {kind : Text} {members : List (Text × Json)} {name : Text}
    {field : NestedField} {atom : Atom Text x.Datum}
    (h : op.atom x kind members name field = .ok atom) : atom.column = name := by
  rw [atom_on x op kind members name []] at h
  cases hatom : op.atom x kind members [] field with
  | error e =>
      rw [hatom] at h
      cases h
  | ok atom' =>
      rw [hatom] at h
      obtain rfl := Except.ok.inj h
      cases atom' <;> rfl

theorem on_on {R S T Datum : Type} (atom : Atom R Datum) (s : S) (t : T) :
    (atom.on s).on t = atom.on t := by
  cases atom <;> rfl

/-- What both make of a node they bind alike. -/
theorem Alike.value_eq {node : ColumnNode} (h : Alike x schema case node) :
    ∃ atom atom', plannedAtom x schema case node = some atom ∧
      rereadNode x schema node = some atom' ∧
      ∀ row value value', x.Reads schema case row value → x.Reads schema .sensitive row value' →
        value (x.ofAtom atom) = value' (x.ofAtom atom') := by
  obtain ⟨field, henforced, hpublished, hfits⟩ := h
  rcases plannedAtom_cases x schema case node with ⟨-, hnot⟩ |
    ⟨field', name, atom, henforced', -, hname, hatom, hplanned⟩
  · exact absurd hfits (hnot field henforced)
  obtain rfl := Option.some.inj (henforced.symm.trans henforced')
  obtain ⟨name', hname', hreread⟩ :=
    rereadNode_eq x schema hpublished (hasValue_of_fits x hfits)
  obtain ⟨bare, hbare⟩ := hfits
  have hatom' : node.op.atom x node.kind node.members name' field = .ok (bare.on name') := by
    rw [atom_on x _ _ _ _ [], hbare]
    rfl
  obtain rfl : bare.on name = atom := by
    rw [atom_on x _ _ _ _ [], hbare] at hatom
    exact Except.ok.inj hatom
  refine ⟨_, bare.on name', hplanned, by rw [hreread, hatom']; rfl, ?_⟩
  intro row value value' hvalue hvalue'
  rw [hvalue.ofAtom _ field ((atom_column x hatom).symm ▸ hname),
    hvalue'.ofAtom _ field ((atom_column x hatom').symm ▸ hname'), on_on, on_on]

/-- What is published for a filter is read back, and selects the rows that
planning selects. -/
theorem Faithful.value_eq {filter : Json} (h : Faithful x schema case filter) :
    ∃ p, parsePolicyPredicate x schema .sensitive (publishedBranch schema filter) = .ok p ∧
      ∀ row value value', x.Reads schema case row value → x.Reads schema .sensitive row value' →
        value (enforcedBranch schema x case filter) = value' p := by
  rcases h with ⟨hplan, hpublish⟩ | ⟨hholeless, halike⟩
  · obtain ⟨e, he⟩ := (parse_error_iff x schema case).mpr hplan
    obtain ⟨e', he'⟩ := (publish_error_iff schema).mpr hpublish
    refine ⟨x.alwaysFalse, ?_, ?_⟩
    · rw [publishedBranch, he', parsePolicyPredicate, parseWithPolarity]
      rfl
    · intro row value value' hvalue hvalue'
      rw [enforcedBranch, he, hvalue.alwaysFalse, hvalue'.alwaysFalse]
  · have halike' := fun node hnode => (halike node hnode).value_eq x schema case
    obtain ⟨planned, hplanned⟩ := Option.isSome_iff_exists.mp
      ((Formula.traverse_isSome (K := Empty) (g := plannedAtom x schema case)).mpr
        ⟨hholeless, fun node hnode => by
          obtain ⟨atom, _, hatom, -, -⟩ := halike' node hnode
          rw [hatom]
          rfl⟩)
    obtain ⟨reread, hreread⟩ := Option.isSome_iff_exists.mp
      ((Formula.traverse_isSome (K := Empty) (g := rereadNode x schema)).mpr
        ⟨hholeless, fun node hnode => by
          obtain ⟨_, atom, -, hatom, -⟩ := halike' node hnode
          rw [hatom]
          rfl⟩)
    have hparse : parsePolicyPredicate x schema case filter = .ok (x.build planned) := by
      rw [← Except.toOption_eq_some, parsePolicyPredicate, parse_shape, hplanned]
      rfl
    obtain ⟨published, hpublished⟩ : ∃ published, toIdPredicate schema filter = .ok published := by
      cases hpublished : toIdPredicate schema filter with
      | ok published => exact ⟨published, rfl⟩
      | error e =>
          rw [rereadNode_def, ← Formula.traverse_traverse, ← toIdPredicate_shape,
            hpublished] at hreread
          cases hreread
    have hread : (shapeOf published).traverse (plannedAtom x schema .sensitive) = some reread := by
      rw [← hreread, rereadNode_def, ← Formula.traverse_traverse, ← toIdPredicate_shape, hpublished]
      rfl
    refine ⟨x.build reread, ?_, ?_⟩
    · rw [publishedBranch, hpublished, ← Except.toOption_eq_some, parsePolicyPredicate,
        parse_shape, hread]
      rfl
    · intro row value value' hvalue hvalue'
      rw [enforcedBranch, hparse, hvalue.build, hvalue'.build]
      have hboth : ∃ l r : Formula (Atom Text x.Datum) Empty,
          (shapeOf filter).traverse (plannedAtom x schema case) = some l ∧
          (shapeOf filter).traverse (rereadNode x schema) = some r ∧
          l.eval Truth.not (fun atom => value (x.ofAtom atom)) Empty.elim =
            r.eval Truth.not (fun atom => value' (x.ofAtom atom)) Empty.elim := by
        refine Formula.eval_traverse hholeless fun node hnode => ?_
        obtain ⟨atom, atom', hatom, hatom', hvalues⟩ := halike' node hnode
        exact ⟨atom, atom', hatom, hatom', hvalues row value value' hvalue hvalue'⟩
      obtain ⟨l, r, hl, hr, heq⟩ := hboth
      obtain rfl := Option.some.inj (hl.symm.trans hplanned)
      obtain rfl := Option.some.inj (hr.symm.trans hreread)
      exact heq

/-! ## All filters -/

variable (obligations : Obligations)

/-- What is published is read back, and selects the rows planning selects. -/
def RowsAgree : Prop :=
  match rowFilter schema obligations, policyPredicate schema x case obligations with
  | none, none => True
  | some published, some enforced =>
      ∃ p, parsePolicyPredicate x schema .sensitive published = .ok p ∧
        ∀ row value value', x.Reads schema case row value → x.Reads schema .sensitive row value' →
          (value' p = .yes ↔ value enforced = .yes)
  | _, _ => False

/-- One is the constant false exactly where the other is. -/
def ConstantsAgree : Prop :=
  rowFilter schema obligations = some (.bool false) ↔
    policyPredicate schema x case obligations = some x.alwaysFalse

theorem ofText_or : FilterKind.ofText "or".toList = .junction .or := by decide

theorem parse_orElse {left right : Json} {p q : x.Predicate}
    (hleft : parsePolicyPredicate x schema .sensitive left = .ok p)
    (hright : parsePolicyPredicate x schema .sensitive right = .ok q) :
    parsePolicyPredicate x schema .sensitive (orElse (some left) right) = .ok (x.or p q) := by
  rw [← Except.toOption_eq_some, parsePolicyPredicate, parse_shape] at hleft hright ⊢
  have hshape : shapeOf (orElse (some left) right) = .or (shapeOf left) (shapeOf right) :=
    shapeOf_junction ofText_or left right
  rw [hshape]
  change ((Junction.or.join (shapeOf left) (shapeOf right)).traverse _).map x.build = _
  rw [traverse_join, map_build_join, hleft, hright]
  rfl

/-- The invariant of the loop over the filters. -/
theorem foldl_agree (filters : List Json)
    (h : ∀ filter ∈ filters, Faithful x schema case filter) {published : Json}
    {p enforced : x.Predicate}
    (hp : parsePolicyPredicate x schema .sensitive published = .ok p)
    (hvalues : ∀ row value value', x.Reads schema case row value →
      x.Reads schema .sensitive row value' → value enforced = value' p) :
    ∃ published' p' enforced',
      filters.foldl (fun combined filter =>
        some (orElse combined (publishedBranch schema filter))) (some published) = some published' ∧
      filters.foldl (fun combined filter =>
        some (match combined with
          | some existing => x.or existing (enforcedBranch schema x case filter)
          | none => enforcedBranch schema x case filter)) (some enforced) = some enforced' ∧
      parsePolicyPredicate x schema .sensitive published' = .ok p' ∧
      ∀ row value value', x.Reads schema case row value →
        x.Reads schema .sensitive row value' → value enforced' = value' p' := by
  induction filters generalizing published p enforced with
  | nil => exact ⟨published, p, enforced, rfl, rfl, hp, hvalues⟩
  | cons filter rest ih =>
      obtain ⟨q, hq, hvalue⟩ := (h filter List.mem_cons_self).value_eq
      refine ih (fun filter hfilter => h filter (List.mem_cons_of_mem _ hfilter))
        (parse_orElse x schema hp hq) ?_
      intro row value value' hreads hreads'
      rw [hreads.or, hreads'.or, hvalues row value value' hreads hreads',
        hvalue row value value' hreads hreads']

theorem rows_agree (h : ∀ filter ∈ obligations.rowFilters, Faithful x schema case filter) :
    RowsAgree x schema case obligations := by
  unfold RowsAgree
  cases hfilters : obligations.rowFilters with
  | nil =>
      rw [rowFilter, policyPredicate, hfilters]
      trivial
  | cons filter rest =>
      rw [hfilters] at h
      obtain ⟨p, hp, hvalue⟩ := (h filter List.mem_cons_self).value_eq
      obtain ⟨published', p', enforced', hpublished, henforced, hp', hvalues⟩ :=
        foldl_agree x schema case rest (fun filter hfilter =>
          h filter (List.mem_cons_of_mem _ hfilter))
          hp hvalue
      have hrowFilter : rowFilter schema obligations = some published' := by
        rw [rowFilter, hfilters]
        exact hpublished
      have hpolicyPredicate : policyPredicate schema x case obligations = some enforced' := by
        rw [policyPredicate, hfilters]
        exact henforced
      rw [hrowFilter, hpolicyPredicate]
      refine ⟨p', hp', fun row value value' hreads hreads' => ?_⟩
      rw [hvalues row value value' hreads hreads']

/-! ## Constants -/

/-- When `iceberg::expr` folds a predicate to a constant. -/
structure IcebergExpr.Folds (x : IcebergExpr) : Prop where
  alwaysTrue_ne : x.alwaysTrue ≠ x.alwaysFalse
  ofAtom : ∀ atom value, x.ofAtom atom ≠ x.constant value
  and_false : ∀ p q, x.and p q = x.alwaysFalse ↔ p = x.alwaysFalse ∨ q = x.alwaysFalse
  and_true : ∀ p q, x.and p q = x.alwaysTrue ↔ p = x.alwaysTrue ∧ q = x.alwaysTrue
  or_true : ∀ p q, x.or p q = x.alwaysTrue ↔ p = x.alwaysTrue ∨ q = x.alwaysTrue
  or_false : ∀ p q, x.or p q = x.alwaysFalse ↔ p = x.alwaysFalse ∧ q = x.alwaysFalse
  /-- Of a predicate that itself holds no double negation. -/
  negate : ∀ f value, x.negate (x.build f) = x.constant value ↔ x.build f = x.constant (!value)

variable {x}

theorem IcebergExpr.Folds.constant_inj (hx : x.Folds) {a b : Bool} :
    x.constant a = x.constant b ↔ a = b := by
  cases a <;> cases b <;>
    simp [IcebergExpr.constant, hx.alwaysTrue_ne, hx.alwaysTrue_ne.symm]

/-- A predicate is a constant exactly where its formula folds to it. -/
theorem IcebergExpr.Folds.build_eq (hx : x.Folds) (f : Formula (Atom Text x.Datum) Empty)
    (value : Bool) : x.build f = x.constant value ↔ f.folded = some value := by
  induction f generalizing value with
  | const b => rw [IcebergExpr.build, hx.constant_inj, Formula.folded, Option.some.injEq]
  | atom a => exact iff_of_false (hx.ofAtom a value) (fun h => by cases h)
  | hole e => exact e.elim
  | and left right ihl ihr =>
      cases value with
      | false =>
          exact (hx.and_false ..).trans
            ((or_congr (ihl false) (ihr false)).trans Formula.folded_and_false.symm)
      | true =>
          exact (hx.and_true ..).trans
            ((and_congr (ihl true) (ihr true)).trans Formula.folded_and_true.symm)
  | or left right ihl ihr =>
      cases value with
      | false =>
          exact (hx.or_false ..).trans
            ((and_congr (ihl false) (ihr false)).trans Formula.folded_or_false.symm)
      | true =>
          exact (hx.or_true ..).trans
            ((or_congr (ihl true) (ihr true)).trans Formula.folded_or_true.symm)
  | not child ih =>
      rw [IcebergExpr.build, hx.negate, ih, Formula.folded]
      cases child.folded with
      | none => simp
      | some b => cases b <;> cases value <;> simp

variable (x) {schema case}

theorem traverse_eq_const {A B H K : Type} {g : A → Option B} {f : Formula A H} {value : Bool} :
    (f.traverse g : Option (Formula B K)) = some (.const value) ↔ f = .const value := by
  refine ⟨fun h => ?_, fun h => h ▸ rfl⟩
  cases f with
  | const b =>
      cases h
      rfl
  | atom a =>
      obtain ⟨_, -, h⟩ := Option.map_eq_some_iff.mp h
      cases h
  | hole a => cases h
  | and left right | or left right =>
      obtain ⟨l, -, h⟩ := Option.bind_eq_some_iff.mp h
      obtain ⟨r, -, h⟩ := Option.bind_eq_some_iff.mp h
      cases h
  | not child =>
      obtain ⟨_, -, h⟩ := Option.map_eq_some_iff.mp h
      cases h

/-- A filter whose tree is a constant is published as that constant. -/
theorem toIdPredicate_const {filter : Json} {value : Bool} (h : shapeOf filter = .const value) :
    toIdPredicate schema filter = .ok (.bool value) := by
  unfold shapeOf at h
  unfold toIdPredicate
  split at h
  · cases h
    rfl
  · next members =>
      split at h
      · cases h
      · next kind hkind =>
          dsimp only
          rw [kindOf_eq_ok.mp hkind]
          dsimp only
          revert h
          cases FilterKind.ofText kind with
          | constant value' =>
              intro h
              cases h
              rfl
          | junction op =>
              intro h
              dsimp only at h
              split at h
              · cases op <;> cases h
              · cases h
          | not =>
              intro h
              dsimp only at h
              split at h <;> cases h
          | column op => exact fun h => nomatch h
          | other => exact fun h => nomatch h
  · cases h

theorem publishedBranch_eq_false {filter : Json} :
    publishedBranch schema filter = .bool false ↔
      RefusedByPublishing schema filter ∨ shapeOf filter = .const false := by
  unfold publishedBranch
  rw [← publish_error_iff]
  have hshape := toIdPredicate_shape schema filter
  cases hpublished : toIdPredicate schema filter with
  | error e => exact iff_of_true rfl (Or.inl ⟨e, rfl⟩)
  | ok published =>
      have hok : ¬ ∃ e, Except.ok published = (Except.error e : Except AppError Json) :=
        fun ⟨_, h⟩ => by cases h
      rw [or_iff_right hok]
      refine ⟨?_, fun h => ?_⟩
      · rintro rfl
        rw [hpublished] at hshape
        rw [← traverse_eq_const (g := publishedNode schema) (K := Unit), ← hshape]
        change some (shapeOf (.bool false)) = _
        rw [shapeOf]
      · rw [toIdPredicate_const h] at hpublished
        exact (Except.ok.inj hpublished).symm

theorem enforcedBranch_eq_false (hx : x.Folds) {filter : Json} :
    enforcedBranch schema x case filter = x.alwaysFalse ↔
      RefusedByPlan x schema case filter ∨ (shapeOf filter).folded = some false := by
  unfold enforcedBranch
  rw [← parse_error_iff]
  have hshape := parse_shape x schema case true filter
  cases hparse : parsePolicyPredicate x schema case filter with
  | error e => exact iff_of_true rfl (Or.inl ⟨e, rfl⟩)
  | ok p =>
      have hok : ¬ ∃ e, Except.ok p = (Except.error e : Except Error x.Predicate) :=
        fun ⟨_, h⟩ => by cases h
      rw [or_iff_right hok]
      rw [parsePolicyPredicate] at hparse
      rw [hparse] at hshape
      obtain ⟨f, hf, rfl⟩ := Option.map_eq_some_iff.mp hshape.symm
      rw [← Formula.folded_traverse hf]
      exact hx.build_eq f false

theorem rowFilter_eq_false {obligations : Obligations} :
    rowFilter schema obligations = some (.bool false) ↔
      ∃ filter, obligations.rowFilters = [filter] ∧
        publishedBranch schema filter = .bool false := by
  have hfold : ∀ (filters : List Json) (published : Json),
      filters.foldl (fun combined filter =>
        some (orElse combined (publishedBranch schema filter))) (some published) =
          some (.bool false) ↔ filters = [] ∧ published = .bool false := by
    intro filters
    induction filters with
    | nil =>
        intro published
        simp
    | cons filter rest ih =>
        intro published
        rw [List.foldl_cons, ih]
        exact iff_of_false (fun h => by cases h.2) (fun h => by cases h.1)
  unfold rowFilter
  cases obligations.rowFilters with
  | nil => exact iff_of_false (fun h => by cases h) fun ⟨_, h, _⟩ => by cases h
  | cons filter rest =>
      refine (hfold rest (publishedBranch schema filter)).trans ⟨?_, ?_⟩
      · rintro ⟨rfl, h⟩
        exact ⟨filter, rfl, h⟩
      · rintro ⟨filter', h, hfalse⟩
        obtain ⟨rfl, rfl⟩ := List.cons.inj h
        exact ⟨rfl, hfalse⟩

theorem policyPredicate_eq_false (hx : x.Folds) {obligations : Obligations} :
    policyPredicate schema x case obligations = some x.alwaysFalse ↔
      obligations.rowFilters ≠ [] ∧
        ∀ filter ∈ obligations.rowFilters, enforcedBranch schema x case filter = x.alwaysFalse := by
  have hfold : ∀ (filters : List Json) (enforced : x.Predicate),
      filters.foldl (fun combined filter =>
        some (match combined with
          | some existing => x.or existing (enforcedBranch schema x case filter)
          | none => enforcedBranch schema x case filter)) (some enforced) = some x.alwaysFalse ↔
        enforced = x.alwaysFalse ∧
          ∀ filter ∈ filters, enforcedBranch schema x case filter = x.alwaysFalse := by
    intro filters
    induction filters with
    | nil =>
        intro enforced
        simp
    | cons filter rest ih =>
        intro enforced
        rw [List.foldl_cons, ih, hx.or_false, List.forall_mem_cons, and_assoc]
  unfold policyPredicate
  cases obligations.rowFilters with
  | nil => exact iff_of_false (fun h => by cases h) fun h => h.1 rfl
  | cons filter rest =>
      rw [List.forall_mem_cons, and_iff_right (List.cons_ne_nil filter rest)]
      exact hfold rest (enforcedBranch schema x case filter)

variable (schema case)

/-- Filters that all plan to false are one filter, which is refused or
literally false. -/
def LoneFalse (filters : List Json) : Prop :=
  filters ≠ [] →
    (∀ filter ∈ filters,
      RefusedByPlan x schema case filter ∨ (shapeOf filter).folded = some false) →
    ∃ filter, filters = [filter] ∧
      (RefusedByPublishing schema filter ∨ shapeOf filter = .const false)

/-- Where both read every part of every filter alike, they select the same
rows, and they are false together unless several filters, or a filter that
only folds to false, are all there is. -/
theorem restrictions_agree (hx : x.Folds) (obligations : Obligations)
    (hfaithful : ∀ filter ∈ obligations.rowFilters, Faithful x schema case filter) :
    RowsAgree x schema case obligations ∧ ConstantsAgree x schema case obligations ↔
      LoneFalse x schema case obligations.rowFilters := by
  rw [and_iff_right (rows_agree x schema case obligations hfaithful), ConstantsAgree,
    rowFilter_eq_false, policyPredicate_eq_false x hx]
  simp only [publishedBranch_eq_false, enforcedBranch_eq_false x hx]
  refine ⟨fun h hne hall => h.mpr ⟨hne, hall⟩, fun h => ⟨?_, fun hall => h hall.1 hall.2⟩⟩
  rintro ⟨filter, hfilters, hfalse⟩
  rw [hfilters] at hfaithful ⊢
  refine ⟨List.cons_ne_nil _ _, List.forall_mem_singleton.mpr ?_⟩
  rcases List.forall_mem_singleton.mp hfaithful with ⟨hplan, -⟩ | ⟨hholeless, halike⟩
  · exact Or.inl hplan
  · rcases hfalse with hrefused | hconst
    · rcases hrefused with hnot | ⟨node, hnode, hnone⟩
      · exact absurd hholeless hnot
      · obtain ⟨field, -, hpublished, hfits⟩ := halike node hnode
        rw [hpublished, hasValue_of_fits x hfits] at hnone
        exact hnone.elim (fun h => by cases h) (fun h => by cases h)
    · exact Or.inr (by rw [hconst]; rfl)

end

/-! ## A table with a region -/

theorem plain_folds : IcebergExpr.plain.Folds where
  alwaysTrue_ne := by decide
  ofAtom atom value := by cases value <;> exact fun h => by cases h
  and_false p q := by
    change p.conj q = .alwaysFalse ↔ _
    cases p <;> cases q <;> simp [PlainPredicate.conj, IcebergExpr.plain]
  and_true p q := by
    change p.conj q = .alwaysTrue ↔ _
    cases p <;> cases q <;> simp [PlainPredicate.conj, IcebergExpr.plain]
  or_true p q := by
    change p.disj q = .alwaysTrue ↔ _
    cases p <;> cases q <;> simp [PlainPredicate.disj, IcebergExpr.plain]
  or_false p q := by
    change p.disj q = .alwaysFalse ↔ _
    cases p <;> cases q <;> simp [PlainPredicate.disj, IcebergExpr.plain]
  negate f value := by
    change (IcebergExpr.plain.build f).negate = _ ↔ _
    cases value <;> cases IcebergExpr.plain.build f <;>
      simp [PlainPredicate.negate, IcebergExpr.constant, IcebergExpr.plain]

def regions : Schema :=
  .flat [.column 1 "region" false .string, .column 2 "count" false .long] (by decide) (by decide)

/-- `{"type":"eq","term":"region","value":…}` -/
def regionIs (value : Json) : Json :=
  .of [("type", .str "eq"), ("term", .str "region"), ("value", value)]

/-- The obligations of one row filter. -/
def onlyRows (filter : Json) : Obligations :=
  { rowFilters := [filter], columnMasks := [] }

theorem shapeOf_regionIs (value : Json) :
    shapeOf (regionIs value) = .atom ⟨.comparison .eq, "eq".toList,
      Json.fields [("type", .str "eq"), ("term", .str "region"), ("value", value)]⟩ :=
  shapeOf_column (by decide) rfl

theorem restrictions_agree_region :
    RowsAgree IcebergExpr.plain regions .sensitive (onlyRows (regionIs (.str "EU"))) ∧
      ConstantsAgree IcebergExpr.plain regions .sensitive (onlyRows (regionIs (.str "EU"))) := by
  have halike : Alike IcebergExpr.plain regions .sensitive ⟨.comparison .eq, "eq".toList,
      Json.fields [("type", .str "eq"), ("term", .str "region"), ("value", .str "EU")]⟩ :=
    ⟨.column 1 "region" false .string, rfl, rfl, _, rfl⟩
  refine (restrictions_agree IcebergExpr.plain regions .sensitive plain_folds
    (onlyRows (regionIs (.str "EU"))) ?_).mpr ?_
  · intro filter hfilter
    obtain rfl := List.mem_singleton.mp hfilter
    rw [Faithful, shapeOf_regionIs]
    refine Or.inr ⟨trivial, fun node hnode => ?_⟩
    obtain rfl := List.mem_singleton.mp hnode
    exact halike
  · intro _ hall
    have hdead := hall _ (List.mem_singleton_self _)
    rw [RefusedByPlan, shapeOf_regionIs] at hdead
    rcases hdead with (hnot | ⟨node, hnode, hnone⟩) | hfolded
    · exact absurd trivial hnot
    · obtain rfl := List.mem_singleton.mp hnode
      obtain ⟨field, henforced, -, hfits⟩ := halike
      exact absurd hfits (hnone field henforced)
    · cases hfolded

/-- A number for a text column: planning selects nothing, and the comparison is
published as it stands. -/
theorem illTyped_published :
    ¬ ∀ (x : IcebergExpr) (schema : Schema) (case : CaseSensitivity) (obligations : Obligations),
      x.Folds → RowsAgree x schema case obligations ∧ ConstantsAgree x schema case obligations := by
  intro hall
  have hagree := (hall IcebergExpr.plain regions .sensitive
    (onlyRows (regionIs (.number (.posInt 5)))) plain_folds).2
  have henforced : policyPredicate regions IcebergExpr.plain .sensitive
      (onlyRows (regionIs (.number (.posInt 5)))) = some IcebergExpr.plain.alwaysFalse := by
    decide +kernel
  have hpublished : ((rowFilter regions (onlyRows (regionIs (.number (.posInt 5))))).bind
      Json.asBool) = none := by
    decide +kernel
  rw [hagree.mpr henforced] at hpublished
  cases hpublished

end Rustberg.Query
