import Rustberg.Query.Agreement

/-!
# What installs and what binds

`validate_policy_filter` of `predicate.rs` reads a row filter when its
policy is loaded, without a table. It refuses what no table could bind,
except that it does not look at literals: `installs_iff_binds` says that
what installs binds to some table exactly where the filter's columns can
be given types that take all that is compared with them.
-/

namespace Rustberg.Query

open Logic

/-! ## Without a schema -/

def Operand.isBindable : Operand → Bool
  | .named _ => true
  | .id _ => true
  | .unbindable => false

/-- The field id of an operand, where `idOf` gives names theirs. -/
def Operand.idBy (idOf : Text → Int32) : Operand → Option Int32
  | .named name => some (idOf name)
  | .id fieldId => some fieldId
  | .unbindable => none

/-- The name an operand spells. -/
def Operand.spelled : Operand → Option Text
  | .named name => some name
  | _ => none

/-- The field id an operand gives itself. -/
def Operand.numbered : Operand → Option Int32
  | .id fieldId => some fieldId
  | _ => none

def bindableOperand (operand : Operand) (kind : Text) : Except Error Unit :=
  if operand.isBindable then .ok ()
  else .error (invalid ("the term of ".toList ++ quoted kind ++ (" is a transform or a function " ++
    "application, neither of which this catalog can bind. In a client's filter that is widened " ++
    "away; in a policy row filter widening would remove the restriction, so it is " ++
    "refused.").toList))

/-- An expression on one column. -/
def validateColumn (op : ColumnOp) (kind : Text) (members : List (Text × Json)) :
    Except Error Unit :=
  match op with
  | .unary _ => do bindableOperand (← operandOf members) kind
  | .comparison _ => do
      bindableOperand (← comparisonOperandOf members) kind
      match firstOf members "right" "value" with
      | some _ => .ok ()
      | none => .error (invalid ("comparison ".toList ++ quoted kind ++ " needs a value".toList))
  | .set _ => do
      bindableOperand (← operandOf members) kind
      match Json.get members "values".toList with
      | some _ => .ok ()
      | none => .error (invalid (quoted kind ++ " needs 'values'".toList))

def validatePolicyFilter : Json → Except Error Unit
  | .bool _ => .ok ()
  | .object members =>
      match (Json.get members "type".toList).bind Json.asStr with
      | none => .error (invalid "a predicate expression needs a 'type'".toList)
      | some kind =>
          match FilterKind.ofText kind with
          | .constant _ => .ok ()
          | .junction _ => do
              let ⟨left, _⟩ ← child members "left"
              validatePolicyFilter left
              let ⟨right, _⟩ ← child members "right"
              validatePolicyFilter right
          | .not => do
              let ⟨value, _⟩ ← child members "child"
              validatePolicyFilter value
          | .column op => validateColumn op kind members
          | .other => .error (invalid (quoted kind ++ (" is not an operator this catalog binds. " ++
              "A client's filter widens one away, which costs a superset of files; a policy row " ++
              "filter cannot, because a weaker restriction is no restriction. Spell the filter " ++
              "with the operators in the Iceberg REST `Expression` grammar.").toList))
  | _ => .error (invalid "a predicate must be a boolean or an expression object".toList)
termination_by json => sizeOf json

theorem bindableOperand_eq_ok {operand : Operand} {kind : Text} :
    bindableOperand operand kind = .ok () ↔ operand ≠ .unbindable := by
  cases operand with
  | named name | id id => exact iff_of_true rfl fun h => by cases h
  | unbindable => exact iff_of_false (fun h => by cases h) fun h => h rfl

theorem bindable_then (reader : Except Error Operand) (kind : Text) {rest : Except Error Unit}
    {there : Prop} (hrest : rest = .ok () ↔ there) :
    ((reader >>= fun operand => bindableOperand operand kind >>= fun _ => rest) = .ok () ↔
      (∃ operand, reader = .ok operand ∧ operand ≠ .unbindable) ∧ there) := by
  constructor
  · intro h
    obtain ⟨operand, hoperand, h⟩ := Except.bind_eq_ok.mp h
    obtain ⟨_, hbindable, h⟩ := Except.bind_eq_ok.mp h
    exact ⟨⟨operand, hoperand, bindableOperand_eq_ok.mp hbindable⟩, hrest.mp h⟩
  · rintro ⟨⟨operand, hoperand, hbindable⟩, h⟩
    exact Except.bind_eq_ok.mpr ⟨operand, hoperand,
      Except.bind_eq_ok.mpr ⟨(), bindableOperand_eq_ok.mpr hbindable, hrest.mpr h⟩⟩

theorem validateColumn_eq_ok {op : ColumnOp} {kind : Text} {members : List (Text × Json)} :
    validateColumn op kind members = .ok () ↔
      (∃ operand, op.operand members = .ok operand ∧ operand ≠ .unbindable) ∧
        op.hasValue members = true := by
  cases op with
  | unary op =>
      have hrest := bindable_then (operandOf members) kind
        (iff_of_true (rfl : (.ok () : Except Error Unit) = .ok ()) (rfl : true = true))
      refine Iff.trans (Eq.to_iff (congrArg (· = _) ?_)) hrest
      rw [validateColumn]
      cases operandOf members with
      | error e => rfl
      | ok operand => cases operand <;> rfl
  | comparison op =>
      refine bindable_then (comparisonOperandOf members) kind ?_
      rw [ColumnOp.hasValue]
      cases firstOf members "right" "value" <;> simp
  | set op =>
      refine bindable_then (operandOf members) kind ?_
      rw [ColumnOp.hasValue]
      cases Json.get members "values".toList <;> simp

/-- A filter installs where its tree is whole and each of its columns can be bound. -/
theorem validatePolicyFilter_eq_ok (json : Json) :
    validatePolicyFilter json = .ok () ↔
      (shapeOf json).Holeless ∧
        ∀ node ∈ (shapeOf json).atoms, validateColumn node.op node.kind node.members = .ok () := by
  cases json with
  | bool value =>
      rw [validatePolicyFilter, shapeOf]
      exact iff_of_true rfl ⟨trivial, fun node h => by cases h⟩
  | null | number n | string s | array items =>
      rw [validatePolicyFilter, shapeOf]
      · exact iff_of_false (fun h => by cases h) fun h => h.1
      all_goals exact fun _ h => by cases h
  | object members =>
      rw [validatePolicyFilter, shapeOf, kindOf]
      cases (Json.get members "type".toList).bind Json.asStr with
      | none => exact iff_of_false (fun h => by cases h) fun h => h.1
      | some kind =>
          dsimp only
          cases FilterKind.ofText kind with
          | constant value => exact iff_of_true rfl ⟨trivial, fun node h => by cases h⟩
          | column op =>
              refine ⟨fun h => ⟨trivial, fun node hnode => ?_⟩, fun h => ?_⟩
              · obtain rfl := List.mem_singleton.mp hnode
                exact h
              · exact h.2 _ (List.mem_singleton_self _)
          | other => exact iff_of_false (fun h => by cases h) fun h => h.1
          | junction op =>
              dsimp only
              cases child members "left" with
              | error e => exact iff_of_false (fun h => by cases h) fun h => h.1
              | ok left =>
                  obtain ⟨left, hltl⟩ := left
                  cases child members "right" with
                  | error e =>
                      refine iff_of_false (fun h => ?_) fun h => h.1
                      obtain ⟨_, -, h⟩ := Except.bind_eq_ok.mp h
                      obtain ⟨_, -, h⟩ := Except.bind_eq_ok.mp h
                      cases h
                  | ok right =>
                      obtain ⟨right, hltr⟩ := right
                      have ihl := validatePolicyFilter_eq_ok left
                      have ihr := validatePolicyFilter_eq_ok right
                      have hboth : (do validatePolicyFilter left; validatePolicyFilter right) =
                          .ok () ↔ validatePolicyFilter left = .ok () ∧
                            validatePolicyFilter right = .ok () := by
                        rw [Except.bind_eq_ok]
                        constructor
                        · rintro ⟨_, hl, hr⟩
                          exact ⟨hl, hr⟩
                        · rintro ⟨hl, hr⟩
                          exact ⟨(), hl, hr⟩
                      have hjoin : ((op.join (shapeOf left) (shapeOf right)).Holeless ↔
                          (shapeOf left).Holeless ∧ (shapeOf right).Holeless) ∧
                          (op.join (shapeOf left) (shapeOf right)).atoms =
                            (shapeOf left).atoms ++ (shapeOf right).atoms := by
                        cases op <;> exact ⟨Iff.rfl, rfl⟩
                      refine hboth.trans ?_
                      rw [ihl, ihr, hjoin.1, hjoin.2, List.forall_mem_append]
                      exact and_and_and_comm
          | not =>
              dsimp only
              cases child members "child" with
              | error e => exact iff_of_false (fun h => by cases h) fun h => h.1
              | ok value =>
                  obtain ⟨value, hlt⟩ := value
                  exact validatePolicyFilter_eq_ok value
termination_by sizeOf json

/-! ## Literals and types -/

/-- What a literal object holds; any other value is its own literal. -/
def literalOf : Json → Option Json
  | .object members =>
      if hasType members "literal" then Json.get members "value".toList else some (.object members)
  | value => some value

/-- The literals an operator compares with, where their shape is one it reads. -/
def ColumnOp.literals (members : List (Text × Json)) : ColumnOp → Option (List Json)
  | .unary _ => some []
  | .comparison _ => ((firstOf members "right" "value").bind literalOf).map ([·])
  | .set _ =>
      match Json.get members "values".toList with
      | some (.array items) => some items
      | some (.object members) => (Json.get members "values".toList).bind Json.asArray
      | _ => none

def ColumnOp.asksNan : ColumnOp → Bool
  | .unary .isNan => true
  | .unary .notNan => true
  | _ => false

section

variable (x : IcebergExpr)

/-- A column of the type takes all that the node compares it with. -/
def TakesAll (node : ColumnNode) (primitive : PrimitiveType) : Prop :=
  (∃ literals, node.op.literals node.members = some literals ∧
    ∀ value ∈ literals, ∃ datum, datumFromJson x value primitive = .ok datum) ∧
  (node.op.asksNan = true → primitive = .float ∨ primitive = .double)

variable {x}

theorem parseLiteral_ok {value : Json} {field : NestedField} {primitive : PrimitiveType}
    (hfield : field.fieldType = .primitive primitive) :
    (∃ datum, parseLiteral x value field = .ok datum) ↔
      ∃ inner, literalOf value = some inner ∧
        ∃ datum, datumFromJson x inner primitive = .ok datum := by
  have hprimitive : primitiveType field = .ok primitive := by rw [primitiveType, hfield]
  unfold parseLiteral
  rw [hprimitive]
  simp only [bind, Except.bind]
  cases value with
  | object members =>
      dsimp only
      rw [literalOf]
      split
      · cases Json.get members "value".toList with
        | none => exact iff_of_false Except.error_ne_ok Except.none_ne_some
        | some inner => simp
      · simp
  | null | bool b | number n | string s | array items => simp [literalOf]

theorem parseLiterals_ok {value : Json} {field : NestedField} {primitive : PrimitiveType}
    (hfield : field.fieldType = .primitive primitive) :
    (∃ datums, parseLiterals x value field = .ok datums) ↔
      ∃ items, (match value with
        | .array items => some items
        | .object members => (Json.get members "values".toList).bind Json.asArray
        | _ => none) = some items ∧
        ∀ item ∈ items, ∃ datum, datumFromJson x item primitive = .ok datum := by
  have hprimitive : primitiveType field = .ok primitive := by rw [primitiveType, hfield]
  unfold parseLiterals
  rw [hprimitive]
  simp only [bind, Except.bind]
  cases value with
  | array items => simp [Except.exists_mapM_ok]
  | object members =>
      dsimp only
      cases (Json.get members "values".toList).bind Json.asArray with
      | none => exact iff_of_false Except.error_ne_ok Except.none_ne_some
      | some items => simp [Except.exists_mapM_ok]
  | null | bool b | number n | string s =>
      exact iff_of_false Except.error_ne_ok Except.none_ne_some

theorem exists_bind_pure {α β : Type} {r : Except Error α} {f : α → β} :
    (∃ b, (r >>= fun a => pure (f a)) = (.ok b : Except Error β)) ↔ ∃ a, r = .ok a := by
  cases r with
  | error e => exact iff_of_false Except.error_ne_ok Except.error_ne_ok
  | ok a => exact iff_of_true ⟨f a, rfl⟩ ⟨a, rfl⟩

/-- A node is bound to a column of a primitive type where the type takes it. -/
theorem fits_primitive {node : ColumnNode} {field : NestedField} {primitive : PrimitiveType}
    (hfield : field.fieldType = .primitive primitive) :
    Fits x node field ↔ TakesAll x node primitive := by
  obtain ⟨op, kind, members⟩ := node
  unfold Fits TakesAll ColumnOp.atom
  cases op with
  | unary op =>
      have hliterals : ∃ literals, (ColumnOp.unary op).literals members = some literals ∧
          ∀ value ∈ literals, ∃ datum, datumFromJson x value primitive = .ok datum :=
        ⟨[], rfl, fun value h => by cases h⟩
      rw [and_iff_right hliterals]
      dsimp only
      cases op with
      | isNull | notNull => exact iff_of_true ⟨_, rfl⟩ fun h => by cases h
      | isNan | notNan =>
          have hprimitive : primitiveType field = .ok primitive := by rw [primitiveType, hfield]
          rw [checkNan, hprimitive]
          simp only [bind, Except.bind, ColumnOp.asksNan, forall_const]
          by_cases hfloat : primitive = .float ∨ primitive = .double
          · rw [if_pos hfloat]
            exact iff_of_true ⟨_, rfl⟩ hfloat
          · rw [if_neg hfloat]
            exact iff_of_false Except.error_ne_ok hfloat
  | comparison op =>
      rw [and_iff_left (fun h => by cases h)]
      dsimp only [ColumnOp.literals]
      cases firstOf members "right" "value" with
      | none => exact iff_of_false Except.error_ne_ok Except.none_ne_some
      | some value =>
          refine exists_bind_pure.trans ((parseLiteral_ok hfield).trans ?_)
          rw [Option.bind_some]
          cases literalOf value <;> simp
  | set op =>
      rw [and_iff_left (fun h => by cases h)]
      dsimp only [ColumnOp.literals]
      cases Json.get members "values".toList with
      | none => exact iff_of_false Except.error_ne_ok Except.none_ne_some
      | some values =>
          refine exists_bind_pure.trans ((parseLiterals_ok hfield).trans ?_)
          cases values <;> rfl

/-- Only a question about nulls is bound to a column that is not primitive. -/
theorem takesAll_of_fits {node : ColumnNode} {field : NestedField}
    (hfield : ∀ primitive, field.fieldType ≠ .primitive primitive) (h : Fits x node field)
    (primitive : PrimitiveType) : TakesAll x node primitive := by
  have hnone : ∀ {α : Type} {f : PrimitiveType → Except Error α} {a : α},
      (primitiveType field >>= f) ≠ .ok a := by
    intro α f a hbind
    obtain ⟨found, hfound, -⟩ := Except.bind_eq_ok.mp hbind
    unfold primitiveType at hfound
    cases htype : field.fieldType with
    | primitive p => exact hfield p htype
    | _ =>
        rw [htype] at hfound
        cases hfound
  obtain ⟨op, kind, members⟩ := node
  obtain ⟨atom, h⟩ := h
  unfold ColumnOp.atom at h
  cases op with
  | unary op =>
      refine ⟨⟨[], rfl, fun value h => by cases h⟩, ?_⟩
      cases op with
      | isNull | notNull => exact fun hnan => by cases hnan
      | isNan | notNan =>
          obtain ⟨_, hcheck, -⟩ := Except.bind_eq_ok.mp h
          exact absurd hcheck hnone
  | comparison op =>
      dsimp only at h
      split at h
      · cases h
      · obtain ⟨_, hparse, -⟩ := Except.bind_eq_ok.mp h
        exact absurd hparse hnone
  | set op =>
      dsimp only at h
      split at h
      · cases h
      · obtain ⟨_, hparse, -⟩ := Except.bind_eq_ok.mp h
        exact absurd hparse hnone

variable (x) in
/-- Field ids for the columns that a filter names, and types for the ids, that
take whatever is compared with them. -/
def Typable (filter : Json) : Prop :=
  ∃ (idOf : Text → Int32) (typeOf : Int32 → PrimitiveType),
    ∀ node ∈ (shapeOf filter).atoms, ∀ id,
      (node.op.operand node.members).toOption.bind (Operand.idBy idOf) = some id →
        TakesAll x node (typeOf id)

end

/-! ## A schema of the filter's own columns -/

/-- The schema of the columns `ids`, in which other names may stand for them: a filter may name
more columns than there are field ids. -/
def Schema.ofColumns (ids : List Int32) (nameOf : Int32 → Text) (idOf : Text → Int32)
    (typeOf : Int32 → PrimitiveType) (h : ∀ id ∈ ids, idOf (nameOf id) = id) : Schema where
  fields := ids.map fun id => .mk id (nameOf id) false (.primitive (typeOf id))
  fieldById id :=
    if id ∈ ids then some (.mk id (nameOf id) false (.primitive (typeOf id))) else none
  nameByFieldId id := if id ∈ ids then some (nameOf id) else none
  fieldByName name :=
    if idOf name ∈ ids then
      some (.mk (idOf name) (nameOf (idOf name)) false (.primitive (typeOf (idOf name))))
    else none
  fieldByNameCaseInsensitive name :=
    if idOf name ∈ ids then
      some (.mk (idOf name) (nameOf (idOf name)) false (.primitive (typeOf (idOf name))))
    else none
  fieldById_id id field hfield := by
    split at hfield
    · obtain rfl := Option.some.inj hfield
      rfl
    · cases hfield
  nameByFieldId_isSome id := by split <;> rfl
  fieldByName_nameByFieldId id name hname := by
    split at hname
    · next hid =>
        obtain rfl := Option.some.inj hname
        rw [h id hid]
    · cases hname
  fieldById_fieldByName name field hfield := by
    split at hfield
    · next hid =>
        obtain rfl := Option.some.inj hfield
        exact if_pos hid
    · cases hfield
  fieldById_fieldByNameCaseInsensitive name field hfield := by
    split at hfield
    · next hid =>
        obtain rfl := Option.some.inj hfield
        exact if_pos hid
    · cases hfield
  fieldByNameCaseInsensitive_isSome name hname := hname

/-- A number of its own for each field id. -/
def idNumber (id : Int32) : Nat := (id.toInt + 2 ^ 31).toNat

theorem idNumber_inj {a b : Int32} (h : idNumber a = idNumber b) : a = b := by
  have ha := a.le_toInt
  have hb := b.le_toInt
  unfold idNumber at h
  exact Int32.toInt_inj.mp (by omega)

/-- Names of the field ids, none of them among `names`. -/
def freshName (names : List Text) (id : Int32) : Text :=
  List.replicate (names.flatten.length + 1 + idNumber id) 'x'

theorem freshName_inj {names : List Text} {a b : Int32}
    (h : freshName names a = freshName names b) : a = b := by
  have hlen := congrArg List.length h
  simp only [freshName, List.length_replicate] at hlen
  exact idNumber_inj (by omega)

theorem freshName_ne {names : List Text} {name : Text} (h : name ∈ names) (id : Int32) :
    freshName names id ≠ name := by
  intro heq
  have hle := (List.sublist_flatten_of_mem h).length_le
  rw [← heq, freshName, List.length_replicate] at hle
  omega

/-- `idOf`, with the fresh names of `ids` put first. -/
def idOrFresh (names : List Text) (ids : List Int32) (idOf : Text → Int32) (name : Text) : Int32 :=
  match ids.find? fun id => freshName names id == name with
  | some id => id
  | none => idOf name

theorem idOrFresh_fresh {names : List Text} {ids : List Int32} {idOf : Text → Int32} {id : Int32}
    (h : id ∈ ids) : idOrFresh names ids idOf (freshName names id) = id := by
  unfold idOrFresh
  cases hfind : ids.find? fun id' => freshName names id' == freshName names id with
  | none => exact absurd (List.find?_eq_none.mp hfind id h) (by simp)
  | some id' => exact freshName_inj (by simpa using List.find?_some hfind)

theorem idOrFresh_named {names : List Text} {ids : List Int32} {idOf : Text → Int32} {name : Text}
    (h : name ∈ names) : idOrFresh names ids idOf name = idOf name := by
  have hnone : (ids.find? fun id => freshName names id == name) = none :=
    List.find?_eq_none.mpr fun id _ => by simpa using freshName_ne h id
  rw [idOrFresh, hnone]

section

variable {x : IcebergExpr}

/-- The operands of the nodes that have one. -/
def operandsOf (nodes : List ColumnNode) : List Operand :=
  nodes.filterMap fun node => (node.op.operand node.members).toOption

theorem mem_operandsOf {nodes : List ColumnNode} {node : ColumnNode} {operand : Operand}
    (hnode : node ∈ nodes) (hoperand : node.op.operand node.members = .ok operand) :
    operand ∈ operandsOf nodes :=
  List.mem_filterMap.mpr ⟨node, hnode, by rw [hoperand]; rfl⟩

/-- Columns that can be typed are the columns of some table. -/
theorem exists_schema {nodes : List ColumnNode} {idOf : Text → Int32}
    {typeOf : Int32 → PrimitiveType}
    (hbindable : ∀ node ∈ nodes, validateColumn node.op node.kind node.members = .ok ())
    (htyped : ∀ node ∈ nodes, ∀ id,
      (node.op.operand node.members).toOption.bind (Operand.idBy idOf) = some id →
        TakesAll x node (typeOf id)) :
    ∃ schema, ∀ node ∈ nodes, (plannedAtom x schema .sensitive node).isSome := by
  let names := (operandsOf nodes).filterMap Operand.spelled
  let ids := (operandsOf nodes).filterMap (Operand.idBy idOf)
  refine ⟨.ofColumns ids (freshName names) (idOrFresh names ids idOf) typeOf
    fun id hid => idOrFresh_fresh hid, fun node hnode => ?_⟩
  obtain ⟨⟨operand, hoperand, hnot⟩, -⟩ := validateColumn_eq_ok.mp (hbindable node hnode)
  have hmem := mem_operandsOf hnode hoperand
  obtain ⟨id, hid⟩ : ∃ id, operand.idBy idOf = some id := by
    cases operand with
    | named name => exact ⟨_, rfl⟩
    | id fieldId => exact ⟨_, rfl⟩
    | unbindable => exact absurd rfl hnot
  have hids : id ∈ ids := List.mem_filterMap.mpr ⟨operand, hmem, hid⟩
  have htakes := htyped node hnode id (by rw [hoperand]; exact hid)
  rw [plannedAtom_isSome]
  intro hnone
  refine hnone (.mk id (freshName names id) false (.primitive (typeOf id))) ?_
    ((fits_primitive rfl).mpr htakes)
  have hlookup : ∀ name, idOrFresh names ids idOf name = id →
      (if idOrFresh names ids idOf name ∈ ids then
        some (NestedField.mk (idOrFresh names ids idOf name)
          (freshName names (idOrFresh names ids idOf name)) false
          (.primitive (typeOf (idOrFresh names ids idOf name)))) else none) =
        some (.mk id (freshName names id) false (.primitive (typeOf id))) := by
    intro name hname
    rw [hname, if_pos hids]
  unfold enforcedField
  rw [hoperand]
  cases operand with
  | named name =>
      obtain rfl := Option.some.inj hid
      have hnamed : name ∈ names := List.mem_filterMap.mpr ⟨.named name, hmem, rfl⟩
      exact hlookup name (idOrFresh_named hnamed)
  | id fieldId =>
      obtain rfl := Option.some.inj hid
      have hname : (if fieldId ∈ ids then some (freshName names fieldId) else none) =
          some (freshName names fieldId) := if_pos hids
      dsimp only [Operand.resolve, Schema.ofColumns]
      rw [hname]
      exact hlookup _ (idOrFresh_fresh hids)
  | unbindable => exact absurd rfl hnot

/-- There are `2 ^ 32` field ids. -/
theorem exists_freshId {used : List Int32} (h : used.length < 2 ^ 32) : ∃ id, id ∉ used := by
  by_contra hall
  have hsubset : (List.range (2 ^ 32)).map Int32.ofNat ⊆ used := fun id _ =>
    not_not.mp fun hid => hall ⟨id, hid⟩
  have hnodup : ((List.range (2 ^ 32)).map Int32.ofNat).Nodup := by
    refine List.Nodup.map_on (fun a ha b hb heq => ?_) List.nodup_range
    have hnat := congrArg (fun id : Int32 => id.toBitVec.toNat) heq
    simp only [Int32.toBitVec_ofNat', BitVec.toNat_ofNat] at hnat
    rwa [Nat.mod_eq_of_lt (List.mem_range.mp ha), Nat.mod_eq_of_lt (List.mem_range.mp hb)] at hnat
  have hle := (List.subperm_of_subset hnodup hsubset).length_le
  rw [List.length_map, List.length_range] at hle
  omega

/-- Field ids for the names, apart from each other and from `ids`. -/
theorem exists_freshIds {ids : List Int32} (hids : ids.Nodup) {names : List Text}
    (hnames : names.Nodup) (hroom : names.length + ids.length ≤ 2 ^ 32) :
    ∃ fresh : Text → Int32, (names.map fresh ++ ids).Nodup := by
  induction names with
  | nil => exact ⟨fun _ => 0, hids⟩
  | cons name names ih =>
      obtain ⟨hname, hnames⟩ := List.nodup_cons.mp hnames
      rw [List.length_cons] at hroom
      obtain ⟨fresh, hfresh⟩ := ih hnames (by omega)
      have hused : (names.map fresh ++ ids).length < 2 ^ 32 := by
        rw [List.length_append, List.length_map]
        omega
      obtain ⟨id, hid⟩ := exists_freshId hused
      refine ⟨Function.update fresh name id, ?_⟩
      have hsame : names.map (Function.update fresh name id) = names.map fresh :=
        List.map_congr_left fun other hother =>
          Function.update_of_ne (ne_of_mem_of_not_mem hother hname) _ _
      rw [List.map_cons, Function.update_self, hsame]
      exact List.nodup_cons.mpr ⟨hid, hfresh⟩

/-- The column of a name, and the column that a field id stands for, in a table without nested
columns. -/
def nameColumn (fresh : Text → Int32) (type : PrimitiveType) (name : Text) : NestedField :=
  .mk (fresh name) name false (.primitive type)

def idColumn (names : List Text) (type : PrimitiveType) (id : Int32) : NestedField :=
  .mk id (freshName names id) false (.primitive type)

/-- The columns of the names, and those that the field ids stand for. -/
def flatColumns (names : List Text) (ids : List Int32) (fresh idOf : Text → Int32)
    (typeOf : Int32 → PrimitiveType) : List NestedField :=
  (names.map fun name => nameColumn fresh (typeOf (idOf name)) name) ++
    ids.map fun id => idColumn names (typeOf id) id

section

variable {names : List Text} {ids : List Int32} {fresh idOf : Text → Int32}
  {typeOf : Int32 → PrimitiveType}

theorem flatColumns_ids (h : (names.map fresh ++ ids).Nodup) :
    ((flatColumns names ids fresh idOf typeOf).map NestedField.id).Nodup := by
  have hids : ids.map (NestedField.id ∘ fun id => idColumn names (typeOf id) id) = ids :=
    List.map_id ids
  rw [flatColumns, List.map_append, List.map_map, List.map_map, hids]
  exact h

theorem flatColumns_names (hnames : names.Nodup) (hids : ids.Nodup) :
    ((flatColumns names ids fresh idOf typeOf).map NestedField.name).Nodup := by
  have hsame : names.map (NestedField.name ∘
      fun name => nameColumn fresh (typeOf (idOf name)) name) = names := List.map_id names
  rw [flatColumns, List.map_append, List.map_map, List.map_map, hsame]
  have hfreshNames := hids.map fun a b (h : freshName names a = freshName names b) =>
    freshName_inj h
  refine List.Nodup.append hnames hfreshNames fun name hname hfresh => ?_
  obtain ⟨id, -, heq⟩ := List.mem_map.mp hfresh
  exact freshName_ne hname id heq

theorem nameColumn_mem {name : Text} (h : name ∈ names) :
    nameColumn fresh (typeOf (idOf name)) name ∈ flatColumns names ids fresh idOf typeOf :=
  List.mem_append_left _ (List.mem_map.mpr ⟨name, h, rfl⟩)

theorem idColumn_mem {id : Int32} (h : id ∈ ids) :
    idColumn names (typeOf id) id ∈ flatColumns names ids fresh idOf typeOf :=
  List.mem_append_right _ (List.mem_map.mpr ⟨id, h, rfl⟩)

end

/-- Where there are ids for them, columns that can be typed are the columns of a table without
nested ones, each under its own name. -/
theorem exists_flat {nodes : List ColumnNode} {idOf : Text → Int32}
    {typeOf : Int32 → PrimitiveType}
    (hbindable : ∀ node ∈ nodes, validateColumn node.op node.kind node.members = .ok ())
    (htyped : ∀ node ∈ nodes, ∀ id,
      (node.op.operand node.members).toOption.bind (Operand.idBy idOf) = some id →
        TakesAll x node (typeOf id))
    (hroom : nodes.length ≤ 2 ^ 31) :
    ∃ fields hids hnames, ∀ node ∈ nodes,
      (plannedAtom x (Schema.flat fields hids hnames) .sensitive node).isSome := by
  let names := ((operandsOf nodes).filterMap Operand.spelled).dedup
  let ids := ((operandsOf nodes).filterMap Operand.numbered).dedup
  have hbound : names.length + ids.length ≤ 2 ^ 32 := by
    have hnames : names.length ≤ nodes.length := (List.dedup_sublist _).length_le.trans
      ((List.length_filterMap_le ..).trans (List.length_filterMap_le ..))
    have hids : ids.length ≤ nodes.length := (List.dedup_sublist _).length_le.trans
      ((List.length_filterMap_le ..).trans (List.length_filterMap_le ..))
    omega
  have hnodupNames : names.Nodup := List.nodup_dedup _
  have hnodupIds : ids.Nodup := List.nodup_dedup _
  obtain ⟨fresh, hfresh⟩ := exists_freshIds hnodupIds hnodupNames hbound
  have hids : ((flatColumns names ids fresh idOf typeOf).map NestedField.id).Nodup :=
    flatColumns_ids hfresh
  have hnames : ((flatColumns names ids fresh idOf typeOf).map NestedField.name).Nodup :=
    flatColumns_names hnodupNames hnodupIds
  refine ⟨_, hids, hnames, fun node hnode => ?_⟩
  obtain ⟨⟨operand, hoperand, hnot⟩, -⟩ := validateColumn_eq_ok.mp (hbindable node hnode)
  have hmem := mem_operandsOf hnode hoperand
  rw [plannedAtom_isSome]
  intro hnone
  cases operand with
  | named name =>
      have hname : name ∈ names :=
        List.mem_dedup.mpr (List.mem_filterMap.mpr ⟨.named name, hmem, rfl⟩)
      refine hnone (nameColumn fresh (typeOf (idOf name)) name) ?_ ((fits_primitive rfl).mpr
        (htyped node hnode (idOf name) (by rw [hoperand]; rfl)))
      rw [enforcedField, hoperand]
      exact Schema.flat_fieldByName (nameColumn_mem hname)
  | id fieldId =>
      have hid : fieldId ∈ ids :=
        List.mem_dedup.mpr (List.mem_filterMap.mpr ⟨.id fieldId, hmem, rfl⟩)
      refine hnone (idColumn names (typeOf fieldId) fieldId) ?_ ((fits_primitive rfl).mpr
        (htyped node hnode fieldId (by rw [hoperand]; rfl)))
      have hname : (Schema.flat _ hids hnames).nameByFieldId fieldId =
          some (idColumn names (typeOf fieldId) fieldId).name :=
        Schema.flat_nameByFieldId (idColumn_mem hid)
      rw [enforcedField, hoperand]
      dsimp only [Operand.resolve]
      rw [hname]
      exact Schema.flat_fieldByName (idColumn_mem hid)
  | unbindable => exact absurd rfl hnot

variable {schema : Schema} {case : CaseSensitivity}

/-- The column of a node that is bound, and the operand that names it. -/
theorem planned_field {node : ColumnNode} (h : (plannedAtom x schema case node).isSome) :
    ∃ operand name field, node.op.operand node.members = .ok operand ∧
      operand.resolve schema = .ok (some name) ∧ schema.lookup case name = some field ∧
      Fits x node field := by
  rcases plannedAtom_cases x schema case node with ⟨hnone, -⟩ | ⟨field, _, _, hfield, hfits, -⟩
  · rw [hnone] at h
    cases h
  · unfold enforcedField at hfield
    cases hoperand : node.op.operand node.members with
    | error e =>
        rw [hoperand] at hfield
        cases hfield
    | ok operand =>
        rw [hoperand] at hfield
        dsimp only at hfield
        rcases hresolve : operand.resolve schema with e | _ | name
        · rw [hresolve] at hfield
          cases hfield
        · rw [hresolve] at hfield
          cases hfield
        · rw [hresolve] at hfield
          exact ⟨operand, name, field, rfl, hresolve, hfield, hfits⟩

theorem validateColumn_of_planned {node : ColumnNode}
    (h : (plannedAtom x schema case node).isSome) :
    validateColumn node.op node.kind node.members = .ok () := by
  obtain ⟨operand, name, field, hoperand, hresolve, -, hfits⟩ := planned_field h
  refine validateColumn_eq_ok.mpr ⟨⟨operand, hoperand, ?_⟩, hasValue_of_fits x hfits⟩
  rintro rfl
  cases hresolve

/-- The type of the column with a field id, `boolean` where it has none. -/
def Schema.typeById (schema : Schema) (id : Int32) : PrimitiveType :=
  match (schema.fieldById id).map NestedField.fieldType with
  | some (.primitive primitive) => primitive
  | _ => .boolean

/-- A table's own columns are a typing of what it binds. -/
theorem takesAll_of_planned {node : ColumnNode} {id : Int32}
    (h : (plannedAtom x schema .sensitive node).isSome)
    (hid : (node.op.operand node.members).toOption.bind
      (Operand.idBy fun name => ((schema.fieldByName name).map NestedField.id).getD 0) = some id) :
    TakesAll x node (schema.typeById id) := by
  obtain ⟨operand, name, field, hoperand, hresolve, hlookup, hfits⟩ := planned_field h
  rw [hoperand] at hid
  have hfield : schema.fieldById id = some field := by
    cases operand with
    | named name' =>
        obtain rfl : name' = name := Option.some.inj (Except.ok.inj hresolve)
        have hname : schema.fieldByName name' = some field := hlookup
        have hidname : ((schema.fieldByName name').map NestedField.id).getD 0 = id :=
          Option.some.inj hid
        rw [hname] at hidname
        rw [← hidname]
        exact schema.fieldById_fieldByName name' field hname
    | id fieldId =>
        obtain rfl : fieldId = id := Option.some.inj hid
        dsimp only [Operand.resolve] at hresolve
        cases hname : schema.nameByFieldId fieldId with
        | none =>
            rw [hname] at hresolve
            cases hresolve
        | some name' =>
            rw [hname] at hresolve
            obtain rfl : name' = name := Option.some.inj (Except.ok.inj hresolve)
            rw [← schema.fieldByName_nameByFieldId fieldId name' hname]
            exact hlookup
    | unbindable => cases hresolve
  unfold Schema.typeById
  rw [hfield, Option.map_some]
  cases htype : field.fieldType with
  | primitive primitive => exact (fits_primitive htype).mp hfits
  | _ =>
      refine takesAll_of_fits (fun primitive hprimitive => ?_) hfits _
      rw [htype] at hprimitive
      cases hprimitive

theorem parse_eq_ok {filter : Json} :
    (∃ p, parsePolicyPredicate x schema case filter = .ok p) ↔
      (shapeOf filter).Holeless ∧
        ∀ node ∈ (shapeOf filter).atoms, (plannedAtom x schema case node).isSome := by
  rw [← Formula.traverse_isSome (K := Empty), ← Option.isSome_map (f := x.build),
    ← parse_shape x schema case true,
    ← parsePolicyPredicate]
  cases parsePolicyPredicate x schema case filter with
  | error e => exact iff_of_false Except.error_ne_ok Bool.false_ne_true
  | ok p => exact iff_of_true ⟨p, rfl⟩ rfl

end

/-- Whatever binds installs, and what installs binds to some table where the
filter's columns can be typed: to one without nested columns, unless it asks about more
columns than such a table has. -/
theorem installs_iff_binds (x : IcebergExpr) (filter : Json) :
    (∀ schema case p, parsePolicyPredicate x schema case filter = .ok p →
      validatePolicyFilter filter = .ok ()) ∧
    ((validatePolicyFilter filter = .ok () ↔
        ∃ schema p, parsePolicyPredicate x schema .sensitive filter = .ok p) ↔
      (validatePolicyFilter filter = .ok () → Typable x filter)) ∧
    (validatePolicyFilter filter = .ok () → Typable x filter →
      (shapeOf filter).atoms.length ≤ 2 ^ 31 → ∃ fields hids hnames p,
        parsePolicyPredicate x (Schema.flat fields hids hnames) .sensitive filter = .ok p) := by
  have hbinds : ∀ schema case p, parsePolicyPredicate x schema case filter = .ok p →
      validatePolicyFilter filter = .ok () := by
    intro schema case p hp
    obtain ⟨hwhole, hplanned⟩ := parse_eq_ok.mp ⟨p, hp⟩
    exact (validatePolicyFilter_eq_ok filter).mpr
      ⟨hwhole, fun node hnode => validateColumn_of_planned (hplanned node hnode)⟩
  refine ⟨hbinds, ⟨fun h hinstalls => ?_, fun h => ⟨fun hinstalls => ?_, ?_⟩⟩,
    fun hinstalls ⟨idOf, typeOf, htyped⟩ hroom => ?_⟩
  · obtain ⟨schema, p, hp⟩ := h.mp hinstalls
    obtain ⟨-, hplanned⟩ := parse_eq_ok.mp ⟨p, hp⟩
    exact ⟨_, schema.typeById, fun node hnode id hid =>
      takesAll_of_planned (hplanned node hnode) hid⟩
  · obtain ⟨hwhole, hcolumns⟩ := (validatePolicyFilter_eq_ok filter).mp hinstalls
    obtain ⟨idOf, typeOf, htyped⟩ := h hinstalls
    obtain ⟨schema, hschema⟩ := exists_schema hcolumns htyped
    exact ⟨schema, parse_eq_ok.mpr ⟨hwhole, hschema⟩⟩
  · rintro ⟨schema, p, hp⟩
    exact hbinds schema .sensitive p hp
  · obtain ⟨hwhole, hcolumns⟩ := (validatePolicyFilter_eq_ok filter).mp hinstalls
    obtain ⟨fields, hids, hnames, hflat⟩ := exists_flat hcolumns htyped hroom
    obtain ⟨p, hp⟩ := parse_eq_ok.mpr ⟨hwhole, hflat⟩
    exact ⟨fields, hids, hnames, p, hp⟩

/-- `{"type":"in","term":"region","values":"EU"}` -/
def regionInText : Json :=
  .of [("type", .str "in"), ("term", .str "region"), ("values", .str "EU")]

def regionInNode : ColumnNode :=
  ⟨.set .isIn, "in".toList,
    Json.fields [("type", .str "in"), ("term", .str "region"), ("values", .str "EU")]⟩

theorem shapeOf_regionInText : shapeOf regionInText = .atom regionInNode :=
  shapeOf_column (by decide) rfl

/-- A set that is no array installs, and no table binds it. -/
theorem installed_unbindable :
    validatePolicyFilter regionInText = .ok () ∧
      ∀ (x : IcebergExpr) (schema : Schema) (case : CaseSensitivity),
        ∃ e, parsePolicyPredicate x schema case regionInText = .error e := by
  constructor
  · rw [validatePolicyFilter_eq_ok, shapeOf_regionInText]
    refine ⟨trivial, fun node hnode => ?_⟩
    obtain rfl := List.mem_singleton.mp hnode
    rfl
  · intro x schema case
    rw [parse_error_iff, RefusedByPlan, shapeOf_regionInText]
    refine .inr ⟨_, List.mem_singleton_self _, fun field _ hfits => ?_⟩
    have htakes : ∃ primitive, TakesAll x regionInNode primitive := by
      cases htype : field.fieldType with
      | primitive primitive => exact ⟨primitive, (fits_primitive htype).mp hfits⟩
      | _ =>
          refine ⟨.boolean, takesAll_of_fits (fun primitive hprimitive => ?_) hfits _⟩
          rw [htype] at hprimitive
          cases hprimitive
    obtain ⟨primitive, ⟨literals, hliterals, -⟩, -⟩ := htakes
    cases hliterals

end Rustberg.Query
