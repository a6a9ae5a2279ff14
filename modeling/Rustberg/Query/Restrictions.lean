import Rustberg.Auth.Authz
import Rustberg.Query.Predicate

/-!
# Row filters, published and enforced

A policy's row filters reach a reader twice. `rowFilter` of
`catalog/v1/restrictions.rs` publishes them as one predicate over field
ids, and `policyPredicate` of `catalog/v1/plan.rs` is what planning prunes
by. A filter that either cannot use for this table is the constant false.
-/

namespace Rustberg.Query

open Auth

/-! ## The published predicate -/

/-- A sub-expression, by key. -/
def branch (members : List (Text × Json)) (key : String) :
    Except AppError { value : Json // sizeOf value < sizeOf members } :=
  match h : Json.get members key.toList with
  | some _ => .ok (Json.sized h)
  | none => .error (.forbidden ("A policy row filter is missing ".toList ++ quoted key.toList ++
      ['.']))

/-- The first present operand key. -/
def operand (members : List (Text × Json)) (key key' : String) : Except AppError Json :=
  match firstOf members key key' with
  | some operand => .ok operand
  | none => .error (.forbidden "A policy row filter has no operand.".toList)

section

variable (schema : Schema)

/-- The field id a name stands for. -/
def idOfName (name : Text) : Except AppError Int32 :=
  match (schema.fieldIdByName name).or
      ((schema.fieldByNameCaseInsensitive name).map NestedField.id) with
  | some id => .ok id
  | none => .error (.forbidden ("A policy row filter names ".toList ++ quoted name ++
      ", which this table does not have.".toList))

/-- The field id a column reference stands for. -/
def referencedId : Json → Except AppError Int32
  | .string name => idOfName schema name
  | .object members =>
      if hasType members "reference" then
        match (Json.get members "id".toList).bind Json.asI64 with
        | some id =>
            match toI32 id with
            | none => .error (.forbidden ("Field id ".toList ++ Text.integer id ++
                " is out of range.".toList))
            | some id =>
                if (schema.fieldById id).isNone then
                  .error (.forbidden ("A policy row filter references field id ".toList ++
                    Text.integer id.toInt ++ ", which this table does not have.".toList))
                else .ok id
        | none =>
            match (Json.get members "name".toList).bind Json.asStr with
            | some name => idOfName schema name
            | none => .error (.forbidden
                "A policy row filter reference has neither a name nor an id.".toList)
      else .error (.forbidden ("A policy row filter applies a transform or a function, which " ++
        "read-restrictions cannot express. The table is withheld rather than served with the " ++
        "restriction missing.").toList)
  | _ => .error (.forbidden "A policy row filter operand is not a column reference.".toList)

/-- An `IdReference`. -/
def referenceTo (id : Int32) : Json := .of [("type", .str "reference"), ("id", .ofInt32 id)]

def idReference (value : Json) : Except AppError Json := do
  return referenceTo (← referencedId schema value)

/-- A comparison's right-hand side as a `Literal`. -/
def asLiteral (value : Json) : Json :=
  match value with
  | .object members =>
      if hasType members "literal" then value
      else .of [("type", .str "literal"), ("value", value)]
  | _ => .of [("type", .str "literal"), ("value", value)]

/-- An expression on one column, its column as a field id. -/
def toIdColumn (op : ColumnOp) (kind : Text) (members : List (Text × Json)) :
    Except AppError Json :=
  match op with
  | .unary _ => do
      let child ← idReference schema (← operand members "child" "term")
      return .of [("type", .string kind), ("child", child)]
  | .comparison _ => do
      let left ← idReference schema (← operand members "left" "term")
      match firstOf members "right" "value" with
      | none => .error (.forbidden ("A policy row filter's ".toList ++ quoted kind ++
          " has no value.".toList))
      | some right =>
          return .of [("type", .string kind), ("left", left), ("right", asLiteral right)]
  | .set _ => do
      let child ← idReference schema (← operand members "child" "term")
      match Json.get members "values".toList with
      | none => .error (.forbidden ("A policy row filter's ".toList ++ quoted kind ++
          " has no 'values'.".toList))
      | some values =>
          return .of [("type", .string kind), ("child", child), ("values", values)]

/-- One predicate in the preferred form of the specification, with id references. -/
def toIdPredicate : Json → Except AppError Json
  | .bool flag => .ok (.bool flag)
  | .object members =>
      match (Json.get members "type".toList).bind Json.asStr with
      | none => .error (.forbidden "A policy row filter needs a 'type'.".toList)
      | some kind =>
          match FilterKind.ofText kind with
          | .constant flag => .ok (.bool flag)
          | .junction _ => do
              let ⟨left, _⟩ ← branch members "left"
              let left ← toIdPredicate left
              let ⟨right, _⟩ ← branch members "right"
              let right ← toIdPredicate right
              return .of [("type", .string kind), ("left", left), ("right", right)]
          | .not => do
              let ⟨child, _⟩ ← branch members "child"
              let child ← toIdPredicate child
              return .of [("type", .str "not"), ("child", child)]
          | .column op => toIdColumn schema op kind members
          | .other => .error (.forbidden ("A policy row filter uses ".toList ++ quoted kind ++
              (", which the read-restrictions vocabulary cannot express. The table is withheld " ++
                "rather than served with the restriction missing.").toList))
  | _ => .error (.forbidden "A policy row filter is not a predicate.".toList)
termination_by json => sizeOf json

/-- The disjunction of what has been combined so far and one more filter. -/
def orElse (combined : Option Json) (bound : Json) : Json :=
  match combined with
  | none => bound
  | some left => .of [("type", .str "or"), ("left", left), ("right", bound)]

/-- A filter that cannot be expressed contributes the constant false. -/
def publishedBranch (filter : Json) : Json :=
  match toIdPredicate schema filter with
  | .ok bound => bound
  | .error _ => .bool false

/-- The policy's row filters as one predicate, `none` when there are none. -/
def rowFilter (obligations : Obligations) : Option Json :=
  obligations.rowFilters.foldl
    (fun combined filter => some (orElse combined (publishedBranch schema filter))) none

/-! ## The enforced predicate -/

variable (x : IcebergExpr) (case : CaseSensitivity)

/-- A filter that cannot be bound selects nothing. -/
def enforcedBranch (filter : Json) : x.Predicate :=
  match parsePolicyPredicate x schema case filter with
  | .ok predicate => predicate
  | .error _ => x.alwaysFalse

/-- What policy permits this caller to see, `none` when it permits all. -/
def policyPredicate (obligations : Obligations) : Option x.Predicate :=
  obligations.rowFilters.foldl
    (fun combined filter =>
      some (match combined with
        | some existing => x.or existing (enforcedBranch schema x case filter)
        | none => enforcedBranch schema x case filter)) none

end

end Rustberg.Query
