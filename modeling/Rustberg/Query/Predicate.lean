import Rustberg.Query.Schema
import Rustberg.Base.Json
import Rustberg.Error

/-!
# Reading a filter

`predicate.rs`: the JSON predicate of the REST specification, read against a
schema into a predicate of `iceberg::expr`. The crate enters as
`IcebergExpr`, its predicates and its literals.

A term that cannot be bound is widened in a client's filter and refused in
a policy's (`Strictness`); a malformed one is refused in both.
-/

namespace Rustberg.Query

inductive CaseSensitivity where
  | sensitive
  | insensitive
  deriving DecidableEq, Repr

def CaseSensitivity.fromFlag (caseSensitive : Bool) : CaseSensitivity :=
  if caseSensitive then .sensitive else .insensitive

inductive Strictness where
  /-- Widen it: a filter the client sent. -/
  | widen
  /-- Refuse it: a policy's row filter. -/
  | bindable
  deriving DecidableEq, Repr

/-! ## The operators -/

inductive UnaryOp where
  | isNull
  | notNull
  | isNan
  | notNan
  deriving DecidableEq, Repr

inductive ComparisonOp where
  | lt
  | ltEq
  | gt
  | gtEq
  | eq
  | notEq
  | startsWith
  | notStartsWith
  deriving DecidableEq, Repr

inductive SetOp where
  | isIn
  | notIn
  deriving DecidableEq, Repr

/-- The operators on one column. -/
inductive ColumnOp where
  | unary (op : UnaryOp)
  | comparison (op : ComparisonOp)
  | set (op : SetOp)
  deriving DecidableEq, Repr

inductive Junction where
  | and
  | or
  deriving DecidableEq, Repr

/-- What the `type` of an expression says it is. -/
inductive FilterKind where
  | constant (value : Bool)
  | junction (op : Junction)
  | not
  | column (op : ColumnOp)
  | other
  deriving DecidableEq, Repr

def filterKinds : List (Text × FilterKind) :=
  [("true".toList, .constant true), ("false".toList, .constant false),
    ("and".toList, .junction .and), ("or".toList, .junction .or), ("not".toList, .not),
    ("is-null".toList, .column (.unary .isNull)), ("not-null".toList, .column (.unary .notNull)),
    ("is-nan".toList, .column (.unary .isNan)), ("not-nan".toList, .column (.unary .notNan)),
    ("lt".toList, .column (.comparison .lt)), ("lt-eq".toList, .column (.comparison .ltEq)),
    ("gt".toList, .column (.comparison .gt)), ("gt-eq".toList, .column (.comparison .gtEq)),
    ("eq".toList, .column (.comparison .eq)), ("not-eq".toList, .column (.comparison .notEq)),
    ("starts-with".toList, .column (.comparison .startsWith)),
    ("not-starts-with".toList, .column (.comparison .notStartsWith)),
    ("in".toList, .column (.set .isIn)), ("not-in".toList, .column (.set .notIn))]

def FilterKind.ofText (kind : Text) : FilterKind := (filterKinds.lookup kind).getD .other

/-- A predicate on one column, which `R` refers to. -/
inductive Atom (R Datum : Type) where
  | unary (op : UnaryOp) (column : R)
  | comparison (op : ComparisonOp) (column : R) (datum : Datum)
  | set (op : SetOp) (column : R) (datums : List Datum)
  deriving DecidableEq

namespace Atom

variable {R S Datum : Type}

def column : Atom R Datum → R
  | unary _ column => column
  | comparison _ column _ => column
  | set _ column _ => column

/-- The same predicate on the column `s`. -/
def on (s : S) : Atom R Datum → Atom S Datum
  | unary op _ => unary op s
  | comparison op _ datum => comparison op s datum
  | set op _ datums => set op s datums

end Atom

/-- What is used of `iceberg::expr`, of `Datum`, and of the date and time
parsers behind it. -/
structure IcebergExpr where
  Predicate : Type
  Datum : Type
  alwaysTrue : Predicate
  alwaysFalse : Predicate
  and : Predicate → Predicate → Predicate
  or : Predicate → Predicate → Predicate
  negate : Predicate → Predicate
  /-- `Reference::new(name)` with one of its operators. -/
  ofAtom : Atom Text Datum → Predicate
  bool : Bool → Datum
  int : Int32 → Datum
  long : Int → Datum
  /-- Of a number's 64-bit float, rounded to 32 bits. -/
  float : JsonNumber → Datum
  double : JsonNumber → Datum
  string : Text → Datum
  uuidFromStr : Text → Except Error Datum
  dateFromStr : Text → Except Error Datum
  date : Int32 → Datum
  timeFromStr : Text → Except Error Datum
  timestampFromStr : Text → Except Error Datum
  timestampMicros : Int → Datum
  timestamptzFromStr : Text → Except Error Datum
  timestamptzMicros : Int → Datum
  timestampNanos : Int → Datum
  timestamptzNanos : Int → Datum
  decimalFromStr : Text → Except Error Datum
  /-- `Datum::to` -/
  convertTo : Datum → PrimitiveType → Except Error Datum
  fixed : List UInt8 → Datum
  binary : List UInt8 → Datum
  /-- `NaiveDateTime::parse`, then `timestamp_nanos_opt`. -/
  parseNaive : Text → Except Text (Option Int)
  /-- `DateTime::parse_from_rfc3339`, then `timestamp_nanos_opt`. -/
  parseOffset : Text → Except Text (Option Int)
  displayType : PrimitiveType → Text
  displayJson : Json → Text

/-- A `DataInvalid` error. -/
def invalid (message : Text) : Error := ⟨.dataInvalid, message⟩

/-! ## Literals -/

def hexDigit (c : Char) : Option Nat :=
  if '0' ≤ c ∧ c ≤ '9' then some (c.toNat - '0'.toNat)
  else if 'a' ≤ c ∧ c ≤ 'f' then some (c.toNat - 'a'.toNat + 10)
  else if 'A' ≤ c ∧ c ≤ 'F' then some (c.toNat - 'A'.toNat + 10)
  else none

/-- `u8::from_str_radix` on two bytes, which admits a sign. -/
def byteOfHex (high low : Char) : Option UInt8 :=
  if high = '+' then (hexDigit low).map UInt8.ofNat
  else do return UInt8.ofNat ((← hexDigit high) * 16 + (← hexDigit low))

/-- The slices of two bytes each, in order. One that cuts a character panics,
which ends the request without an answer. -/
def hexBytes : Text → Except Error (List UInt8)
  | [] => .ok []
  | c :: rest =>
      if c.utf8Size = 2 then .error (invalid "a binary literal is not hex".toList)
      else match c.utf8Size, rest with
      | 1, d :: rest =>
          if d.utf8Size = 1 then
            match byteOfHex c d with
            | some byte => do return byte :: (← hexBytes rest)
            | none => .error (invalid "a binary literal is not hex".toList)
          else .error ⟨.unexpected, "panicked at a char boundary".toList⟩
      | _, _ => .error ⟨.unexpected, "panicked at a char boundary".toList⟩

def fromHex (text : Text) : Except Error (List UInt8) :=
  if text.len % 2 ≠ 0 then
    .error (invalid "a binary literal must have an even number of hex digits".toList)
  else hexBytes text

section

variable (x : IcebergExpr)

/-- The nanoseconds of a parsed timestamp. -/
def nanosOf (what : String) (parsed : Except Text (Option Int)) : Except Error Int :=
  match parsed with
  | .error e => .error (invalid (what.toList ++ " literal is not a timestamp: ".toList ++ e))
  | .ok none =>
      .error (invalid (what.toList ++ " literal is outside the range nanoseconds hold".toList))
  | .ok (some nanos) => .ok nanos

def nanosFromNaive (text : Text) : Except Error Int := nanosOf "a timestamp_ns" (x.parseNaive text)

def nanosFromOffset (text : Text) : Except Error Int :=
  nanosOf "a timestamptz_ns" (x.parseOffset text)

/-- `i32::try_from` -/
def toI32 (n : Int) : Option Int32 :=
  if -2 ^ 31 ≤ n ∧ n < 2 ^ 31 then some (Int32.ofInt n) else none

/-- A temporal column's literal: a string, or the count it stands for. -/
def temporalFromJson (value : Json) (fromStr : Text → Except Error x.Datum)
    (fromCount : Int → Option x.Datum) (wrong : Error) : Except Error x.Datum :=
  match value with
  | .string text => fromStr text
  | .number _ => (value.asI64.bind fromCount).elim (.error wrong) .ok
  | _ => .error wrong

def datumFromJson (value : Json) (primitive : PrimitiveType) : Except Error x.Datum :=
  let wrong (expected : String) : Error :=
    invalid ("a filter literal for a ".toList ++ x.displayType primitive ++
      " column must be ".toList ++ expected.toList ++ ", got ".toList ++ x.displayJson value)
  let orWrong (datum : Option x.Datum) (expected : String) : Except Error x.Datum :=
    datum.elim (.error (wrong expected)) .ok
  let fromStr (parse : Text → Except Error x.Datum) (expected : String) : Except Error x.Datum :=
    value.asStr.elim (.error (wrong expected)) parse
  match primitive with
  | .boolean => orWrong (value.asBool.map x.bool) "a boolean"
  | .int => orWrong ((value.asI64.bind toI32).map x.int) "a 32-bit integer"
  | .long => orWrong (value.asI64.map x.long) "an integer"
  | .float => orWrong (value.asNumber.map x.float) "a number"
  | .double => orWrong (value.asNumber.map x.double) "a number"
  | .string => orWrong (value.asStr.map x.string) "a string"
  | .uuid => fromStr x.uuidFromStr "a UUID string"
  | .date => temporalFromJson x value x.dateFromStr (fun n => (toI32 n).map x.date)
      (wrong "a date string or a day count")
  | .time => fromStr x.timeFromStr "a time string"
  | .timestamp => temporalFromJson x value x.timestampFromStr (fun n => some (x.timestampMicros n))
      (wrong "a timestamp string or microseconds")
  | .timestamptz => temporalFromJson x value x.timestamptzFromStr
      (fun n => some (x.timestamptzMicros n)) (wrong "a timestamp string or microseconds")
  | .timestampNs =>
      (temporalFromJson x value (fun text => (nanosFromNaive x text).map x.timestampNanos)
        (fun n => some (x.timestampNanos n)) (wrong "a timestamp string or nanoseconds")).mapError
          fun _ => wrong "a timestamp string or nanoseconds"
  | .timestamptzNs =>
      (temporalFromJson x value (fun text => (nanosFromOffset x text).map x.timestamptzNanos)
        (fun n => some (x.timestamptzNanos n)) (wrong "a timestamp string or nanoseconds")).mapError
          fun _ => wrong "a timestamp string or nanoseconds"
  | .decimal precision scale => do
      let datum ← fromStr x.decimalFromStr "a decimal string"
      x.convertTo datum (.decimal precision scale)
  | .fixed _ => fromStr (fun text => (fromHex text).map x.fixed) "a hex string"
  | .binary => fromStr (fun text => (fromHex text).map x.binary) "a hex string"

/-- The primitive type of a field a filter may compare against. -/
def primitiveType (field : NestedField) : Except Error PrimitiveType :=
  match field.fieldType with
  | .primitive primitive => .ok primitive
  | _ => .error (invalid ("the filter compares '".toList ++ field.name ++
      "', which is not a primitive column".toList))

/-- Whether an object says it is of the given type. -/
def hasType (members : List (Text × Json)) (kind : String) : Bool :=
  (Json.get members "type".toList).bind Json.asStr == some kind.toList

def parseLiteral (value : Json) (field : NestedField) : Except Error x.Datum := do
  let primitive ← primitiveType field
  match value with
  | .object members =>
      if hasType members "literal" then
        match Json.get members "value".toList with
        | some inner => datumFromJson x inner primitive
        | none => .error (invalid "a literal object needs a 'value'".toList)
      else datumFromJson x value primitive
  | _ => datumFromJson x value primitive

def parseLiterals (value : Json) (field : NestedField) : Except Error (List x.Datum) := do
  let primitive ← primitiveType field
  let values ← match value with
    | .array items => .ok items
    | .object members =>
        match (Json.get members "values".toList).bind Json.asArray with
        | some items => .ok items
        | none => .error (invalid "a literals object needs 'values'".toList)
    | _ => .error (invalid "a set predicate's values must be an array".toList)
  values.mapM fun value => datumFromJson x value primitive

/-! ## Operands -/

/-- What a filter operand refers to. -/
inductive Operand where
  | named (name : Text)
  | id (id : Int32)
  | unbindable
  deriving DecidableEq, Repr

/-- The column name, a field id resolved against the schema; `none` for a term
that cannot be bound. -/
def Operand.resolve (schema : Schema) : Operand → Except Error (Option Text)
  | .named name => .ok (some name)
  | .id fieldId => match schema.nameByFieldId fieldId with
      | some name => .ok (some name)
      | none =>
          .error (invalid ("the filter references field id ".toList ++ Text.integer fieldId.toInt ++
          ", which this table has no".toList))
  | .unbindable => .ok none

def notAnOperand : Error := invalid "a filter operand must be a field name or a reference".toList

def referenceOperand : Json → Except Error Operand
  | .string name => .ok (.named name)
  | .object members =>
      if hasType members "reference" then
        match (Json.get members "name".toList).bind Json.asStr with
        | some name => .ok (.named name)
        | none =>
            match (Json.get members "id".toList).bind Json.asI64 with
            | none => .error (invalid "a reference needs a 'name' or an 'id'".toList)
            | some id => match toI32 id with
                | some id => .ok (.id id)
                | none => .error (invalid ("field id ".toList ++ Text.integer id ++
                    " is out of range".toList))
      else if hasType members "transform" || hasType members "apply" then .ok .unbindable
      else .error notAnOperand
  | _ => .error notAnOperand

/-- The value under the first key that is there. -/
def firstOf (members : List (Text × Json)) (key key' : String) : Option Json :=
  (Json.get members key.toList).or (Json.get members key'.toList)

def operandOf (members : List (Text × Json)) : Except Error Operand :=
  match firstOf members "child" "term" with
  | some operand => referenceOperand operand
  | none => .error (invalid "a filter expression needs an operand".toList)

def comparisonOperandOf (members : List (Text × Json)) : Except Error Operand :=
  match firstOf members "left" "term" with
  | some operand => referenceOperand operand
  | none => .error (invalid "a comparison needs a left-hand side".toList)

/-- A schema's lookup by name, with or without regard to case. -/
def Schema.lookup (schema : Schema) : CaseSensitivity → Text → Option NestedField
  | .sensitive => schema.fieldByName
  | .insensitive => schema.fieldByNameCaseInsensitive

def fieldNamed (schema : Schema) (name : Text) (case : CaseSensitivity) :
    Except Error NestedField :=
  match schema.lookup case name with
  | some field => .ok field
  | none => .error (invalid ("the filter names '".toList ++ name ++
      "', which this table has no".toList))

/-! ## Expressions -/

variable (schema : Schema) (case : CaseSensitivity)

/-- `'kind'` -/
def quoted (kind : Text) : Text := '\'' :: kind ++ ['\'']

/-- `is-nan` and `not-nan` ask about floating-point values. -/
def checkNan (op : UnaryOp) (kind : Text) (field : NestedField) : Except Error Unit :=
  match op with
  | .isNull | .notNull => .ok ()
  | .isNan | .notNan => do
      let primitive ← primitiveType field
      if primitive = .float ∨ primitive = .double then return ()
      else .error (invalid (quoted kind ++ " applies to a float or double column, and ".toList ++
        quoted field.name ++ " is not one".toList))

/-- The operand an operator reads. -/
def ColumnOp.operand (members : List (Text × Json)) : ColumnOp → Except Error Operand
  | .unary _ => operandOf members
  | .comparison _ => comparisonOperandOf members
  | .set _ => operandOf members

/-- The predicate an operator makes of its column and its literals. -/
def ColumnOp.atom (kind : Text) (members : List (Text × Json)) (name : Text) (field : NestedField) :
    ColumnOp → Except Error (Atom Text x.Datum)
  | .unary op => do
      checkNan op kind field
      return .unary op name
  | .comparison op =>
      match firstOf members "right" "value" with
      | none => .error (invalid ("comparison ".toList ++ quoted kind ++ " needs a value".toList))
      | some value => do return .comparison op name (← parseLiteral x value field)
  | .set op =>
      match Json.get members "values".toList with
      | none => .error (invalid (quoted kind ++ " needs 'values'".toList))
      | some values => do return .set op name (← parseLiterals x values field)

/-- The predicate an expression on one column stands for; `none` where its term
cannot be bound. -/
def columnAtom (op : ColumnOp) (kind : Text) (members : List (Text × Json)) :
    Except Error (Option (Atom Text x.Datum)) := do
  match ← (← op.operand members).resolve schema with
  | none => return none
  | some name => do
      let field ← fieldNamed schema name case
      return some (← op.atom x kind members name field)

def IcebergExpr.junction (x : IcebergExpr) : Junction → x.Predicate → x.Predicate → x.Predicate
  | .and => x.and
  | .or => x.or

def IcebergExpr.constant (x : IcebergExpr) (value : Bool) : x.Predicate :=
  if value then x.alwaysTrue else x.alwaysFalse

/-- The value an unbindable part widens to, or the refusal of a restriction
that must not be weakened. -/
def widen (positive : Bool) (strictness : Strictness) (what : Text) : Except Error x.Predicate :=
  match strictness with
  | .widen => .ok (x.constant positive)
  | .bindable => .error (invalid (what ++ (" cannot be bound by this catalog. In a filter that " ++
      "catalog is free to widen; in a policy row filter widening would remove the restriction, " ++
      "so it is refused instead.").toList))

/-- A predicate on one column, or what stands for it where it cannot be bound. -/
def ofAtomOrWiden (positive : Bool) (strictness : Strictness) (kind : Text)
    (atom : Option (Atom Text x.Datum)) : Except Error x.Predicate :=
  match atom with
  | some atom => .ok (x.ofAtom atom)
  | none => widen x positive strictness ("the term of ".toList ++ quoted kind)

/-- One named child of an expression object, which is smaller than the object. -/
def child (members : List (Text × Json)) (name : String) :
    Except Error { value : Json // sizeOf value < sizeOf members } :=
  match h : Json.get members name.toList with
  | some value => .ok ⟨value, Json.sizeOf_get h⟩
  | none => .error (invalid ("a filter expression needs ".toList ++ quoted name.toList))

def kindOf (members : List (Text × Json)) : Except Error Text :=
  match (Json.get members "type".toList).bind Json.asStr with
  | some kind => .ok kind
  | none => .error (invalid "a filter expression needs a 'type'".toList)

/-- One node, knowing whether it sits under an even number of negations. -/
def parseWithPolarity (strictness : Strictness) (positive : Bool) :
    Json → Except Error x.Predicate
  | .bool value => .ok (x.constant value)
  | .object members => do
      let kind ← kindOf members
      match FilterKind.ofText kind with
      | .constant value => return x.constant value
      | .junction op => do
          let ⟨left, _⟩ ← child members "left"
          let left ← parseWithPolarity strictness positive left
          let ⟨right, _⟩ ← child members "right"
          let right ← parseWithPolarity strictness positive right
          return x.junction op left right
      | .not => do
          let ⟨value, _⟩ ← child members "child"
          let value ← parseWithPolarity strictness (!positive) value
          return x.negate value
      | .column op => do
          ofAtomOrWiden x positive strictness kind (← columnAtom x schema case op kind members)
      | .other => widen x positive strictness ("the operator ".toList ++ quoted kind)
  | _ => .error (invalid "a filter must be a boolean or an expression object".toList)
termination_by json => sizeOf json

/-- Reads a client's filter. -/
def parsePredicate (json : Json) : Except Error x.Predicate :=
  parseWithPolarity x schema case .widen true json

/-- Reads a policy's row filter. -/
def parsePolicyPredicate (json : Json) : Except Error x.Predicate :=
  parseWithPolarity x schema case .bindable true json

end

end Rustberg.Query
