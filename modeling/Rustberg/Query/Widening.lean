import Rustberg.Base.Formula
import Rustberg.Query.Predicate

/-!
# What widening a filter keeps

`readFilter` reads a JSON filter as a formula, its unbindable nodes as
holes; `parseWithPolarity` builds the widened formula (`parse_widen`) or
refuses the holes (`parse_strict`). `parsePredicate_widens` puts the two
together: a client's filter never loses a row, and a policy's is refused
exactly when it is malformed or has an unbindable node.
-/

namespace Rustberg.Query

open Logic

variable (x : IcebergExpr) (schema : Schema) (case : CaseSensitivity)

/-! ## A filter as a formula -/

/-- The formulas filters stand for; a hole is the node that cannot be bound. -/
abbrev Filter := Formula (Atom Text x.Datum) Json

def ofAtomOrHole (node : Json) (atom : Option (Atom Text x.Datum)) : Filter x :=
  match atom with
  | some atom => .atom atom
  | none => .hole node

def Junction.join {A H : Type} : Junction → Formula A H → Formula A H → Formula A H
  | .and => .and
  | .or => .or

def readFilter : Json → Except Error (Filter x)
  | .bool value => .ok (.const value)
  | .object members => do
      let kind ← kindOf members
      match FilterKind.ofText kind with
      | .constant value => return .const value
      | .junction op => do
          let ⟨left, _⟩ ← child members "left"
          let left ← readFilter left
          let ⟨right, _⟩ ← child members "right"
          let right ← readFilter right
          return op.join left right
      | .not => do
          let ⟨value, _⟩ ← child members "child"
          let value ← readFilter value
          return .not value
      | .column op => do
          return ofAtomOrHole x (.object members) (← columnAtom x schema case op kind members)
      | .other => return .hole (.object members)
  | _ => .error (invalid "a filter must be a boolean or an expression object".toList)
termination_by json => sizeOf json

/-- The predicate built of a formula without holes. -/
def IcebergExpr.build : Formula (Atom Text x.Datum) Empty → x.Predicate
  | .const value => x.constant value
  | .atom atom => x.ofAtom atom
  | .and left right => x.and (IcebergExpr.build left) (IcebergExpr.build right)
  | .or left right => x.or (IcebergExpr.build left) (IcebergExpr.build right)
  | .not value => x.negate (IcebergExpr.build value)

theorem ofAtomOrWiden_widen (positive : Bool) (kind : Text) (node : Json)
    (atom : Option (Atom Text x.Datum)) :
    ofAtomOrWiden x positive .widen kind atom =
      .ok (x.build ((ofAtomOrHole x node atom).widen positive)) := by
  cases atom <;> rfl

theorem build_join (op : Junction) (left right : Formula (Atom Text x.Datum) Empty) :
    x.build (op.join left right) = x.junction op (x.build left) (x.build right) := by
  cases op <;> rfl

theorem widen_join {A H : Type} (positive : Bool) (op : Junction) (left right : Formula A H) :
    (op.join left right).widen positive = op.join (left.widen positive) (right.widen positive) := by
  cases op <;> rfl

/-- The lenient mode builds the widened formula. -/
theorem parse_widen (positive : Bool) : (json : Json) →
    parseWithPolarity x schema case .widen positive json =
      (readFilter x schema case json).map fun f => x.build (f.widen positive)
  | .bool value => by
      simp only [parseWithPolarity, readFilter]
      rfl
  | .null | .number _ | .string _ | .array _ => by
      simp only [parseWithPolarity, readFilter]
      rfl
  | .object members => by
      rw [parseWithPolarity, readFilter]
      cases kindOf members with
      | error e => rfl
      | ok kind =>
          simp only [bind, Except.bind]
          cases FilterKind.ofText kind with
          | constant value => rfl
          | junction op =>
              cases child members "left" with
              | error e => rfl
              | ok left =>
                  obtain ⟨left, hleft⟩ := left
                  dsimp only
                  rw [parse_widen positive left]
                  cases readFilter x schema case left with
                  | error e => rfl
                  | ok f =>
                      cases child members "right" with
                      | error e => rfl
                      | ok right =>
                          obtain ⟨right, hright⟩ := right
                          dsimp only [Except.map]
                          rw [parse_widen positive right]
                          cases readFilter x schema case right with
                          | error e => rfl
                          | ok g =>
                              refine congrArg Except.ok ?_
                              rw [widen_join, build_join]
          | not =>
              cases child members "child" with
              | error e => rfl
              | ok value =>
                  obtain ⟨value, hvalue⟩ := value
                  dsimp only
                  rw [parse_widen (!positive) value]
                  cases readFilter x schema case value <;> rfl
          | column op =>
              dsimp only
              cases columnAtom x schema case op kind members with
              | error e => rfl
              | ok atom => exact ofAtomOrWiden_widen x positive kind (.object members) atom
          | other => rfl
termination_by json => sizeOf json

/-! ## Nodes that cannot be bound -/

/-- Whether an unbindable node occurs: an operator not of the grammar, or a
term that is a transform or a function application. -/
def hasUnbindable : Json → Bool
  | .object members =>
      match kindOf members with
      | .error _ => false
      | .ok kind =>
          match FilterKind.ofText kind with
          | .constant _ => false
          | .junction _ =>
              (match child members "left" with
                | .ok ⟨left, _⟩ => hasUnbindable left
                | .error _ => false) ||
              (match child members "right" with
                | .ok ⟨right, _⟩ => hasUnbindable right
                | .error _ => false)
          | .not =>
              match child members "child" with
              | .ok ⟨value, _⟩ => hasUnbindable value
              | .error _ => false
          | .column op =>
              match op.operand members with
              | .ok .unbindable => true
              | _ => false
          | .other => true
  | _ => false
termination_by json => sizeOf json

theorem resolve_eq_none {operand : Operand} :
    operand.resolve schema = .ok none ↔ operand = .unbindable := by
  cases operand with
  | named name => simp [Operand.resolve]
  | id fieldId =>
      refine iff_of_false (fun h => ?_) (fun h => by cases h)
      unfold Operand.resolve at h
      dsimp only at h
      split at h <;> cases h
  | unbindable => simp [Operand.resolve]

theorem bind_ne_none {α β : Type} {r : Except Error α} {f : α → Except Error (Option β)}
    (hf : ∀ a, f a ≠ .ok none) : (r >>= f) ≠ .ok none := by
  cases r with
  | error e => intro h; cases h
  | ok a => exact hf a

theorem columnAtom_eq_none {op : ColumnOp} {kind : Text} {members : List (Text × Json)} :
    columnAtom x schema case op kind members = .ok none ↔
      op.operand members = .ok .unbindable := by
  unfold columnAtom
  cases op.operand members with
  | error e => exact iff_of_false (fun h => by cases h) (fun h => by cases h)
  | ok operand =>
      rw [Except.ok.injEq, ← resolve_eq_none schema]
      change (operand.resolve schema >>= _) = _ ↔ _
      rcases operand.resolve schema with e | _ | name
      · exact iff_of_false (fun h => by cases h) (fun h => by cases h)
      · exact iff_of_true rfl rfl
      · refine iff_of_false ?_ (fun h => by cases h)
        refine bind_ne_none (r := fieldNamed schema name case) fun field => ?_
        refine bind_ne_none fun atom h => ?_
        cases h

/-- Without an unbindable node the two modes are one. -/
theorem parse_of_bindable (positive : Bool) : (json : Json) → hasUnbindable json = false →
    parseWithPolarity x schema case .bindable positive json =
      parseWithPolarity x schema case .widen positive json
  | .bool value, _ => by simp only [parseWithPolarity]
  | .null, _ | .number _, _ | .string _, _ | .array _, _ => by simp only [parseWithPolarity]
  | .object members, h => by
      rw [hasUnbindable] at h
      rw [parseWithPolarity, parseWithPolarity]
      cases hkind : kindOf members with
      | error e => rfl
      | ok kind =>
          rw [hkind] at h
          simp only [bind, Except.bind]
          cases hof : FilterKind.ofText kind with
          | constant value => rfl
          | junction op =>
              simp only [hof] at h
              obtain ⟨hleft, hright⟩ := Bool.or_eq_false_iff.mp h
              cases hchild : child members "left" with
              | error e => rfl
              | ok left =>
                  obtain ⟨left, hlt⟩ := left
                  rw [hchild] at hleft
                  dsimp only
                  rw [parse_of_bindable positive left hleft]
                  cases parseWithPolarity x schema case .widen positive left with
                  | error e => rfl
                  | ok p =>
                      cases hchild' : child members "right" with
                      | error e => rfl
                      | ok right =>
                          obtain ⟨right, hlt'⟩ := right
                          rw [hchild'] at hright
                          dsimp only
                          rw [parse_of_bindable positive right hright]
          | not =>
              cases hchild : child members "child" with
              | error e => rfl
              | ok value =>
                  obtain ⟨value, hlt⟩ := value
                  simp only [hof, hchild] at h
                  dsimp only
                  rw [parse_of_bindable (!positive) value h]
          | column op =>
              simp only [hof] at h
              dsimp only
              cases hatom : columnAtom x schema case op kind members with
              | error e => rfl
              | ok atom =>
                  cases atom with
                  | none =>
                      rw [columnAtom_eq_none] at hatom
                      rw [hatom] at h
                      cases h
                  | some atom => rfl
          | other =>
              simp only [hof] at h
              cases h
termination_by json => sizeOf json

/-- What the strict mode reads has no unbindable node. -/
theorem bindable_of_parse (positive : Bool) : (json : Json) → (p : x.Predicate) →
    parseWithPolarity x schema case .bindable positive json = .ok p → hasUnbindable json = false
  | .bool value, _, _ => by rw [hasUnbindable]; intro members h; cases h
  | .null, _, _ | .number _, _, _ | .string _, _, _ | .array _, _, _ => by
      rw [hasUnbindable]
      intro members h
      cases h
  | .object members, p, h => by
      rw [parseWithPolarity] at h
      rw [hasUnbindable]
      cases hkind : kindOf members with
      | error e => rfl
      | ok kind =>
          rw [hkind] at h
          simp only [bind, Except.bind] at h
          dsimp only
          cases hof : FilterKind.ofText kind with
          | constant value => rfl
          | junction op =>
              rw [hof] at h
              dsimp only at h ⊢
              cases hleft : child members "left" with
              | error e =>
                  rw [hleft] at h
                  cases h
              | ok left =>
                  obtain ⟨left, hlt⟩ := left
                  rw [hleft] at h
                  dsimp only at h
                  cases hp : parseWithPolarity x schema case .bindable positive left with
                  | error e =>
                      rw [hp] at h
                      cases h
                  | ok p =>
                      rw [hp] at h
                      dsimp only at h
                      cases hright : child members "right" with
                      | error e =>
                          rw [hright] at h
                          cases h
                      | ok right =>
                          obtain ⟨right, hlt'⟩ := right
                          rw [hright] at h
                          dsimp only at h
                          cases hq : parseWithPolarity x schema case .bindable positive right with
                          | error e =>
                              rw [hq] at h
                              cases h
                          | ok q =>
                              exact Bool.or_eq_false_iff.mpr ⟨bindable_of_parse positive left p hp,
                                bindable_of_parse positive right q hq⟩
          | not =>
              rw [hof] at h
              dsimp only at h ⊢
              cases hchild : child members "child" with
              | error e => rfl
              | ok value =>
                  obtain ⟨value, hlt⟩ := value
                  rw [hchild] at h
                  dsimp only at h
                  cases hp : parseWithPolarity x schema case .bindable (!positive) value with
                  | error e =>
                      rw [hp] at h
                      cases h
                  | ok p => exact bindable_of_parse (!positive) value p hp
          | column op =>
              rw [hof] at h
              dsimp only at h ⊢
              split
              · next hop =>
                  rw [(columnAtom_eq_none x schema case).mpr hop] at h
                  cases h
              · rfl
          | other =>
              rw [hof] at h
              cases h
termination_by json => sizeOf json

/-! ## Rows -/

/-- A reading of predicates on one row, under which `and`, `or` and `negate`
mean what they are documented to mean. -/
structure IcebergExpr.Sound (value : x.Predicate → Truth) : Prop where
  alwaysTrue : value x.alwaysTrue = .yes
  alwaysFalse : value x.alwaysFalse = .no
  and : ∀ p q, value (x.and p q) = value p ⊓ value q
  or : ∀ p q, value (x.or p q) = value p ⊔ value q
  negate : ∀ p, value (x.negate p) = (value p).not

variable {x}

/-- What a filter says of a row, whatever its unbindable nodes say. -/
def meaning (value : x.Predicate → Truth) (unbound : Json → Truth) (f : Filter x) : Truth :=
  f.eval Truth.not (fun atom => value (x.ofAtom atom)) unbound

theorem IcebergExpr.Sound.build {value : x.Predicate → Truth} (h : x.Sound value)
    (f : Formula (Atom Text x.Datum) Empty) :
    value (x.build f) = f.eval Truth.not (fun atom => value (x.ofAtom atom)) Empty.elim := by
  induction f with
  | const b =>
      cases b <;> simp [IcebergExpr.build, IcebergExpr.constant, Formula.eval, h.alwaysTrue,
      h.alwaysFalse, Truth.top_eq_yes, Truth.bot_eq_no]
  | atom a => rfl
  | hole e => exact e.elim
  | and left right ihl ihr => rw [IcebergExpr.build, h.and, ihl, ihr, Formula.eval]
  | or left right ihl ihr => rw [IcebergExpr.build, h.or, ihl, ihr, Formula.eval]
  | not child ih => rw [IcebergExpr.build, h.negate, ih, Formula.eval]

/-- A client's filter loses no row, whatever its unbindable nodes mean. Without
such a node a policy's filter is read the same; with one, or malformed, it is
refused. -/
theorem parsePredicate_widens (x : IcebergExpr) (schema : Schema) (case : CaseSensitivity)
    (json : Json) :
    (∀ p, parsePredicate x schema case json = .ok p →
      ∃ f, readFilter x schema case json = .ok f ∧
        ∀ (value : x.Predicate → Truth) (unbound : Json → Truth), x.Sound value →
          meaning value unbound f = .yes → value p = .yes) ∧
    (hasUnbindable json = false →
      parsePolicyPredicate x schema case json = parsePredicate x schema case json) ∧
    ((∃ e, parsePolicyPredicate x schema case json = .error e) ↔
      (∃ e, parsePredicate x schema case json = .error e) ∨ hasUnbindable json = true) := by
  have hsame : hasUnbindable json = false →
      parsePolicyPredicate x schema case json = parsePredicate x schema case json :=
    parse_of_bindable x schema case true json
  refine ⟨fun p hp => ?_, hsame, ?_⟩
  · rw [parsePredicate, parse_widen] at hp
    cases hf : readFilter x schema case json with
    | error e =>
        rw [hf] at hp
        cases hp
    | ok f =>
        rw [hf] at hp
        obtain rfl := Except.ok.inj hp
        refine ⟨f, rfl, fun value unbound hvalue hmeaning => ?_⟩
        rw [hvalue.build]
        exact Truth.eq_yes_of_le (Formula.eval_le_widen _ unbound Truth.not_antitone f) hmeaning
  · cases hunbindable : hasUnbindable json with
    | false => simp [hsame hunbindable]
    | true =>
        refine iff_of_true ?_ (Or.inr rfl)
        cases hp : parsePolicyPredicate x schema case json with
        | error e => exact ⟨e, rfl⟩
        | ok p =>
            rw [bindable_of_parse x schema case true json p hp] at hunbindable
            cases hunbindable

/-! ## The plainest rows -/

inductive PlainDatum where
  | integer (n : Int)
  | text (s : Text)
  deriving DecidableEq

inductive PlainPredicate where
  | alwaysTrue
  | alwaysFalse
  | and (left right : PlainPredicate)
  | or (left right : PlainPredicate)
  | column (atom : Atom Text PlainDatum)
  deriving DecidableEq

namespace PlainPredicate

/-- `and`, which folds constants. -/
def conj : PlainPredicate → PlainPredicate → PlainPredicate
  | alwaysFalse, _ => alwaysFalse
  | _, alwaysFalse => alwaysFalse
  | alwaysTrue, q => q
  | p, alwaysTrue => p
  | p, q => and p q

/-- `or`, likewise. -/
def disj : PlainPredicate → PlainPredicate → PlainPredicate
  | alwaysTrue, _ => alwaysTrue
  | _, alwaysTrue => alwaysTrue
  | alwaysFalse, q => q
  | p, alwaysFalse => p
  | p, q => or p q

def negateAtom : Atom Text PlainDatum → Atom Text PlainDatum
  | .unary .isNull name => .unary .notNull name
  | .unary .notNull name => .unary .isNull name
  | .unary .isNan name => .unary .notNan name
  | .unary .notNan name => .unary .isNan name
  | .comparison .lt name datum => .comparison .gtEq name datum
  | .comparison .gtEq name datum => .comparison .lt name datum
  | .comparison .gt name datum => .comparison .ltEq name datum
  | .comparison .ltEq name datum => .comparison .gt name datum
  | .comparison .eq name datum => .comparison .notEq name datum
  | .comparison .notEq name datum => .comparison .eq name datum
  | .comparison .startsWith name datum => .comparison .notStartsWith name datum
  | .comparison .notStartsWith name datum => .comparison .startsWith name datum
  | .set .isIn name datums => .set .notIn name datums
  | .set .notIn name datums => .set .isIn name datums

/-- `negate`, pushed down to the columns. -/
def negate : PlainPredicate → PlainPredicate
  | alwaysTrue => alwaysFalse
  | alwaysFalse => alwaysTrue
  | and left right => or left.negate right.negate
  | or left right => and left.negate right.negate
  | column atom => column (negateAtom atom)

def ofBool (b : Bool) : Truth := if b then .yes else .no

def less : PlainDatum → PlainDatum → Truth
  | .integer a, .integer b => ofBool (a < b)
  | _, _ => .unknown

/-- A comparison of two values; unknown where they have no common type. -/
def compare : ComparisonOp → PlainDatum → PlainDatum → Truth
  | .lt, a, b => less a b
  | .gtEq, a, b => (less a b).not
  | .gt, a, b => less b a
  | .ltEq, a, b => (less b a).not
  | .eq, a, b => ofBool (a == b)
  | .notEq, a, b => (ofBool (a == b)).not
  | .startsWith, _, _ | .notStartsWith, _, _ => .unknown

/-- A row: the value of each column, absent where it is null. -/
abbrev Row := Text → Option PlainDatum

def atomValue (row : Row) : Atom Text PlainDatum → Truth
  | .unary .isNull name => ofBool (row name).isNone
  | .unary .notNull name => (ofBool (row name).isNone).not
  | .unary .isNan _ => .no
  | .unary .notNan _ => .yes
  | .comparison op name datum => (row name).elim .unknown fun v => compare op v datum
  | .set .isIn name datums => (row name).elim .unknown fun v => ofBool (datums.contains v)
  | .set .notIn name datums => (row name).elim .unknown fun v => (ofBool (datums.contains v)).not

def value (row : Row) : PlainPredicate → Truth
  | alwaysTrue => .yes
  | alwaysFalse => .no
  | and left right => left.value row ⊓ right.value row
  | or left right => left.value row ⊔ right.value row
  | column atom => atomValue row atom

end PlainPredicate

/-- The crate on whole numbers and text. -/
def IcebergExpr.plain : IcebergExpr where
  Predicate := PlainPredicate
  Datum := PlainDatum
  alwaysTrue := .alwaysTrue
  alwaysFalse := .alwaysFalse
  and := .conj
  or := .disj
  negate := .negate
  ofAtom := .column
  bool b := .integer (if b then 1 else 0)
  int n := .integer n.toInt
  long := .integer
  float _ := .integer 0
  double _ := .integer 0
  string := .text
  uuidFromStr s := .ok (.text s)
  dateFromStr s := .ok (.text s)
  date n := .integer n.toInt
  timeFromStr s := .ok (.text s)
  timestampFromStr s := .ok (.text s)
  timestampMicros := .integer
  timestamptzFromStr s := .ok (.text s)
  timestamptzMicros := .integer
  timestampNanos := .integer
  timestamptzNanos := .integer
  decimalFromStr s := .ok (.text s)
  convertTo datum _ := .ok datum
  fixed _ := .integer 0
  binary _ := .integer 0
  parseNaive _ := .ok none
  parseOffset _ := .ok none
  displayType _ := "primitive".toList
  displayJson _ := "json".toList

instance : DecidableEq IcebergExpr.plain.Predicate := inferInstanceAs (DecidableEq PlainPredicate)

namespace PlainPredicate

variable (row : Row)

theorem atomValue_negateAtom (atom : Atom Text PlainDatum) :
    atomValue row (negateAtom atom) = (atomValue row atom).not := by
  cases atom with
  | unary op name => cases op <;> simp [negateAtom, atomValue]
  | comparison op name datum =>
      cases op <;> simp only [negateAtom, atomValue] <;> cases row name <;> simp [compare]
  | set op name datums =>
      cases op <;> simp only [negateAtom, atomValue] <;> cases row name <;> simp

theorem value_conj (p q : PlainPredicate) :
    (p.conj q).value row = p.value row ⊓ q.value row := by
  unfold conj
  split <;> simp [value, ← Truth.top_eq_yes, ← Truth.bot_eq_no]

theorem value_disj (p q : PlainPredicate) :
    (p.disj q).value row = p.value row ⊔ q.value row := by
  unfold disj
  split <;> simp [value, ← Truth.top_eq_yes, ← Truth.bot_eq_no]

theorem value_negate (p : PlainPredicate) : p.negate.value row = (p.value row).not := by
  induction p with
  | alwaysTrue => rfl
  | alwaysFalse => rfl
  | and left right ihl ihr =>
      simp only [negate, value, ihl, ihr, Truth.not_antitone.map_inf]
  | or left right ihl ihr =>
      simp only [negate, value, ihl, ihr, Truth.not_antitone.map_sup]
  | column atom => exact atomValue_negateAtom row atom

end PlainPredicate

theorem plain_sound (row : PlainPredicate.Row) :
    IcebergExpr.plain.Sound (PlainPredicate.value row) where
  alwaysTrue := rfl
  alwaysFalse := rfl
  and := PlainPredicate.value_conj row
  or := PlainPredicate.value_disj row
  negate := PlainPredicate.value_negate row

/-- One column, `count`. -/
def counts : Schema :=
  .flat [.column 2 "count" false .long] (by decide) (by decide)

/-- More than three, and not what cannot be bound. -/
def partlyBindable : Json :=
  .of [("type", .str "and"),
    ("left", .of [("type", .str "gt"), ("term", .str "count"), ("value", .number (.posInt 3))]),
    ("right", .of [("type", .str "not"), ("child", .of [("type", .str "eq"),
      ("term", .of [("type", .str "transform")]), ("value", .number (.posInt 1))])])]

def countFive : PlainPredicate.Row := fun name =>
  if name = "count".toList then some (.integer 5) else none

theorem parsePredicate_widens_counts :
    PlainPredicate.value countFive
      (.column (.comparison .gt "count".toList (.integer 3))) = .yes := by
  have hp : parsePredicate IcebergExpr.plain counts .sensitive partlyBindable =
      .ok (.column (.comparison .gt "count".toList (.integer 3))) := by decide +kernel
  obtain ⟨f, hf, hkept⟩ :=
    (parsePredicate_widens IcebergExpr.plain counts .sensitive partlyBindable).1 _ hp
  have hmeaning : (readFilter IcebergExpr.plain counts .sensitive partlyBindable).map
      (meaning (PlainPredicate.value countFive) fun _ => .no) = .ok .yes := by decide +kernel
  rw [hf] at hmeaning
  exact hkept _ _ (plain_sound countFive) (Except.ok.inj hmeaning)

/-- A filter on a column the table does not have. -/
def misspelt : Json :=
  .of [("type", .str "eq"), ("term", .str "nope"), ("value", .number (.posInt 1))]

theorem malformed_refused :
    ¬ ∀ (x : IcebergExpr) (schema : Schema) (case : CaseSensitivity) (json : Json),
      (∀ p, parsePredicate x schema case json = .ok p →
        ∃ f, readFilter x schema case json = .ok f ∧
          ∀ (value : x.Predicate → Truth) (unbound : Json → Truth), x.Sound value →
            meaning value unbound f = .yes → value p = .yes) ∧
      (hasUnbindable json = false →
        parsePolicyPredicate x schema case json = parsePredicate x schema case json) ∧
      ((∃ e, parsePolicyPredicate x schema case json = .error e) ↔
        hasUnbindable json = true) := by
  intro hall
  have hrefused : (parsePolicyPredicate IcebergExpr.plain counts .sensitive misspelt).isOk =
      false := by decide +kernel
  have hbindable : hasUnbindable misspelt = false := by decide +kernel
  have hiff := (hall IcebergExpr.plain counts .sensitive misspelt).2.2
  rw [hbindable] at hiff
  cases hp : parsePolicyPredicate IcebergExpr.plain counts .sensitive misspelt with
  | ok p =>
      rw [hp] at hrefused
      cases hrefused
  | error e => exact absurd (hiff.mp ⟨e, hp⟩) Bool.false_ne_true

end Rustberg.Query
