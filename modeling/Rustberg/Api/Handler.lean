import Rustberg.Base.Process
import Rustberg.Catalog.Semantics
import Rustberg.Catalog.Transactions
import Rustberg.Catalog.Drop
import Rustberg.Auth.Authz

/-!
# Request handlers over a namespace store

A handler of `catalog/v1` reaches the namespaces of a catalog through four
calls of `CatalogStore`, each of which is one transaction of the backend.
`Handler` is the monad the handlers are written in, over those calls as
atomic effects.

A `Backend` says what the calls do to its state. Its tree, the properties
it records for each namespace key, is all a handler can observe, and
`TreeSem` is what every backend promises about it. `redbBackend` is the redb
catalog as one.
-/

namespace Rustberg.Api

open Process Auth

/-- The namespace calls of `CatalogStore`. -/
inductive NamespaceCall where
  | getNamespace (namespc : NamespaceIdent)
  | createNamespace (namespc : NamespaceIdent) (properties : Properties)
  | updateNamespace (namespc : NamespaceIdent) (properties : Properties)
  | dropNamespace (namespc : NamespaceIdent)

namespace NamespaceCall

abbrev Payload : NamespaceCall → Type
  | getNamespace _ => Properties
  | createNamespace .. => Unit
  | updateNamespace .. => Unit
  | dropNamespace _ => Unit

abbrev Answer (e : NamespaceCall) : Type := Except Error e.Payload

end NamespaceCall

/-- A handler: store calls in order, ending at the first error. -/
abbrev Handler (α : Type) : Type :=
  ExceptT AppError (Prog NamespaceCall NamespaceCall.Answer) α

/-- A store call whose error is looked at. -/
def attempt (e : NamespaceCall) : Handler e.Answer :=
  ExceptT.mk (.perform e fun r => .done (.ok r))

/-- A store call whose error, mapped by kind, is the handler's. -/
def call (e : NamespaceCall) : Handler e.Payload :=
  ExceptT.mk (.perform e fun r => .done (r.mapError AppError.fromIceberg))

/-- A pure step that may fail. -/
def check {α : Type} (r : Except AppError α) : Handler α := ExceptT.mk (.done r)

/-! ## What surrounds a request -/

/-- One decision, as the audit trail records it. -/
structure AuditEvent where
  operation : Text
  resourceType : Text
  resource : Text
  allowed : Bool
  principalId : Text
  principalType : PrincipalType
  tenantId : Text
  clientIp : Option Text
  requestId : Option Text
  referencedBy : List Text
  matchedPolicies : List Text
  policySetVersion : Option Text

/-- `AppState`, as one request meets it: policies may be reloaded and a record
may fail to be written. -/
structure AppState where
  authorizer : Authorizer
  /-- `auditor.record`; an error only where the auditor fails closed. -/
  record : AuditEvent → Except Text Unit

/-! ## Backends -/

/-- The properties recorded for each namespace key. -/
abbrev Tree := Text → Option Properties

/-- The keys of a namespace and of the one it is nested in. -/
def parentOf (namespc : NamespaceIdent) : NamespaceIdent := namespc.dropLast

/-- What a call does to the tree of a backend that does not fail. -/
def TreeSem : (e : NamespaceCall) → Tree → e.Answer → Tree → Prop
  | .getNamespace ns, t, r, t' => t' = t ∧
      r = match t (namespaceKey ns) with
        | some properties => .ok properties
        | none => .error ⟨.namespaceNotFound, Text.join ['.'] ns⟩
  | .createNamespace ns properties, t, r, t' =>
      (∃ err, r = .error err ∧ t' = t) ∨
      (r = .ok () ∧ t (namespaceKey ns) = none ∧
        (1 < ns.length → t (namespaceKey (parentOf ns)) ≠ none) ∧
        t' = Function.update t (namespaceKey ns) (some properties))
  | .updateNamespace ns properties, t, r, t' =>
      (∃ err, r = .error err ∧ t' = t) ∨
      (r = .ok () ∧ t (namespaceKey ns) ≠ none ∧
        t' = Function.update t (namespaceKey ns) (some properties))
  | .dropNamespace ns, t, r, t' =>
      (∃ err, r = .error err ∧ t' = t) ∨
      (r = .ok () ∧ t' = Function.update t (namespaceKey ns) none)

/-- A `CatalogStore`, seen through its namespace calls. -/
structure Backend where
  State : Type
  tree : State → Tree
  /-- One call on a store that does not fail. -/
  handle : (e : NamespaceCall) → State → e.Answer × State
  refines : ∀ e s, TreeSem e (tree s) (handle e s).1 (tree (handle e s).2)

/-- One call on a store shared with other calls, which may also fail without
having changed anything. -/
def Backend.Sem (B : Backend) (e : NamespaceCall) (s : B.State) (r : e.Answer) (s' : B.State) :
    Prop :=
  (r = (B.handle e s).1 ∧ s' = (B.handle e s).2) ∨ (∃ err : Error, err.IsEngine ∧ r = .error err) ∧
    s' = s

/-- A shared store does what a store that does not fail does, or nothing. -/
theorem Backend.Sem.effect {B : Backend} {e : NamespaceCall} {s s' : B.State} {r : e.Answer}
    (h : B.Sem e s r s') :
    TreeSem e (B.tree s) r (B.tree s') ∨ (∃ err, r = .error err) ∧ B.tree s' = B.tree s := by
  rcases h with ⟨rfl, rfl⟩ | ⟨⟨err, -, rfl⟩, rfl⟩
  · exact Or.inl (B.refines e s)
  · exact Or.inr ⟨⟨err, rfl⟩, rfl⟩

/-! ## What a request has read -/

/-- The store calls a request has made, each with its answer. -/
abbrev Past := Prog.History NamespaceCall NamespaceCall.Answer

/-- The properties of `ns` as last read. -/
def lastRead (ns : NamespaceIdent) (h : Past) : Option Properties :=
  h.foldl (fun last x =>
    match x with
    | ⟨.getNamespace ns', .ok current⟩ => if ns' = ns then some current else last
    | _ => last) none

theorem lastRead_snoc_get (ns : NamespaceIdent) (h : Past) (current : Properties) :
    lastRead ns (h ++ [⟨.getNamespace ns, .ok current⟩]) = some current := by
  rw [lastRead, List.foldl_append]
  simp

/-! ## The redb backend -/

/-- The operation of `RedbCatalog` behind a call. -/
def redbOp {ib : Iceberg} : (e : NamespaceCall) → Op ib e.Payload
  | .getNamespace ns => Redb.getNamespace ns
  | .createNamespace ns properties => Redb.createNamespace ns properties
  | .updateNamespace ns properties => Redb.updateNamespace ns properties
  | .dropNamespace ns => Redb.dropNamespace ns

/-- What the answer of that operation's one effect makes of its result. -/
def redbAnswer {ib : Iceberg} : (e : NamespaceCall) →
    Σ effect : Effect ib, (effect.Answer → Except Error e.Payload)
  | .getNamespace ns => ⟨.getNamespace (namespaceKey ns), fun r => r.bind fun
      | some record => .ok record.properties
      | none => .error ⟨.namespaceNotFound, Text.join ['.'] ns⟩⟩
  | .createNamespace ns properties => ⟨.write (.createNamespace ns properties), id⟩
  | .updateNamespace ns properties => ⟨.write (.updateNamespace ns properties), id⟩
  | .dropNamespace ns => ⟨.write (.dropNamespace ns), id⟩

/-- Every namespace call is a single transaction. -/
theorem redbOp_atomic {ib : Iceberg} (e : NamespaceCall) :
    (redbOp e : Op ib e.Payload).run =
      .perform (redbAnswer e).1 fun r => .done ((redbAnswer e).2 r) := by
  cases e with
  | getNamespace ns =>
      refine congrArg (Prog.perform (Effect.getNamespace (namespaceKey ns))) (funext fun r => ?_)
      rcases r with err | _ | record <;> rfl
  | createNamespace ns properties =>
      exact congrArg (Prog.perform _) (funext fun r => rfl)
  | updateNamespace ns properties =>
      exact congrArg (Prog.perform _) (funext fun r => rfl)
  | dropNamespace ns => exact congrArg (Prog.perform _) (funext fun r => rfl)

def redbTree (reg : Registry) : Tree := fun key =>
  reg.namespaces[key]?.map NamespaceRecord.properties

section

variable {reg reg' : Registry}

theorem redbTree_insert (reg : Registry) (key : Text) (record : NamespaceRecord) :
    redbTree { reg with namespaces := reg.namespaces.insert key record } =
      Function.update (redbTree reg) key (some record.properties) := by
  funext key'
  rw [redbTree, Relation.getElem?_insert, Function.update_apply]
  by_cases hkey : key' = key
  · simp [hkey]
  · simp [hkey, Ne.symm hkey, redbTree]

theorem redbTree_erase {key : Text} (h : reg'.namespaces = reg.namespaces.erase key) :
    redbTree reg' = Function.update (redbTree reg) key none := by
  funext key'
  rw [redbTree, h, Relation.getElem?_erase, Function.update_apply]
  by_cases hkey : key' = key
  · simp [hkey]
  · simp [hkey, Ne.symm hkey, redbTree]

theorem redbTree_ne_none {key : Text} : redbTree reg key ≠ none ↔ key ∈ reg.namespaces := by
  rw [redbTree, ne_eq, Option.map_eq_none_iff, Relation.getElem?_ne_none_iff]

end

/-- The registry of the redb catalog; its files play no part in these calls. -/
def redbBackend {ib : Iceberg} (env : Env ib) : Backend where
  State := Registry
  tree := redbTree
  handle e reg := env.run (redbOp e) reg
  refines e reg := by
    unfold Env.run Env.exec
    rw [redbOp_atomic]
    cases e with
    | getNamespace ns =>
        refine ⟨rfl, ?_⟩
        simp only [redbTree, redbAnswer, Prog.run_perform, Prog.run_done, Env.handle]
        cases reg.namespaces[namespaceKey ns]? <;> rfl
    | createNamespace ns properties =>
        simp only [TreeSem, redbAnswer, Prog.run_perform, Prog.run_done, Env.handle]
        cases happly : (Transaction.createNamespace ns properties).apply reg with
        | error err => exact Or.inl ⟨err, rfl, rfl⟩
        | ok reg' =>
            obtain ⟨hparent, hnew, rfl⟩ := createNamespaceTx_eq_ok.mp happly
            exact Or.inr ⟨rfl, not_not.mp fun h => hnew (redbTree_ne_none.mp h),
              fun hlen => redbTree_ne_none.mpr (hparent hlen), redbTree_insert ..⟩
    | updateNamespace ns properties =>
        simp only [TreeSem, redbAnswer, Prog.run_perform, Prog.run_done, Env.handle]
        cases happly : (Transaction.updateNamespace ns properties).apply reg with
        | error err => exact Or.inl ⟨err, rfl, rfl⟩
        | ok reg' =>
            obtain ⟨hold, rfl⟩ := updateNamespaceTx_eq_ok.mp happly
            exact Or.inr ⟨rfl, redbTree_ne_none.mpr hold, redbTree_insert ..⟩
    | dropNamespace ns =>
        simp only [TreeSem, redbAnswer, Prog.run_perform, Prog.run_done, Env.handle]
        cases happly : (Transaction.dropNamespace ns).apply reg with
        | error err => exact Or.inl ⟨err, rfl, rfl⟩
        | ok reg' =>
            obtain ⟨-, -, rfl⟩ := dropNamespaceTx_eq_ok.mp happly
            exact Or.inr ⟨rfl, redbTree_erase rfl⟩

end Rustberg.Api
