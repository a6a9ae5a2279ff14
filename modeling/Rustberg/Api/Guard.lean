import Rustberg.Api.Handler
import Rustberg.Api.Ownership

/-!
# The one place a catalog request is authorized

`authorize` of `catalog/v1/guard.rs`: read the recorded owner, decide,
record the decision, and answer a denial with `404` unless the caller may
read the resource anyway. `authorize_hides_existence` is what that buys:
where the policy permits neither the action nor `Read`, the answer is the
one for a namespace that does not exist. A caller permitted the action
alone is not refused at all (`authorize_without_read`).
-/

namespace Rustberg.Api

open Process Auth

inductive Target where
  | namespc
  | table (name : Text)
  | view (name : Text)
  deriving DecidableEq, Repr

namespace Target

def resource (target : Target) (owner : Text) (namespc : NamespaceIdent) : Resource :=
  match target with
  | .namespc => Resource.ofNamespace owner namespc
  | .table name => Resource.ofTable owner namespc name
  | .view name => Resource.ofView owner namespc name

/-- The 404 to answer with when the caller cannot see this resource. -/
def notFound (target : Target) (namespc : NamespaceIdent) : AppError :=
  let ns := Text.join ['.'] namespc
  match target with
  | .namespc => .noSuchNamespace ns
  | .table name => .noSuchTable (ns ++ ['.'] ++ name)
  | .view name => .noSuchView (ns ++ ['.'] ++ name)

def describe (target : Target) (namespc : NamespaceIdent) : Text :=
  let ns := Text.join ['.'] namespc
  match target with
  | .namespc => "namespace '".toList ++ ns ++ ['\'']
  | .table name => "table '".toList ++ ns ++ ['.'] ++ name ++ ['\'']
  | .view name => "view '".toList ++ ns ++ ['.'] ++ name ++ ['\'']

end Target

/-- An authorized request, and what the grant is qualified by. -/
structure Authorized where
  owner : Text
  obligations : Obligations
  context : AuthzContext

/-! ## Recording a decision -/

/-- Whether an action changes catalog state. -/
def isMutating : Action → Bool
  | .create | .update | .delete | .manage => true
  | .read | .list => false

def auditEvent (app : AppState) (context : AuthzContext) (outcome : AuthzOutcome) : AuditEvent where
  operation := context.action.cedarName
  resourceType := context.resource.resourceType.display
  resource := context.resource.path
  allowed := outcome.isAllowed
  principalId := context.principal.id
  principalType := context.principal.principalType
  tenantId := context.principal.tenantId
  clientIp := context.request.sourceIp
  requestId := context.request.requestId
  referencedBy := context.request.referencedBy
  matchedPolicies := outcome.matchedPolicies
  policySetVersion := app.authorizer.policySetVersion

/-- Only a permitted mutation fails when it cannot be recorded. -/
def recordDecision (app : AppState) (context : AuthzContext) (outcome : AuthzOutcome) :
    Except AppError Unit :=
  if isMutating context.action && outcome.isAllowed then
    match app.record (auditEvent app context outcome) with
    | .ok () => .ok ()
    | .error _ => .error (.serviceUnavailable
        "The audit trail is unavailable, so this change was not made.".toList)
  else .ok ()

/-! ## Authorizing -/

/-- The recorded owner, absent where the namespace does not exist or records
none. Another failure of the store is not an absence. -/
def ownerIn : Except Error Properties → Except AppError (Option Text)
  | .ok properties => .ok (ownerOf properties)
  | .error e =>
      if e.kind = .namespaceNotFound then .ok none else .error (AppError.fromIceberg e)

def resolveOwner (namespc : NamespaceIdent) : Handler (Option Text) := do
  let answer ← attempt (.getNamespace namespc)
  check (ownerIn answer)

/-- The decision on a resource whose owner is known. -/
def decideOn (app : AppState) (principal : Principal) (request : RequestContext)
    (namespc : NamespaceIdent) (target : Target) (action : Action) (owner : Text) :
    Except AppError Authorized := do
  let context : AuthzContext := ⟨principal, target.resource owner namespc, action, request⟩
  let outcome := app.authorizer.decide context
  recordDecision app context outcome
  if !outcome.isAllowed then
    -- When the denied action is `Read` itself, the answer is already known.
    let visible := if action = .read then false
      else app.authorizer.permits (context.forAction .read)
    if visible then
      .error (.forbidden ("Not permitted to ".toList ++ action.display ++ [' '] ++
        target.describe namespc))
    else .error (target.notFound namespc)
  else .ok ⟨owner, outcome.obligations, context⟩

def authorize (app : AppState) (principal : Principal) (request : RequestContext)
    (namespc : NamespaceIdent) (target : Target) (action : Action) : Handler Authorized := do
  match ← resolveOwner namespc with
  | some owner => check (decideOn app principal request namespc target action owner)
  | none => throw (target.notFound namespc)

/-- Decides a prepared context; a denial is a `403`. -/
def authorizeContext (app : AppState) (context : AuthzContext) : Except AppError AuthzContext := do
  let outcome := app.authorizer.decide context
  recordDecision app context outcome
  match outcome.decision with
  | .allow => .ok context
  | .deny reason => .error (.forbidden reason)

/-- Authorizes a resource that has no recorded owner yet. -/
def authorizeNew (app : AppState) (principal : Principal) (request : RequestContext)
    (resource : Resource) (action : Action) : Except AppError AuthzContext :=
  authorizeContext app ⟨principal, resource, action, request⟩

/-! ## What a refusal tells -/

variable {app : AppState} {principal : Principal} {request : RequestContext}
  {ns : NamespaceIdent} {target : Target} {action : Action}

/-- What `authorize` makes of the one answer it reads. -/
def authorizeOn (app : AppState) (principal : Principal) (request : RequestContext)
    (namespc : NamespaceIdent) (target : Target) (action : Action)
    (answer : Except Error Properties) : Except AppError Authorized :=
  match ownerIn answer with
  | .ok (some owner) => decideOn app principal request namespc target action owner
  | .ok none => .error (target.notFound namespc)
  | .error e => .error e

/-- `authorize` reads the namespace once and touches nothing else. -/
theorem authorize_eq :
    (authorize app principal request ns target action).run =
      .perform (.getNamespace ns) fun r =>
        .done (authorizeOn app principal request ns target action r) := by
  refine congrArg (Prog.perform (NamespaceCall.getNamespace ns)) (funext fun r => ?_)
  change ((check (ownerIn r) : Handler (Option Text)) >>= _).run = _
  unfold authorizeOn
  rcases ownerIn r with e | _ | owner <;> rfl

theorem authorize_run (B : Backend) (s : B.State) :
    (Prog.run B.handle (authorize app principal request ns target action).run s).1 =
      match (B.tree s (namespaceKey ns)).bind ownerOf with
      | some owner => decideOn app principal request ns target action owner
      | none => .error (target.notFound ns) := by
  obtain ⟨-, hanswer⟩ := B.refines (.getNamespace ns) s
  rw [authorize_eq, Prog.run_perform, Prog.run_done, hanswer]
  cases B.tree s (namespaceKey ns) with
  | none => rfl
  | some properties =>
      simp only [authorizeOn, ownerIn, Option.bind_some]
      cases ownerOf properties <;> rfl

/-- A denied caller who may not read the resource gets its not-found error. -/
theorem decideOn_unseen {owner : Text}
    (hread : app.authorizer.permits ⟨principal, target.resource owner ns, .read, request⟩ = false)
    (haction : app.authorizer.permits ⟨principal, target.resource owner ns, action, request⟩ =
      false) :
    decideOn app principal request ns target action owner = .error (target.notFound ns) := by
  have hdenied : (app.authorizer.decide ⟨principal, target.resource owner ns, action,
      request⟩).isAllowed = false := haction
  simp only [decideOn, recordDecision, AuthzContext.forAction, hdenied, hread, Bool.and_false,
    Bool.not_false, if_true, ite_self]
  rfl

/-- A caller permitted neither `Read` nor the action gets one answer from a
store and from the same store without the namespace. -/
theorem authorize_hides_existence (B : Backend) (app : AppState) (principal : Principal)
    (request : RequestContext) (ns : NamespaceIdent) (target : Target) (action : Action)
    (s s' : B.State) (hs' : B.tree s' = Function.update (B.tree s) (namespaceKey ns) none)
    (hdenied : ∀ owner, (B.tree s (namespaceKey ns)).bind ownerOf = some owner →
      app.authorizer.permits ⟨principal, target.resource owner ns, .read, request⟩ = false ∧
        app.authorizer.permits ⟨principal, target.resource owner ns, action, request⟩ = false) :
    (Prog.run B.handle (authorize app principal request ns target action).run s).1 =
      (Prog.run B.handle (authorize app principal request ns target action).run s').1 := by
  rw [authorize_run, authorize_run, hs', Function.update_self, Option.bind_none]
  cases howner : (B.tree s (namespaceKey ns)).bind ownerOf with
  | none => rfl
  | some owner =>
      obtain ⟨hread, haction⟩ := hdenied owner howner
      exact decideOn_unseen hread haction

/-! ## A caller permitted to create and not to read -/

def createOnly : AppState where
  authorizer :=
    { decide := fun context =>
        if context.action = .create then .allow else .deny "No policy permits this".toList
      policySetVersion := none }
  record _ := .ok ()

def writer : Principal := ⟨"w".toList, .user, "acme".toList, []⟩

def noFacts : RequestContext := ⟨none, none, []⟩

/-- One namespace, `db`, owned by `acme`. -/
def acmeDb : Registry :=
  { Registry.empty with
    namespaces := Registry.empty.namespaces.insert (namespaceKey ["db".toList])
      ⟨["db".toList], setOwner ∅ "acme".toList⟩ }

/-- The same registry without it. -/
def withoutDb : Registry :=
  { acmeDb with namespaces := acmeDb.namespaces.erase (namespaceKey ["db".toList]) }

theorem redbTree_withoutDb :
    redbTree withoutDb = Function.update (redbTree acmeDb) (namespaceKey ["db".toList]) none :=
  redbTree_erase rfl

theorem authorize_hides_existence_acmeDb :
    let answer := fun s => (Prog.run (redbBackend (Env.empty Iceberg.plain)).handle
      (authorize createOnly writer noFacts ["db".toList] .namespc .delete).run s).1
    answer acmeDb = answer withoutDb :=
  authorize_hides_existence (redbBackend (Env.empty Iceberg.plain)) createOnly writer noFacts
    ["db".toList] .namespc .delete acmeDb withoutDb redbTree_withoutDb fun _ _ => ⟨rfl, rfl⟩

theorem authorize_without_read :
    ¬ ∀ (B : Backend) (app : AppState) (principal : Principal) (request : RequestContext)
        (ns : NamespaceIdent) (target : Target) (action : Auth.Action) (s s' : B.State),
      B.tree s' = Function.update (B.tree s) (namespaceKey ns) none →
      (∀ owner, (B.tree s (namespaceKey ns)).bind ownerOf = some owner →
        app.authorizer.permits ⟨principal, target.resource owner ns, .read, request⟩ = false) →
      (Prog.run B.handle (authorize app principal request ns target action).run s).1 =
        (Prog.run B.handle (authorize app principal request ns target action).run s').1 := by
  intro hall
  have heq := hall (redbBackend (Env.empty Iceberg.plain)) createOnly writer noFacts
    ["db".toList] .namespc .create acmeDb withoutDb redbTree_withoutDb fun owner _ => rfl
  have hproceeds : (Prog.run (redbBackend (Env.empty Iceberg.plain)).handle
      (authorize createOnly writer noFacts ["db".toList] .namespc .create).run acmeDb).1.isOk =
        true := by decide
  have hrefused : (Prog.run (redbBackend (Env.empty Iceberg.plain)).handle
      (authorize createOnly writer noFacts ["db".toList] .namespc .create).run withoutDb).1.isOk =
        false := by decide
  rw [heq, hrefused] at hproceeds
  cases hproceeds

end Rustberg.Api
