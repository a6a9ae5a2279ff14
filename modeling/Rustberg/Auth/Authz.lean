import Rustberg.Base.Json

/-!
# Authorization: what is decided, and from what

The types of `auth/authz.rs`: the resource and action a request is aimed
at, the context a decision is made from, and its outcome. An authorizer
is one function, `decide`; policies are its affair.
-/

namespace Rustberg.Auth

inductive ResourceType where
  | catalog
  | namespc
  | table
  | view
  | policySet
  deriving DecidableEq, Repr

def ResourceType.display : ResourceType → Text
  | .catalog => "catalog".toList
  | .namespc => "namespace".toList
  | .table => "table".toList
  | .view => "view".toList
  | .policySet => "policy_set".toList

inductive Action where
  | read
  | create
  | update
  | delete
  | list
  | manage
  deriving DecidableEq, Repr

namespace Action

/-- The name this action has in a Cedar policy. -/
def cedarName : Action → Text
  | .read => "Read".toList
  | .list => "List".toList
  | .create => "Create".toList
  | .update => "Update".toList
  | .delete => "Delete".toList
  | .manage => "Manage".toList

/-- Lower-case, for prose. -/
def display : Action → Text
  | .read => "read".toList
  | .create => "create".toList
  | .update => "update".toList
  | .delete => "delete".toList
  | .list => "list".toList
  | .manage => "manage".toList

end Action

structure Resource where
  resourceType : ResourceType
  /-- The recorded owner, never the caller's own tenant. -/
  tenantId : Text
  namespc : Option (List Text)
  name : Option Text
  deriving DecidableEq

namespace Resource

/-- The catalog root for a tenant. -/
def catalog (tenantId : Text) : Resource := ⟨.catalog, tenantId, none, none⟩

def policySet (tenantId : Text) : Resource := ⟨.policySet, tenantId, none, none⟩

def ofNamespace (tenantId : Text) (namespc : List Text) : Resource :=
  ⟨.namespc, tenantId, some namespc, none⟩

def ofTable (tenantId : Text) (namespc : List Text) (tableName : Text) : Resource :=
  ⟨.table, tenantId, some namespc, some tableName⟩

def ofView (tenantId : Text) (namespc : List Text) (viewName : Text) : Resource :=
  ⟨.view, tenantId, some namespc, some viewName⟩

/-- The full resource path, for logs and audit records. -/
def path (resource : Resource) : Text :=
  Text.join ['/'] ([resource.tenantId] ++ resource.namespc.getD [] ++ resource.name.toList)

end Resource

inductive PrincipalType where
  | user
  | service
  | apiKey
  | system
  | anonymous
  deriving DecidableEq, Repr

/-- An authenticated identity: what a decision and its record read of it. -/
structure Principal where
  id : Text
  principalType : PrincipalType
  tenantId : Text
  roles : List Text
  deriving DecidableEq

/-- Per-request facts a policy may read, and those only a record carries. -/
structure RequestContext where
  sourceIp : Option Text
  requestId : Option Text
  referencedBy : List Text
  deriving DecidableEq

structure AuthzContext where
  principal : Principal
  resource : Resource
  action : Action
  request : RequestContext
  deriving DecidableEq

/-- The same context re-aimed at a different action. -/
def AuthzContext.forAction (context : AuthzContext) (action : Action) : AuthzContext :=
  { context with action := action }

inductive AuthzDecision where
  | allow
  | deny (reason : Text)
  deriving DecidableEq

def AuthzDecision.isAllowed : AuthzDecision → Bool
  | .allow => true
  | .deny _ => false

/-- Conditions attached to an allow decision. The masks are a set; the list
is the order it iterates in. -/
structure Obligations where
  rowFilters : List Json
  columnMasks : List Text

/-- `Obligations::default()` -/
def Obligations.none : Obligations := ⟨[], []⟩

def Obligations.isEmpty (obligations : Obligations) : Bool :=
  obligations.rowFilters.isEmpty && obligations.columnMasks.isEmpty

structure AuthzOutcome where
  decision : AuthzDecision
  obligations : Obligations
  matchedPolicies : List Text

namespace AuthzOutcome

def allow : AuthzOutcome := ⟨.allow, .none, []⟩

def deny (reason : Text) : AuthzOutcome := ⟨.deny reason, .none, []⟩

def isAllowed (outcome : AuthzOutcome) : Bool := outcome.decision.isAllowed

end AuthzOutcome

/-- `dyn Authorizer`. -/
structure Authorizer where
  decide : AuthzContext → AuthzOutcome
  policySetVersion : Option Text

/-- Whether `context` is permitted, with no record written. -/
def Authorizer.permits (authorizer : Authorizer) (context : AuthzContext) : Bool :=
  (authorizer.decide context).isAllowed

end Rustberg.Auth
