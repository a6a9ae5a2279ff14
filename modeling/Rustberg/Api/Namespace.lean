import Rustberg.Api.Guard
import Rustberg.Names

/-!
# The namespace handlers

`create_namespace`, `update_namespace_properties` and `delete_namespace` of
`catalog/v1/namespace.rs`. What one of them writes depends on what it has
read: the owner of the parent, or the properties it changes.
-/

namespace Rustberg.Api

open Process Auth

/-- The namespace of a request path, which has passed validation. -/
structure NamespacePath (u : UnicodeData) where
  namespc : NamespaceIdent
  valid : validateNamespace u namespc = .ok ()

structure CreateNamespacePayload where
  namespc : List Text
  properties : Option Properties

structure UpdateNamespacePropertiesPayload where
  removals : List Text
  updates : Properties

structure UpdateNamespacePropertiesResponse where
  updated : List Text
  removed : List Text
  missing : List Text

inductive Reply where
  | created (namespc : NamespaceIdent) (properties : Properties)
  /-- The response kept under the request's idempotency key. -/
  | cached (body : Text)
  | updated (response : UpdateNamespacePropertiesResponse)
  | noContent

/-- The properties of a namespace to be created. -/
def checkNew : Option Properties → Except AppError Unit
  | some properties => do
      validateProperties properties
      rejectReserved properties.keys
  | none => .ok ()

/-- Whose tree a new namespace joins: a root namespace starts one, a nested
one joins the tree of its parent. -/
def tenantFor (app : AppState) (principal : Principal) (request : RequestContext)
    (namespc : NamespaceIdent) : Handler Text :=
  match parentOf namespc with
  | [] => do
      let _ ← check (authorizeNew app principal request
        (Resource.ofNamespace principal.tenantId namespc) .create)
      return principal.tenantId
  | parent => do
      let authorized ← authorize app principal request parent .namespc .create
      return authorized.owner

/-- `cached` is what the idempotency cache holds for the request. -/
def createNamespace (u : UnicodeData) (app : AppState) (principal : Principal)
    (request : RequestContext) (cached : Option Text) (payload : CreateNamespacePayload) :
    Handler Reply := do
  check (validateNamespace u payload.namespc)
  check (checkNew payload.properties)
  let tenantId ← tenantFor app principal request payload.namespc
  match cached with
  | some body => return .cached body
  | none => do
      let properties := setOwner (payload.properties.getD ∅) tenantId
      call (.createNamespace payload.namespc properties)
      return .created payload.namespc (stripReserved properties)

/-- The removals, one after the other: what is left, what was there and what
was not. -/
def removeAll (properties : Properties) (removals : List Text) :
    Properties × List Text × List Text :=
  removals.foldl (fun (properties, removed, missing) removal =>
    if removal ∈ properties then (properties.erase removal, removed ++ [removal], missing)
    else (properties, removed, missing ++ [removal])) (properties, [], [])

/-- The map an update writes over `current`. -/
def UpdateNamespacePropertiesPayload.applied (payload : UpdateNamespacePropertiesPayload)
    (current : Properties) : Properties :=
  preserveReserved current ((removeAll current payload.removals).1 ∪ payload.updates)

def UpdateNamespacePropertiesPayload.response (payload : UpdateNamespacePropertiesPayload)
    (current : Properties) : UpdateNamespacePropertiesResponse :=
  let (_, removed, missing) := removeAll current payload.removals
  ⟨payload.updates.keys, removed, missing⟩

def UpdateNamespacePropertiesPayload.check (payload : UpdateNamespacePropertiesPayload) :
    Except AppError Unit := do
  validateProperties payload.updates
  rejectReserved payload.updates.keys
  rejectReserved payload.removals

def updateNamespaceProperties {u : UnicodeData} (app : AppState) (principal : Principal)
    (request : RequestContext) (path : NamespacePath u)
    (payload : UpdateNamespacePropertiesPayload) : Handler Reply := do
  check payload.check
  let _ ← authorize app principal request path.namespc .namespc .update
  let current ← call (.getNamespace path.namespc)
  call (.updateNamespace path.namespc (payload.applied current))
  return .updated (payload.response current)

def deleteNamespace {u : UnicodeData} (app : AppState) (principal : Principal)
    (request : RequestContext) (path : NamespacePath u) : Handler Reply := do
  let _ ← authorize app principal request path.namespc .namespc .delete
  let existing ← call (.getNamespace path.namespc)
  check (rejectIfProtected existing
    ("Namespace '".toList ++ Text.join ['.'] path.namespc ++ ['\'']))
  call (.dropNamespace path.namespc)
  return .noContent

end Rustberg.Api
