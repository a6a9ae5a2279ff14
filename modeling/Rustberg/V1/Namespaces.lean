import Rustberg.Base.Result
import Rustberg.V1.Tables

/-!
# The namespace handlers, on the whole catalog

`catalog/v1/namespace.rs`, with every record a write to the sink. The
payloads and what is pure about them are those of `Api.Namespace`.
-/

namespace Rustberg.V1

open Process Auth Api

variable {ib : Iceberg} {d : Crates ib}

section Handlers

variable (u : UnicodeData) (b64 : Base64) (app : AppState) (principal : Principal)
  (request : RequestContext)

/-- `?parent=`, a multi-level namespace encoded as in a path segment. -/
def parentOfQuery (parent : Option Text) : Except AppError (Option NamespaceIdent) :=
  match parent with
  | some parent => do
      let parts := parent.splitOn partSeparator
      validateNamespace u parts
      return some parts
  | none => return none

variable {u} in
theorem parentOfQuery_eq_ok {parent : Option Text} {parent' : Option NamespaceIdent}
    (h : parentOfQuery u parent = .ok parent') :
    parent' = parent.map fun parent => parent.splitOn partSeparator := by
  cases parent with
  | none =>
      cases h
      rfl
  | some parent =>
      obtain ⟨_, -, h⟩ := Except.bind_eq_ok.mp h
      cases h
      rfl

/-- A parent names a resource; at the root there is nothing to name. -/
def authorizeListing (parent : Option NamespaceIdent) : Served d Unit :=
  match parent with
  | some parent => do
      let _ ← authorize app principal request parent .namespc .list
  | none => do
      let _ ← authorizeCatalog app principal request .list

/-- Whether a namespace is shown: one that records no owner is shown to nobody. -/
def namespaceVisible (ns : NamespaceIdent) : Served d (Bool × NamespaceIdent) := do
  match ← attempt (.getNamespace ns) with
  | .ok namespc =>
      match ownerOf namespc.properties with
      | some owner => return (canSee app principal request owner ns .namespc, ns)
      | none => return (false, ns)
  | .error _ => return (false, ns)

def listNamespaces (parent : Option Text) (query : PaginationQuery) : Served d (Reply d) := do
  let parent ← check (parentOfQuery u parent)
  authorizeListing app principal request parent
  let page ← collectPage b64 (namespaceVisible app principal request)
    (fun page => call (.listNamespaces parent page)) (← pageRequest b64 query)
  return .namespaces page

/-- Whose tree a new namespace joins: a root namespace starts one, a nested
one joins the tree of its parent. -/
def tenantFor (ns : NamespaceIdent) : Served d Text :=
  match parentOf ns with
  | [] => do
      let _ ← authorizeNew app principal request (Auth.Resource.ofNamespace principal.tenantId ns)
        .create
      return principal.tenantId
  | parent => do
      let authorized ← authorize app principal request parent .namespc .create
      return authorized.owner

/-- What a client is shown of a namespace. -/
def Namespace.shown (namespc : Namespace) : Namespace :=
  { namespc with properties := stripReserved namespc.properties }

def createNamespace (cached : Option Text) (payload : CreateNamespacePayload) :
    Served d (Reply d) := do
  check (validateNamespace u payload.namespc)
  check (checkNew payload.properties)
  let tenantId ← tenantFor app principal request payload.namespc
  match cached with
  | some body => return .cached body
  | none => do
      let properties := setOwner (payload.properties.getD ∅) tenantId
      let namespc ← call (.createNamespace payload.namespc properties)
      return .namespc (Namespace.shown namespc)

def getNamespace (ns : NamespaceIdent) : Served d (Reply d) := do
  let _ ← authorize app principal request ns .namespc .read
  let namespc ← call (.getNamespace ns)
  return .namespc (Namespace.shown namespc)

def namespaceExists (ns : NamespaceIdent) : Served d (Reply d) := do
  let _ ← authorize app principal request ns .namespc .read
  return .ok

def deleteNamespace (ns : NamespaceIdent) : Served d (Reply d) := do
  let _ ← authorize app principal request ns .namespc .delete
  let existing ← call (.getNamespace ns)
  check (rejectIfProtected existing.properties
    ("Namespace '".toList ++ Text.join ['.'] ns ++ ['\'']))
  call (.dropNamespace ns)
  return .ok

def updateNamespaceProperties (ns : NamespaceIdent) (payload : UpdateNamespacePropertiesPayload) :
    Served d (Reply d) := do
  check payload.check
  let _ ← authorize app principal request ns .namespc .update
  let current ← call (.getNamespace ns)
  call (.updateNamespace ns (payload.applied current.properties))
  return .updatedProperties (payload.response current.properties)

end Handlers

end Rustberg.V1
