import Rustberg.Auth.Entities
import Rustberg.Base.Json
import Rustberg.Base.Result

/-!
# Where principals come from

An API key of the configuration (`config/server_config.rs`,
`auth/authn.rs`) and the claims of a verified token
(`auth/jwt_authn.rs`) each become a `Principal`. Both hold the tenant to
the rule of a name and the id to a weaker one, so neither contains the unit
separator (`Authenticators.separator_notMem`). What a policy sees of
the principal is its entity (`principalEntities`): whether it is a key, its
id, its tenant and its groups.
-/

namespace Rustberg.Auth

/-! ## API keys -/

/-- One configured key. Its secret comes from the environment. -/
structure ApiKeyConfig where
  name : Text
  tenant : Text
  roles : List Text

/-- A configured key with its secret's hash; the hash is not part of who it is. -/
structure ApiKey where
  name : Text
  tenantId : Text
  roles : List Text
  deriving DecidableEq

/-- Why a configured key is refused at startup. -/
inductive KeyRefused where
  | unset
  | empty
  | format (reason : Text)
  | tenant (e : AppError)
  | name (e : AppError)
  | role (found : Char)
  deriving DecidableEq

def apiKeyPrefix : Text := "rb_".toList

def minApiKeyLength : Nat := 10

def maxApiKeyLength : Nat := 64

def validateKeyFormat (key : Text) : Except Text Unit :=
  if maxApiKeyLength < key.len then .error "API key too long".toList
  else if key.len < minApiKeyLength then .error "API key too short".toList
  else match Text.stripPrefix key apiKeyPrefix with
  | none => .error "Invalid API key format".toList
  | some material =>
      if material.all fun c => c.isAlphanum || c == '-' || c == '_' then .ok ()
      else .error "API key contains invalid characters".toList

/-- The first of a key's roles that cannot be a group id. -/
def checkRoles (u : UnicodeData) : List Text → Except KeyRefused Unit
  | [] => .ok ()
  | role :: roles =>
      match unusableRoleChar u role with
      | some found => .error (.role found)
      | none => checkRoles u roles

def ApiKeyConfig.buildFrom (u : UnicodeData) (config : ApiKeyConfig) (secret : Option Text) :
    Except KeyRefused ApiKey :=
  match secret with
  | none => .error .unset
  | some secret =>
      if secret.trim = [] then .error .empty
      else do
        (validateKeyFormat secret).mapError KeyRefused.format
        (validateTenantId u config.tenant).mapError KeyRefused.tenant
        (validatePrincipalId u config.name).mapError KeyRefused.name
        checkRoles u config.roles
        pure ⟨config.name, config.tenant, config.roles⟩

def keyToPrincipal (apiKey : ApiKey) : Principal :=
  ⟨apiKey.name, .apiKey, apiKey.tenantId, apiKey.roles⟩

/-! ## Tokens -/

/-- The claims of a verified token: the subject, and every other by name. -/
structure Claims where
  sub : Text
  rest : List (Text × Json)

/-- The member at a path of objects. -/
def descend : List Text → Json → Option Json
  | [], current => some current
  | part :: parts, current =>
      (current.asObject.bind fun members => Json.get members part).bind (descend parts)

/-- The longest of the first `split` dotted segments that is a literal key,
and what lies below it. -/
def longestKey (rest : List (Text × Json)) (segments : List Text) : Nat → Option Json
  | 0 => none
  | split + 1 =>
      match Json.get rest (Text.join ['.'] (segments.take (split + 1))) with
      | none => longestKey rest segments split
      -- The literal key is the claim: a miss below it ends the lookup.
      | some root => descend (segments.drop (split + 1)) root

namespace Claims

def valueAt (claims : Claims) (name : Text) : Option Json :=
  let segments := name.splitOn '.'
  longestKey claims.rest segments segments.length

def stringAt (claims : Claims) (name : Text) : Option Text :=
  ((claims.valueAt name).bind Json.asStr).filter (· ≠ [])

def stringsAt (claims : Claims) (name : Text) : List Text :=
  match claims.valueAt name with
  | some (.array items) => (items.filterMap Json.asStr).filter (· ≠ [])
  | some (.string s) => if s = [] then [] else [s]
  | _ => []

end Claims

/-- What of the configuration says how claims are read. -/
structure JwtConfig where
  defaultTenantId : Text
  tenantClaim : Text
  rolesClaim : Text

/-- A refusal is answered as an invalid token. -/
def claimsToPrincipal (u : UnicodeData) (config : JwtConfig) (claims : Claims) :
    Except AppError Principal := do
  let tenantId := (claims.stringAt config.tenantClaim).getD config.defaultTenantId
  validateTenantId u tenantId
  validatePrincipalId u claims.sub
  pure ⟨claims.sub, .user, tenantId, usableRoles u (claims.stringsAt config.rolesClaim)⟩

/-! ## Authenticators -/

/-- Every request's principal where nothing is configured. -/
def Principal.anonymous : Principal := ⟨"anonymous".toList, .anonymous, "default".toList, []⟩

/-- What a deployment authenticates with. -/
structure Authenticators where
  jwt : Option JwtConfig
  apiKeys : List (ApiKeyConfig × Option Text)

/-- A principal some request can have. Which request has it (the token's
signature, the secret's hash, the key's expiry) does not matter here. -/
inductive Authenticators.Produces (u : UnicodeData) (auth : Authenticators) : Principal → Prop
  | apiKey {config : ApiKeyConfig} {secret : Option Text} {apiKey : ApiKey}
      (hconfig : (config, secret) ∈ auth.apiKeys) (hkey : config.buildFrom u secret = .ok apiKey) :
      auth.Produces u (keyToPrincipal apiKey)
  | token {config : JwtConfig} {claims : Claims} {principal : Principal}
      (hconfig : auth.jwt = some config)
      (hclaims : claimsToPrincipal u config claims = .ok principal) : auth.Produces u principal
  | anonymous (hjwt : auth.jwt = none) (hkeys : auth.apiKeys = []) :
      auth.Produces u Principal.anonymous

/-! ## The principal as policies see it -/

/-- The uid a policy names a principal by. -/
def Principal.uid (principal : Principal) : EntityUid :=
  let kind := match principal.principalType with
    | .apiKey => EntityType.apiKey
    | _ => EntityType.user
  ⟨kind, principal.id⟩

/-- The principal's uid, and its entity with its groups. -/
def principalEntities (context : AuthzContext) : EntityUid × List Entity :=
  let uid := context.principal.uid
  let groups : List EntityUid := context.principal.roles.map fun role => ⟨.group, role⟩
  (uid, groups.map (fun group => ⟨group, [], []⟩) ++
    [⟨uid, tenantAttr context.principal.tenantId, groups⟩])

variable {u : UnicodeData} {auth : Authenticators} {principal : Principal}

theorem ApiKeyConfig.buildFrom_eq_ok {config : ApiKeyConfig} {secret : Option Text}
    {apiKey : ApiKey} (h : config.buildFrom u secret = .ok apiKey) :
    validateTenantId u apiKey.tenantId = .ok () ∧ validatePrincipalId u apiKey.name = .ok () := by
  unfold ApiKeyConfig.buildFrom at h
  split at h
  · cases h
  split at h
  · cases h
  obtain ⟨_, _, h⟩ := Except.bind_eq_ok.mp h
  obtain ⟨_, htenant, h⟩ := Except.bind_eq_ok.mp h
  obtain ⟨_, hname, h⟩ := Except.bind_eq_ok.mp h
  obtain ⟨_, _, h⟩ := Except.bind_eq_ok.mp h
  cases h
  exact ⟨Except.mapError_eq_ok.mp htenant, Except.mapError_eq_ok.mp hname⟩

theorem claimsToPrincipal_eq_ok {config : JwtConfig} {claims : Claims}
    (h : claimsToPrincipal u config claims = .ok principal) :
    validateTenantId u principal.tenantId = .ok () ∧
      validatePrincipalId u principal.id = .ok () := by
  obtain ⟨_, htenant, h⟩ := Except.bind_eq_ok.mp h
  obtain ⟨_, hsub, h⟩ := Except.bind_eq_ok.mp h
  cases h
  exact ⟨htenant, hsub⟩

/-- No id and no tenant contains the unit separator. -/
theorem Authenticators.separator_notMem (h : auth.Produces u principal) :
    partSeparator ∉ principal.id ∧ partSeparator ∉ principal.tenantId := by
  cases h with
  | apiKey hconfig hkey =>
      obtain ⟨htenant, hname⟩ := ApiKeyConfig.buildFrom_eq_ok hkey
      exact ⟨partSeparator_notMem_of_validatePrincipalId hname,
        partSeparator_notMem_of_validateTenantId htenant⟩
  | token hconfig hclaims =>
      obtain ⟨htenant, hsub⟩ := claimsToPrincipal_eq_ok hclaims
      exact ⟨partSeparator_notMem_of_validatePrincipalId hsub,
        partSeparator_notMem_of_validateTenantId htenant⟩
  | anonymous hjwt hkeys => exact ⟨by decide, by decide⟩

/-- Kind and id together say which principal a policy names. -/
theorem Principal.uid_eq_iff {principal principal' : Principal} :
    principal.uid = principal'.uid ↔ principal.id = principal'.id ∧
      (principal.principalType = .apiKey ↔ principal'.principalType = .apiKey) := by
  unfold Principal.uid
  simp only [EntityUid.mk.injEq]
  rw [and_comm]
  refine and_congr_right fun _ => ?_
  cases principal.principalType <;> cases principal'.principalType <;> simp

/-- A principal as the authorizer sees it: its entity and its tenant, as any
two contexts have them. -/
def Principal.SeenAlike (principal principal' : Principal) : Prop :=
  ∀ context context' : AuthzContext, context.principal = principal →
    context'.principal = principal' →
      (principalEntities context).1 = (principalEntities context').1 ∧
        principal.tenantId = principal'.tenantId

theorem Principal.seenAlike_iff {principal principal' : Principal} :
    principal.SeenAlike principal' ↔
      principal.uid = principal'.uid ∧ principal.tenantId = principal'.tenantId := by
  constructor
  · intro h
    exact h ⟨principal, .catalog [], .read, ⟨none, none, []⟩⟩
      ⟨principal', .catalog [], .read, ⟨none, none, []⟩⟩ rfl rfl
  · rintro h context context' rfl rfl
    exact h

end Rustberg.Auth
