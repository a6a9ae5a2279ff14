import Rustberg.Auth.Authz
import Rustberg.Names

/-!
# The entities a request is decided over

`resource_entities` of `auth/cedar.rs` builds the resource of a request
and its ancestors from the recorded owner and the path alone: the tenant,
one entity for each level of the namespace, each the child of the one
before, and the table or view below them.

An entity's id is the path joined with the unit separator, which no
validated name contains. So an id determines its path (`pathId_inj`), and
being in a namespace is lying under it (`resourceEntities_exact`).
-/

namespace Rustberg.Auth

/-- The entity types of the schema. -/
inductive EntityType where
  | tenant
  | policySet
  | namespc
  | table
  | view
  | user
  | apiKey
  | group
  deriving DecidableEq, Repr

structure EntityUid where
  entityType : EntityType
  id : Text
  deriving DecidableEq, Repr

structure Entity where
  uid : EntityUid
  attrs : List (Text × Text)
  parents : List EntityUid

/-- Whom an entity belongs to, the one attribute it has. -/
def tenantAttr (tenant : Text) : List (Text × Text) := [("tenant".toList, tenant)]

/-- One level of the namespace chain: the last uid, the path, the entities so far. -/
def pushLevel (tenant : Text) (chain : EntityUid × Text × List Entity) (level : Text) :
    EntityUid × Text × List Entity :=
  let (parent, path, entities) := chain
  let path := path ++ partSeparator :: level
  let uid : EntityUid := ⟨.namespc, path⟩
  (uid, path, entities ++ [⟨uid, tenantAttr tenant, [parent]⟩])

/-- The resource's own uid, and its entity with every ancestor it has. -/
def resourceEntities (context : AuthzContext) : EntityUid × List Entity :=
  let tenant := context.resource.tenantId
  let tenantUid : EntityUid := ⟨.tenant, tenant⟩
  let root : Entity := ⟨tenantUid, tenantAttr tenant, []⟩
  if context.resource.resourceType = .policySet then
    let uid : EntityUid := ⟨.policySet, tenant⟩
    (uid, [root, ⟨uid, tenantAttr tenant, [tenantUid]⟩])
  else
    let namespc := context.resource.namespc.getD []
    let (parent, path, entities) := namespc.foldl (pushLevel tenant) (tenantUid, tenant, [root])
    match context.resource.name with
    | some name =>
        let leafType := match context.resource.resourceType with
          | .view => EntityType.view
          | _ => EntityType.table
        let uid : EntityUid := ⟨leafType, path ++ partSeparator :: name⟩
        (uid, entities ++ [⟨uid, tenantAttr tenant, [parent]⟩])
    | none => (parent, entities)

/-- `uid` lists `parent` among its parents. -/
def HasParent (entities : List Entity) (uid parent : EntityUid) : Prop :=
  ∃ entity ∈ entities, entity.uid = uid ∧ parent ∈ entity.parents

/-- The ancestors of a uid, the closure Cedar takes of the parents. -/
abbrev Ancestor (entities : List Entity) : EntityUid → EntityUid → Prop :=
  Relation.TransGen (HasParent entities)

/-- The resource of a request is `in` an entity. -/
def AuthzContext.ResourceIn (context : AuthzContext) (uid : EntityUid) : Prop :=
  (resourceEntities context).1 = uid ∨
    Ancestor (resourceEntities context).2 (resourceEntities context).1 uid

/-! ## Ids -/

/-- The id of the entity at a path below a tenant. -/
def pathId (tenant : Text) (path : List Text) : Text := tenant ++ Text.below partSeparator path

/-- The tenant, or the namespace at a path below it. -/
def levelUid (tenant : Text) (path : List Text) : EntityUid :=
  ⟨if path = [] then .tenant else .namespc, pathId tenant path⟩

variable {u : UnicodeData} {tenant tenant' : Text} {path path' : List Text}

@[simp] theorem pathId_nil (tenant : Text) : pathId tenant [] = tenant := List.append_nil _

theorem pathId_snoc (tenant : Text) (path : List Text) (level : Text) :
    pathId tenant (path ++ [level]) = pathId tenant path ++ partSeparator :: level := by
  simp [pathId, Text.below]

@[simp] theorem levelUid_nil (tenant : Text) : levelUid tenant [] = ⟨.tenant, tenant⟩ := by
  simp [levelUid]

theorem levelUid_of_ne_nil (h : path ≠ []) :
    levelUid tenant path = ⟨.namespc, pathId tenant path⟩ := by
  rw [levelUid, if_neg h]

theorem splitOn_pathId (htenant : ValidName u tenant) (hpath : ∀ s ∈ path, ValidName u s) :
    (pathId tenant path).splitOn partSeparator = tenant :: path := by
  rw [pathId, Text.splitOn_append_below _ fun s hs => (hpath s hs).partSeparator_notMem,
    List.splitOn_eq_singleton htenant.partSeparator_notMem, List.singleton_append]

/-- An id determines the path it was built from. -/
theorem pathId_inj (htenant : ValidName u tenant) (hpath : ∀ s ∈ path, ValidName u s)
    (htenant' : ValidName u tenant') (hpath' : ∀ s ∈ path', ValidName u s)
    (h : pathId tenant path = pathId tenant' path') : tenant = tenant' ∧ path = path' := by
  have hsplit := congrArg (List.splitOn partSeparator) h
  rw [splitOn_pathId htenant hpath, splitOn_pathId htenant' hpath'] at hsplit
  exact List.cons_eq_cons.mp hsplit

theorem levelUid_inj (htenant : ValidName u tenant) (hpath : ∀ s ∈ path, ValidName u s)
    (htenant' : ValidName u tenant') (hpath' : ∀ s ∈ path', ValidName u s)
    (h : levelUid tenant path = levelUid tenant' path') : tenant = tenant' ∧ path = path' :=
  pathId_inj htenant hpath htenant' hpath' (congrArg EntityUid.id h)

/-! ## The chain -/

/-- The entities of the tenant and of every level of a namespace. -/
def levelEntities (tenant : Text) (path : List Text) : List Entity :=
  path.inits.map fun p =>
    ⟨levelUid tenant p, tenantAttr tenant, if p = [] then [] else [levelUid tenant p.dropLast]⟩

theorem foldl_pushLevel (tenant : Text) (path : List Text) :
    path.foldl (pushLevel tenant)
        (⟨.tenant, tenant⟩, tenant, [⟨⟨.tenant, tenant⟩, tenantAttr tenant, []⟩]) =
      (levelUid tenant path, pathId tenant path, levelEntities tenant path) := by
  induction path using List.reverseRecOn with
  | nil => simp [levelEntities]
  | append_singleton path level ih =>
      rw [List.foldl_concat, ih]
      simp [pushLevel, levelEntities, levelUid, pathId_snoc, List.inits_append]

theorem hasParent_append {a b : List Entity} {uid parent : EntityUid} :
    HasParent (a ++ b) uid parent ↔ HasParent a uid parent ∨ HasParent b uid parent := by
  simp only [HasParent, List.mem_append, or_and_right, exists_or]

theorem hasParent_singleton {entity : Entity} {uid parent : EntityUid} :
    HasParent [entity] uid parent ↔ entity.uid = uid ∧ parent ∈ entity.parents := by
  simp [HasParent]

/-- The parent of a level is the level above it. -/
theorem hasParent_level {namespc : List Text} (htenant : ValidName u tenant)
    (hnamespc : ∀ s ∈ namespc, ValidName u s) (hpath : ∀ s ∈ path, ValidName u s)
    {parent : EntityUid} :
    HasParent (levelEntities tenant namespc) (levelUid tenant path) parent ↔
      path <+: namespc ∧ path ≠ [] ∧ parent = levelUid tenant path.dropLast := by
  constructor
  · rintro ⟨entity, hentity, huid, hparent⟩
    obtain ⟨p, hp, rfl⟩ := List.mem_map.mp hentity
    have hunder : p <+: namespc := (List.mem_inits _ _).mp hp
    obtain ⟨-, rfl⟩ :=
      levelUid_inj htenant (fun s hs => hnamespc s (hunder.subset hs)) htenant hpath huid
    by_cases hnil : p = []
    · simp [hnil] at hparent
    · simp only [hnil, if_false, List.mem_singleton] at hparent
      exact ⟨hunder, hnil, hparent⟩
  · rintro ⟨hunder, hnil, rfl⟩
    refine ⟨_, List.mem_map.mpr ⟨path, (List.mem_inits _ _).mpr hunder, rfl⟩, rfl, ?_⟩
    simp [hnil]

theorem prefix_ne_concat {ns p : List Text} {name : Text} :
    p <+: ns ++ [name] ∧ p ≠ ns ++ [name] ↔ p <+: ns := by
  rw [List.prefix_concat_iff]
  constructor
  · rintro ⟨h, hne⟩
    exact h.resolve_left hne
  · intro hp
    refine ⟨Or.inr hp, fun heq => ?_⟩
    have hlen := hp.length_le
    rw [heq, List.length_append, List.length_singleton] at hlen
    omega

/-- The ancestors of a level are the levels above it, whatever leaf is there too. -/
theorem ancestor_level {namespc : List Text} {leaf : List Entity} (htenant : ValidName u tenant)
    (hnamespc : ∀ s ∈ namespc, ValidName u s)
    (hleaf : ∀ path parent, ¬ HasParent leaf (levelUid tenant path) parent)
    (hunder : path <+: namespc) {uid : EntityUid} :
    Ancestor (levelEntities tenant namespc ++ leaf) (levelUid tenant path) uid ↔
      ∃ p, p <+: path ∧ p ≠ path ∧ uid = levelUid tenant p := by
  have hparent : ∀ {path parent}, path <+: namespc →
      (HasParent (levelEntities tenant namespc ++ leaf) (levelUid tenant path) parent ↔
        path ≠ [] ∧ parent = levelUid tenant path.dropLast) := by
    intro path parent hpath
    rw [hasParent_append, or_iff_left (hleaf path parent),
      hasParent_level htenant hnamespc fun s hs => hnamespc s (hpath.subset hs)]
    exact and_iff_right hpath
  induction path using List.reverseRecOn generalizing uid with
  | nil =>
      refine Relation.TransGen.head'_iff.trans ⟨?_, ?_⟩
      · rintro ⟨parent, h, -⟩
        exact absurd rfl ((hparent hunder).mp h).1
      · rintro ⟨p, hp, hne, -⟩
        exact absurd (List.prefix_nil.mp hp) hne
  | append_singleton path level ih =>
      have hup : path <+: namespc := (List.prefix_append path [level]).trans hunder
      refine Relation.TransGen.head'_iff.trans ⟨?_, ?_⟩
      · rintro ⟨parent, h, hrest⟩
        obtain ⟨-, rfl⟩ := (hparent hunder).mp h
        rw [List.dropLast_concat] at hrest
        rcases (Relation.reflTransGen_iff_eq_or_transGen.mp hrest) with rfl | hrest
        · exact ⟨path, List.prefix_append .., by simp, rfl⟩
        · obtain ⟨p, hp, -, rfl⟩ := (ih hup).mp hrest
          exact ⟨p, (prefix_ne_concat.mpr hp).1, (prefix_ne_concat.mpr hp).2, rfl⟩
      · rintro ⟨p, hp, hne, rfl⟩
        refine ⟨levelUid tenant path, (hparent hunder).mpr ⟨by simp, by simp⟩, ?_⟩
        have hpath : p <+: path := prefix_ne_concat.mp ⟨hp, hne⟩
        rw [Relation.reflTransGen_iff_eq_or_transGen]
        by_cases heq : p = path
        · exact Or.inl (by rw [heq])
        · exact Or.inr ((ih hup).mpr ⟨p, hpath, heq, rfl⟩)

/-- The ancestors of a leaf are the levels of its namespace. -/
theorem ancestor_leaf {namespc : List Text} {uid : EntityUid} {attrs : List (Text × Text)}
    (htenant : ValidName u tenant) (hnamespc : ∀ s ∈ namespc, ValidName u s)
    (hleaf : ∀ path, uid ≠ levelUid tenant path) {above : EntityUid} :
    Ancestor (levelEntities tenant namespc ++ [⟨uid, attrs, [levelUid tenant namespc]⟩]) uid above ↔
      ∃ p, p <+: namespc ∧ above = levelUid tenant p := by
  have hlevel : ∀ {path}, path <+: namespc →
      ∀ {above},
        Ancestor (levelEntities tenant namespc ++ [⟨uid, attrs, [levelUid tenant namespc]⟩])
          (levelUid tenant path) above ↔ ∃ p, p <+: path ∧ p ≠ path ∧ above = levelUid tenant p :=
    ancestor_level htenant hnamespc fun path parent h => hleaf path (hasParent_singleton.mp h).1
  have hparent : ∀ {parent},
      HasParent (levelEntities tenant namespc ++ [⟨uid, attrs, [levelUid tenant namespc]⟩]) uid
        parent ↔ parent = levelUid tenant namespc := by
    intro parent
    rw [hasParent_append, hasParent_singleton, or_iff_right]
    · simp
    · rintro ⟨entity, hentity, huid, -⟩
      obtain ⟨p, -, rfl⟩ := List.mem_map.mp hentity
      exact hleaf p huid.symm
  refine Relation.TransGen.head'_iff.trans ⟨?_, ?_⟩
  · rintro ⟨parent, h, hrest⟩
    obtain rfl := hparent.mp h
    rcases Relation.reflTransGen_iff_eq_or_transGen.mp hrest with rfl | hrest
    · exact ⟨namespc, List.prefix_rfl, rfl⟩
    · obtain ⟨p, hp, -, rfl⟩ := (hlevel List.prefix_rfl).mp hrest
      exact ⟨p, hp, rfl⟩
  · rintro ⟨p, hp, rfl⟩
    refine ⟨_, hparent.mpr rfl, Relation.reflTransGen_iff_eq_or_transGen.mpr ?_⟩
    by_cases heq : p = namespc
    · exact Or.inl (by rw [heq])
    · exact Or.inr ((hlevel List.prefix_rfl).mpr ⟨p, hp, heq, rfl⟩)

/-! ## Resources -/

namespace Resource

/-- The levels of the namespace, and the name below them. -/
def segments (resource : Resource) : List Text :=
  resource.namespc.getD [] ++ resource.name.toList

/-- The tenant, the levels of the namespace and the name are valid names. -/
structure ValidNames (u : UnicodeData) (resource : Resource) : Prop where
  tenant : ValidName u resource.tenantId
  segments : ∀ s ∈ resource.segments, ValidName u s

/-- What the five constructors build, of a namespace that has a level. -/
inductive Shaped : Resource → Prop
  | catalog (tenant : Text) : Shaped (.catalog tenant)
  | policySet (tenant : Text) : Shaped (.policySet tenant)
  | namespc (tenant : Text) {ns : List Text} (hne : ns ≠ []) : Shaped (.ofNamespace tenant ns)
  | table (tenant : Text) (ns : List Text) (name : Text) : Shaped (.ofTable tenant ns name)
  | view (tenant : Text) (ns : List Text) (name : Text) : Shaped (.ofView tenant ns name)

/-- The entity type a resource of each kind gets. -/
def entityType (resource : Resource) : EntityType :=
  match resource.resourceType with
  | .catalog => .tenant
  | .policySet => .policySet
  | .namespc => .namespc
  | .table => .table
  | .view => .view

end Resource

/-- What `resource_entities` returns for a resource of one of the five kinds. -/
theorem resourceEntities_eq {context : AuthzContext} (h : context.resource.Shaped) :
    resourceEntities context =
      let resource := context.resource
      let uid : EntityUid := ⟨resource.entityType, pathId resource.tenantId resource.segments⟩
      let root := levelEntities resource.tenantId (resource.namespc.getD [])
      (uid, root ++ if resource.name = none ∧ resource.resourceType ≠ .policySet then []
        else [⟨uid, tenantAttr resource.tenantId,
          [levelUid resource.tenantId (resource.namespc.getD [])]⟩]) := by
  obtain ⟨principal, resource, action, request⟩ := context
  cases h with
  | catalog tenant | policySet tenant =>
      simp [resourceEntities, Resource.entityType, Resource.segments, levelEntities]
  | namespc tenant hne =>
      simp [resourceEntities, Resource.entityType, Resource.segments, foldl_pushLevel,
        levelUid_of_ne_nil hne]
  | table tenant ns name | view tenant ns name =>
      simp [resourceEntities, Resource.entityType, Resource.segments, foldl_pushLevel, pathId_snoc]

/-- Two resources of one entity id and type are one. -/
theorem Resource.ValidNames.eq_of_uid {r r' : Resource} (h : r.ValidNames u) (h' : r'.ValidNames u)
    (hshape : r.Shaped) (hshape' : r'.Shaped) (htype : r.entityType = r'.entityType)
    (hid : pathId r.tenantId r.segments = pathId r'.tenantId r'.segments) : r = r' := by
  obtain ⟨htenant, hsegments⟩ := pathId_inj h.tenant h.segments h'.tenant h'.segments hid
  cases hshape <;> cases hshape' <;> cases htype
  case catalog.catalog => cases htenant; rfl
  case policySet.policySet => cases htenant; rfl
  case namespc.namespc =>
    cases htenant
    have hns := List.append_cancel_right hsegments
    dsimp only [ofNamespace, Option.getD_some] at hns
    rw [hns]
  case table.table =>
    cases htenant
    obtain ⟨hns, hname⟩ := List.append_inj' hsegments rfl
    cases hname
    have hns := by simpa [ofTable] using hns
    rw [hns]
  case view.view =>
    cases htenant
    obtain ⟨hns, hname⟩ := List.append_inj' hsegments rfl
    cases hname
    have hns := by simpa [ofView] using hns
    rw [hns]

/-- The ancestors of a resource: the tenant and the namespaces at the proper
prefixes of its path; of the policy set, the tenant. -/
theorem ancestor_iff {context : AuthzContext} (h : context.resource.ValidNames u)
    (hshape : context.resource.Shaped) {uid : EntityUid} :
    Ancestor (resourceEntities context).2 (resourceEntities context).1 uid ↔
      (context.resource.resourceType = .policySet ∧ uid = levelUid context.resource.tenantId []) ∨
        ∃ p, p <+: context.resource.segments ∧ p ≠ context.resource.segments ∧
          uid = levelUid context.resource.tenantId p := by
  have hns : ∀ s ∈ context.resource.namespc.getD [], ValidName u s := fun s hs =>
    h.segments s (List.mem_append_left _ hs)
  have htenant := h.tenant
  have hleaf : ∀ (kind : EntityType) {id : Text}, kind ≠ .tenant → kind ≠ .namespc →
      ∀ path, (⟨kind, id⟩ : EntityUid) ≠ levelUid context.resource.tenantId path := by
    intro kind id hroot hlevel path heq
    rw [levelUid] at heq
    split at heq <;> cases heq
    · exact hroot rfl
    · exact hlevel rfl
  have hnone : ∀ path parent,
      ¬ HasParent [] (levelUid context.resource.tenantId path) parent := by
    rintro path parent ⟨_, hmem, -⟩
    cases hmem
  have hlevel :
    Ancestor (levelEntities context.resource.tenantId (context.resource.namespc.getD []) ++
      []) (levelUid context.resource.tenantId (context.resource.namespc.getD [])) uid ↔ _ :=
    ancestor_level htenant hns hnone List.prefix_rfl
  rw [resourceEntities_eq hshape]
  obtain ⟨principal, resource, action, request⟩ := context
  cases hshape with
  | catalog _ => simpa [Resource.catalog, Resource.entityType, Resource.segments] using hlevel
  | policySet _ =>
      refine (ancestor_leaf htenant hns (hleaf .policySet nofun nofun)).trans ?_
      simp [Resource.segments]
  | namespc _ hne =>
      simpa [Resource.ofNamespace, Resource.entityType, Resource.segments,
        levelUid_of_ne_nil hne] using hlevel
  | table _ _ _ =>
      refine (ancestor_leaf htenant hns (hleaf .table nofun nofun)).trans ?_
      simp [Resource.segments, ← and_assoc, prefix_ne_concat]
  | view _ _ _ =>
      refine (ancestor_leaf htenant hns (hleaf .view nofun nofun)).trans ?_
      simp [Resource.segments, ← and_assoc, prefix_ne_concat]

/-- A resource is in a namespace where its own namespace is that one or under it. -/
theorem resourceIn_iff {context : AuthzContext} (h : context.resource.ValidNames u)
    (hshape : context.resource.Shaped) {namespc : List Text} (htenant : ValidName u tenant)
    (hvalid : ∀ s ∈ namespc, ValidName u s) (hne : namespc ≠ []) :
    context.ResourceIn (levelUid tenant namespc) ↔
      context.resource.tenantId = tenant ∧ namespc <+: context.resource.namespc.getD [] := by
  have hinj : ∀ {p}, p <+: context.resource.segments →
      (levelUid tenant namespc = levelUid context.resource.tenantId p ↔
        context.resource.tenantId = tenant ∧ p = namespc) := by
    intro p hp
    refine ⟨fun heq => ?_, fun ⟨htenant, hp⟩ => by rw [htenant, hp]⟩
    obtain ⟨htenant, hpath⟩ :=
      levelUid_inj htenant hvalid h.tenant (fun s hs => h.segments s (hp.subset hs)) heq
    exact ⟨htenant.symm, hpath.symm⟩
  have hbelow : context.ResourceIn (levelUid tenant namespc) ↔
      (resourceEntities context).1 = levelUid tenant namespc ∨
        context.resource.tenantId = tenant ∧ namespc <+: context.resource.segments ∧
          namespc ≠ context.resource.segments := by
    rw [AuthzContext.ResourceIn, ancestor_iff h hshape]
    refine or_congr_right ⟨?_, ?_⟩
    · rintro (⟨-, heq⟩ | ⟨p, hp, hproper, heq⟩)
      · exact absurd ((hinj List.nil_prefix).mp heq).2.symm hne
      · obtain ⟨htenant, rfl⟩ := (hinj hp).mp heq
        exact ⟨htenant, hp, hproper⟩
    · rintro ⟨htenant, hp, hproper⟩
      exact Or.inr ⟨namespc, hp, hproper, (hinj hp).mpr ⟨htenant, rfl⟩⟩
  have hself : (resourceEntities context).1 = levelUid tenant namespc ↔
      context.resource.resourceType = .namespc ∧ context.resource.tenantId = tenant ∧
        namespc = context.resource.segments := by
    rw [resourceEntities_eq hshape, levelUid_of_ne_nil hne, EntityUid.mk.injEq]
    refine and_congr ?_ ⟨fun heq => ?_, fun ⟨htenant, hpath⟩ => by rw [htenant, hpath]⟩
    · cases context.resource with
      | mk kind _ _ _ => cases kind <;> simp [Resource.entityType]
    · exact pathId_inj h.tenant h.segments htenant hvalid heq |>.imp_right Eq.symm
  rw [hbelow, hself]
  obtain ⟨principal, resource, action, request⟩ := context
  cases hshape with
  | catalog _ => simp [Resource.segments, hne]
  | policySet _ => simp [Resource.segments, hne]
  | @namespc tenant' ns _ =>
      change (ResourceType.namespc = .namespc ∧ tenant' = tenant ∧ namespc = ns ++ []) ∨
          tenant' = tenant ∧ namespc <+: ns ++ [] ∧ namespc ≠ ns ++ [] ↔
        tenant' = tenant ∧ namespc <+: ns
      rw [List.append_nil]
      constructor
      · rintro (⟨-, htenant, rfl⟩ | ⟨htenant, hp, -⟩)
        · exact ⟨htenant, List.prefix_rfl⟩
        · exact ⟨htenant, hp⟩
      · rintro ⟨htenant, hp⟩
        by_cases heq : namespc = ns
        · exact Or.inl ⟨rfl, htenant, heq⟩
        · exact Or.inr ⟨htenant, hp, heq⟩
  | table _ _ _ => simp [Resource.segments, prefix_ne_concat]
  | view _ _ _ => simp [Resource.segments, prefix_ne_concat]

/-- The resource of a request is an entity of its own; its ancestors are the
tenant and the namespaces its path names; and it is in a namespace exactly when
it is that namespace or lies under it. -/
theorem resourceEntities_exact (u : UnicodeData) (context : AuthzContext)
    (h : context.resource.ValidNames u) (hshape : context.resource.Shaped) :
    (∀ uid, Ancestor (resourceEntities context).2 (resourceEntities context).1 uid ↔
        (context.resource.resourceType = .policySet ∧
          uid = levelUid context.resource.tenantId []) ∨
        ∃ p, p <+: context.resource.segments ∧ p ≠ context.resource.segments ∧
          uid = levelUid context.resource.tenantId p) ∧
      (∀ context' : AuthzContext, context'.resource.ValidNames u → context'.resource.Shaped →
        (resourceEntities context).1 = (resourceEntities context').1 →
          context.resource = context'.resource) ∧
      ∀ tenant namespc, ValidName u tenant → (∀ s ∈ namespc, ValidName u s) → namespc ≠ [] →
        (context.ResourceIn (levelUid tenant namespc) ↔
          context.resource.tenantId = tenant ∧ namespc <+: context.resource.namespc.getD []) := by
  refine ⟨fun uid => ancestor_iff h hshape, fun context' h' hshape' heq => ?_,
    fun tenant namespc htenant hns hne => resourceIn_iff h hshape htenant hns hne⟩
  rw [resourceEntities_eq hshape, resourceEntities_eq hshape'] at heq
  exact h.eq_of_uid h' hshape hshape' (congrArg EntityUid.entityType heq)
    (congrArg EntityUid.id heq)

/-- A request of `ann` of tenant `acme`, to read a resource. -/
def readOf (resource : Resource) : AuthzContext :=
  ⟨⟨"ann".toList, .user, "acme".toList, []⟩, resource, .read, ⟨none, none, []⟩⟩

/-- The table `events` in namespace `web.raw` of tenant `acme`. -/
def eventsTable : Resource :=
  .ofTable "acme".toList ["web".toList, "raw".toList] "events".toList

/-- The namespace of that path. -/
def eventsNamespace : Resource :=
  .ofNamespace "acme".toList ["web".toList, "raw".toList, "events".toList]

theorem eventsTable_valid : eventsTable.ValidNames UnicodeData.plain where
  tenant := .of_check (by decide)
  segments s hs := by
    fin_cases hs
    · exact .of_check (by decide)
    · exact .of_check (by decide)
    · exact .of_check (by decide)

theorem eventsNamespace_valid : eventsNamespace.ValidNames UnicodeData.plain :=
  ⟨eventsTable_valid.tenant, eventsTable_valid.segments⟩

/-- The table is below `web` and not in another tenant's `web`, and a namespace
of its path is another entity. -/
theorem resourceEntities_exact_events :
    Ancestor (resourceEntities (readOf eventsTable)).2 (resourceEntities (readOf eventsTable)).1
        (levelUid "acme".toList ["web".toList]) ∧
      (resourceEntities (readOf eventsTable)).1 ≠
        (resourceEntities (readOf eventsNamespace)).1 ∧
      ¬ (readOf eventsTable).ResourceIn (levelUid "beta".toList ["web".toList]) := by
  obtain ⟨hancestors, hinj, hin⟩ := resourceEntities_exact UnicodeData.plain (readOf eventsTable)
    eventsTable_valid (.table ..)
  refine ⟨(hancestors _).mpr (.inr ⟨["web".toList], by decide, by decide, rfl⟩), fun heq => ?_,
    fun hbeta => ?_⟩
  · have hsame := hinj (readOf eventsNamespace) eventsNamespace_valid (.namespc _ (by decide)) heq
    exact absurd (congrArg Resource.resourceType hsame) (by decide)
  · have hvalid : ∀ s ∈ ["web".toList], ValidName UnicodeData.plain s := fun s hs => by
      fin_cases hs
      exact .of_check (by decide)
    have htenant := ((hin "beta".toList ["web".toList] (.of_check (by decide)) hvalid
      (by decide)).mp hbeta).1
    exact absurd htenant (by decide)

/-- A namespace without a level is the tenant, as the catalog is. -/
theorem emptyNamespace_isTenant :
    ¬ ∀ (u : UnicodeData) (context context' : AuthzContext), context.resource.ValidNames u →
      context'.resource.ValidNames u →
        (resourceEntities context).1 = (resourceEntities context').1 →
          context.resource = context'.resource := by
  intro hinj
  have htenant : ValidName UnicodeData.plain "acme".toList := .of_check (by decide)
  have hsame := hinj UnicodeData.plain (readOf (.ofNamespace "acme".toList []))
    (readOf (.catalog "acme".toList)) ⟨htenant, fun s hs => absurd hs List.not_mem_nil⟩
    ⟨htenant, fun s hs => absurd hs List.not_mem_nil⟩ rfl
  exact absurd (congrArg Resource.resourceType hsame) (by decide)

end Rustberg.Auth
