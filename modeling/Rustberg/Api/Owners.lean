import Rustberg.Api.Updates
import Rustberg.Catalog.Keys

/-!
# One owner per subtree

A nested namespace is created with the owner read from its parent, and an
update writes back the owner it has read: reading and writing are two calls
of the store. `one_owner_per_subtree` is what holds when every write meets
the owner its request has read and no namespace is dropped from under a
child. A parent dropped and created again between the two leaves a child
with another tenant's owner (`owner_outlives_parent`).
-/

namespace Rustberg.Api

open Process Auth

variable {u : UnicodeData}

/-- The owner recorded under a key, where there is a namespace. -/
def recorded (t : Tree) (key : Text) : Option (Option Text) := (t key).map ownerOf

/-- Every nested namespace has a parent, with the owner it has itself. -/
def OneOwner (u : UnicodeData) (t : Tree) : Prop :=
  ∀ ns owner, ValidNamespace u ns → 1 < ns.length → recorded t (namespaceKey ns) = some owner →
    recorded t (namespaceKey (parentOf ns)) = some owner

/-- No namespace that is there before and after has changed its owner. -/
def OwnersKept (t t' : Tree) : Prop :=
  ∀ key owner owner', recorded t key = some owner → recorded t' key = some owner' → owner' = owner

/-! ## What a request writes -/

/-- The owner a request writes is one it has read: from the parent of what it
creates, or from the namespace it updates. -/
def OwnerIssues (u : UnicodeData) (h : Past) : NamespaceCall → Prop
  | .getNamespace _ => True
  | .createNamespace ns properties => ValidNamespace u ns ∧ (1 < ns.length →
      ∃ parent, lastRead (parentOf ns) h = some parent ∧ ownerOf properties = ownerOf parent)
  | .updateNamespace ns properties => ValidNamespace u ns ∧
      ∃ current, lastRead ns h = some current ∧ ownerOf properties = ownerOf current
  | .dropNamespace ns => ValidNamespace u ns

inductive NamespaceCommand (u : UnicodeData) where
  | create (cached : Option Text) (payload : CreateNamespacePayload)
  | updateProperties (path : NamespacePath u) (payload : UpdateNamespacePropertiesPayload)
  | drop (path : NamespacePath u)

structure NamespaceRequest (u : UnicodeData) where
  app : AppState
  principal : Principal
  facts : RequestContext
  command : NamespaceCommand u

def NamespaceRequest.handler (q : NamespaceRequest u) : Handler Reply :=
  match q.command with
  | .create cached payload => createNamespace u q.app q.principal q.facts cached payload
  | .updateProperties path payload =>
      updateNamespaceProperties q.app q.principal q.facts path payload
  | .drop path => deleteNamespace q.app q.principal q.facts path

theorem NamespacePath.validNamespace (path : NamespacePath u) : ValidNamespace u path.namespc := by
  obtain ⟨hne, -, hall⟩ := validateNamespace_eq_ok.mp path.valid
  exact ⟨hne, hall⟩

/-- Who is authorized on a resource is told its recorded owner. -/
theorem decideOn_owner {app : AppState} {principal : Principal} {request : RequestContext}
    {ns : NamespaceIdent} {target : Target} {action : Auth.Action} {owner : Text}
    {authorized : Authorized}
    (h : decideOn app principal request ns target action owner = .ok authorized) :
    authorized.owner = owner := by
  unfold decideOn at h
  dsimp only at h
  rcases hrecorded : recordDecision app ⟨principal, target.resource owner ns, action, request⟩
      (app.authorizer.decide ⟨principal, target.resource owner ns, action, request⟩) with e | v
  · rw [hrecorded] at h
    cases h
  · rw [hrecorded] at h
    cases hallowed : (app.authorizer.decide ⟨principal, target.resource owner ns, action,
        request⟩).isAllowed with
    | true =>
        rw [hallowed] at h
        exact congrArg Authorized.owner (Except.ok.inj h).symm
    | false =>
        rw [hallowed] at h
        change (if _ then _ else _) = _ at h
        generalize (if action = .read then false else _) = visible at h
        cases visible <;> cases h

theorem authorizeOn_eq_ok {app : AppState} {principal : Principal} {request : RequestContext}
    {ns : NamespaceIdent} {target : Target} {action : Auth.Action}
    {answer : Except Error Properties}
    {authorized : Authorized}
    (h : authorizeOn app principal request ns target action answer = .ok authorized) :
    ∃ properties, answer = .ok properties ∧ ownerOf properties = some authorized.owner := by
  unfold authorizeOn at h
  split at h
  · next owner howner =>
      cases answer with
      | error e =>
          by_cases hkind : e.kind = .namespaceNotFound
          · rw [ownerIn, if_pos hkind] at howner
            cases howner
          · rw [ownerIn, if_neg hkind] at howner
            cases howner
      | ok properties =>
          refine ⟨properties, rfl, ?_⟩
          rw [decideOn_owner h]
          exact Except.ok.inj howner
  · cases h
  · cases h

/-- The owner of a nested namespace is read from its parent. -/
theorem tenantFor_traced (app : AppState) (principal : Principal) (request : RequestContext)
    (ns : NamespaceIdent) (h : Past) :
    Prog.Traced (OwnerIssues u) (fun h r => ∀ tenantId, r = .ok tenantId → 1 < ns.length →
      ∃ parent, lastRead (parentOf ns) h = some parent ∧ ownerOf parent = some tenantId) h
      (tenantFor app principal request ns).run := by
  unfold tenantFor
  split
  · next hroot =>
      refine Prog.Traced.bind_except (Q := fun _ _ => True) trivial (fun h e _ => ?_)
        fun h _ _ => ?_
      · intro tenantId hok
        cases hok
      · intro tenantId _ hlen
        have := congrArg List.length hroot
        rw [parentOf, List.length_dropLast, List.length_nil] at this
        omega
  · refine Prog.Traced.bind_except
      (Q := fun h r => ∀ authorized : Authorized, r = .ok authorized →
        ∃ parent, lastRead (parentOf ns) h = some parent ∧ ownerOf parent = some authorized.owner)
      ?_ (fun h e _ => ?_) fun h authorized hread => ?_
    · rw [authorize_eq]
      refine ⟨trivial, fun r authorized hok => ?_⟩
      obtain ⟨parent, rfl, howner⟩ := authorizeOn_eq_ok hok
      exact ⟨parent, lastRead_snoc_get .., howner⟩
    · intro tenantId hok
      cases hok
    · intro tenantId hok _
      cases hok
      exact hread authorized rfl

theorem createNamespace_traced (app : AppState) (principal : Principal) (request : RequestContext)
    (cached : Option Text) (payload : CreateNamespacePayload) :
    Prog.Traced (OwnerIssues u) (fun _ _ => True) []
      (createNamespace u app principal request cached payload).run := by
  let Done {α : Type} (_ : Past) (_ : Except AppError α) : Prop := True
  refine Prog.Traced.bind_except
    (Q := fun _ r => r = .ok () → ValidNamespace u payload.namespc) ?_ (fun _ _ _ => trivial)
    fun h _ hvalid => ?_
  · intro hok
    obtain ⟨hne, -, hall⟩ := validateNamespace_eq_ok.mp hok
    exact ⟨hne, hall⟩
  refine Prog.Traced.bind_except (Q := Done) trivial (fun _ _ _ => trivial) fun h _ _ => ?_
  refine Prog.Traced.bind_except (tenantFor_traced ..) (fun _ _ _ => trivial)
    fun h tenantId hread => ?_
  split
  · exact trivial
  · refine Prog.Traced.bind_except (Q := Done) ⟨⟨hvalid rfl, fun hlen => ?_⟩, fun r => trivial⟩
      (fun _ _ _ => trivial) fun _ _ _ => trivial
    obtain ⟨parent, hlast, howner⟩ := hread tenantId rfl hlen
    exact ⟨parent, hlast, by rw [ownerOf_setOwner, howner]⟩

theorem deleteNamespace_traced (app : AppState) (principal : Principal) (request : RequestContext)
    (path : NamespacePath u) :
    Prog.Traced (OwnerIssues u) (fun _ _ => True) []
      (deleteNamespace app principal request path).run := by
  let Done {α : Type} (_ : Past) (_ : Except AppError α) : Prop := True
  refine Prog.Traced.bind_except (Q := Done) ?_ (fun _ _ _ => trivial) fun h _ _ => ?_
  · rw [authorize_eq]
    exact ⟨trivial, fun _ => trivial⟩
  refine Prog.Traced.bind_except (Q := Done) ⟨trivial, fun _ => trivial⟩ (fun _ _ _ => trivial)
    fun h _ _ => ?_
  refine Prog.Traced.bind_except (Q := Done) trivial (fun _ _ _ => trivial) fun h _ _ => ?_
  exact Prog.Traced.bind_except (Q := Done) ⟨path.validNamespace, fun _ => trivial⟩
    (fun _ _ _ => trivial) fun _ _ _ => trivial

/-- An update keeps to its namespace, and to the owner it has read. -/
theorem UpdateIssues.owner {path : NamespacePath u} {payload : UpdateNamespacePropertiesPayload}
    {h : Past} {e : NamespaceCall} (hissues : UpdateIssues path.namespc payload h e) :
    OwnerIssues u h e := by
  obtain rfl | ⟨current, rfl, hread⟩ := hissues.cases
  · exact trivial
  · exact ⟨path.validNamespace, current, hread, ownerOf_preserveReserved ..⟩

theorem handler_traced (q : NamespaceRequest u) :
    Prog.Traced (OwnerIssues u) (fun _ _ => True) [] q.handler.run := by
  unfold NamespaceRequest.handler
  cases q.command with
  | create cached payload => exact createNamespace_traced ..
  | updateProperties path payload =>
      exact (updateNamespaceProperties_traced ..).mono (fun _ _ h => h.owner) fun _ _ _ => trivial
  | drop path => exact deleteNamespace_traced ..

/-! ## One call -/

/-- A call meets what its request has read, and a drop leaves no child behind. -/
def OwnerHeld (u : UnicodeData) (t : Tree) (h : Past) : NamespaceCall → Prop
  | .getNamespace _ => True
  | .createNamespace ns _ => 1 < ns.length → ∀ parent, lastRead (parentOf ns) h = some parent →
      recorded t (namespaceKey (parentOf ns)) = some (ownerOf parent)
  | .updateNamespace ns _ => ∀ current, lastRead ns h = some current →
      recorded t (namespaceKey ns) = some (ownerOf current)
  | .dropNamespace ns => ∀ child, ValidNamespace u child → 1 < child.length → parentOf child = ns →
      recorded t (namespaceKey child) = none

theorem validNamespace_parentOf {ns : NamespaceIdent} (h : ValidNamespace u ns)
    (hlen : 1 < ns.length) : ValidNamespace u (parentOf ns) := by
  refine ⟨fun hnil => ?_, fun s hs => h.2 s (List.mem_of_mem_dropLast hs)⟩
  have := congrArg List.length hnil
  rw [parentOf, List.length_dropLast, List.length_nil] at this
  omega

theorem recorded_update (t : Tree) (key key' : Text) (properties : Option Properties) :
    recorded (Function.update t key properties) key' =
      if key' = key then properties.map ownerOf else recorded t key' := by
  rw [recorded, Function.update_apply]
  split
  · rfl
  · rfl

section

variable {t : Tree} {ns : NamespaceIdent} {properties : Properties}
  {properties' : Option Properties}

theorem OneOwner.create (hone : OneOwner u t) (hvalid : ValidNamespace u ns)
    (hnew : t (namespaceKey ns) = none)
    (hparent : 1 < ns.length →
      recorded t (namespaceKey (parentOf ns)) = some (ownerOf properties)) :
    OneOwner u (Function.update t (namespaceKey ns) (some properties)) := by
  have habsent : recorded t (namespaceKey ns) = none := congrArg (Option.map ownerOf) hnew
  -- what is recorded as a parent was there before `ns`
  have hkeep : ∀ key owner, recorded t key = some owner →
      recorded (Function.update t (namespaceKey ns) (some properties)) key = some owner := by
    intro key owner hkey
    rw [recorded_update, if_neg, hkey]
    rintro rfl
    rw [habsent] at hkey
    cases hkey
  intro ns' owner hvalid' hlen hrecorded
  rw [recorded_update] at hrecorded
  by_cases heq : namespaceKey ns' = namespaceKey ns
  · obtain rfl := namespaceKey_inj hvalid' hvalid heq
    rw [if_pos rfl] at hrecorded
    rw [← Option.some.inj hrecorded]
    exact hkeep _ _ (hparent hlen)
  · rw [if_neg heq] at hrecorded
    exact hkeep _ _ (hone ns' owner hvalid' hlen hrecorded)

theorem OneOwner.update (hone : OneOwner u t)
    (hsame : recorded t (namespaceKey ns) = some (ownerOf properties)) :
    OneOwner u (Function.update t (namespaceKey ns) (some properties)) := by
  have hkeep : ∀ key,
      recorded (Function.update t (namespaceKey ns) (some properties)) key = recorded t key := by
    intro key
    rw [recorded_update]
    split
    · next heq => rw [heq, hsame, Option.map_some]
    · rfl
  intro ns' owner hvalid hlen hrecorded
  rw [hkeep] at hrecorded ⊢
  exact hone ns' owner hvalid hlen hrecorded

theorem OneOwner.drop (hone : OneOwner u t) (hvalid : ValidNamespace u ns)
    (hempty : ∀ child, ValidNamespace u child → 1 < child.length → parentOf child = ns →
      recorded t (namespaceKey child) = none) :
    OneOwner u (Function.update t (namespaceKey ns) none) := by
  intro ns' owner hvalid' hlen hrecorded
  rw [recorded_update] at hrecorded
  split at hrecorded
  · cases hrecorded
  · have hparent : namespaceKey (parentOf ns') ≠ namespaceKey ns := by
      intro heq
      have hchild := hempty ns' hvalid' hlen
        (namespaceKey_inj (validNamespace_parentOf hvalid' hlen) hvalid heq)
      rw [hchild] at hrecorded
      cases hrecorded
    rw [recorded_update, if_neg hparent]
    exact hone ns' owner hvalid' hlen hrecorded

theorem ownersKept_update (hsame : ∀ owner, recorded t (namespaceKey ns) = some owner →
      ∀ owner', properties'.map ownerOf = some owner' → owner' = owner) :
    OwnersKept t (Function.update t (namespaceKey ns) properties') := by
  intro key owner owner' hbefore hafter
  rw [recorded_update] at hafter
  split at hafter
  · next heq =>
      rw [heq] at hbefore
      exact hsame owner hbefore owner' hafter
  · rw [hbefore] at hafter
    exact (Option.some.inj hafter).symm

theorem ownersKept_refl (t : Tree) : OwnersKept t t := by
  intro key owner owner' hbefore hafter
  rw [hbefore] at hafter
  exact (Option.some.inj hafter).symm

end

/-- One call of a request that meets what it has read. -/
theorem OneOwner.step {t t' : Tree} {h : Past} {e : NamespaceCall} {r : e.Answer}
    (hone : OneOwner u t) (hissues : OwnerIssues u h e) (hsem : TreeSem e t r t')
    (hheld : r.isOk → OwnerHeld u t h e) : OneOwner u t' ∧ OwnersKept t t' := by
  cases e with
  | getNamespace ns =>
      obtain ⟨rfl, -⟩ := hsem
      exact ⟨hone, ownersKept_refl t'⟩
  | createNamespace ns properties =>
      rcases hsem with ⟨err, -, rfl⟩ | ⟨rfl, hnew, -, rfl⟩
      · exact ⟨hone, ownersKept_refl t'⟩
      · obtain ⟨hvalid, hread⟩ := hissues
        refine ⟨hone.create hvalid hnew fun hlen => ?_, ownersKept_update fun owner hbefore => ?_⟩
        · obtain ⟨parent, hlast, howner⟩ := hread hlen
          rw [howner]
          exact hheld rfl hlen parent hlast
        · rw [recorded, hnew] at hbefore
          cases hbefore
  | updateNamespace ns properties =>
      rcases hsem with ⟨err, -, rfl⟩ | ⟨rfl, -, rfl⟩
      · exact ⟨hone, ownersKept_refl t'⟩
      · obtain ⟨-, current, hlast, howner⟩ := hissues
        have hsame : recorded t (namespaceKey ns) = some (ownerOf properties) := by
          rw [howner]
          exact hheld rfl current hlast
        refine ⟨hone.update hsame, ownersKept_update fun owner hbefore owner' hafter => ?_⟩
        rw [hsame] at hbefore
        rw [← Option.some.inj hbefore, ← Option.some.inj hafter]
  | dropNamespace ns =>
      rcases hsem with ⟨err, -, rfl⟩ | ⟨rfl, rfl⟩
      · exact ⟨hone, ownersKept_refl t'⟩
      · refine ⟨hone.drop hissues (hheld rfl), ownersKept_update fun owner _ owner' hafter => ?_⟩
        cases hafter

/-! ## Any number of requests -/

section

variable (B : Backend)

abbrev NamespaceConfig (u : UnicodeData) :=
  Config NamespaceCall NamespaceCall.Answer (Except AppError Reply) B.State (NamespaceRequest u)

abbrev NamespaceEvent (u : UnicodeData) :=
  Event NamespaceCall NamespaceCall.Answer B.State (NamespaceRequest u)

/-- The runs of requests on namespaces, from `s`. -/
abbrev NamespaceRun (s : B.State) (tr : List (NamespaceEvent B u)) (c : NamespaceConfig B u) :
    Prop :=
  Run (fun q : NamespaceRequest u => q.handler.run) B.Sem (fun _ _ => False) ⟨s, []⟩ tr c

/-- Every call of the run that succeeds meets what its request has read. -/
def OwnersHeld (tr : List (NamespaceEvent B u)) : Prop :=
  ∀ tr₁ ev tr₂, tr = tr₁ ++ ev :: tr₂ → ∀ i e (r : e.Answer), ev.label = .act i e r → r.isOk →
    OwnerHeld u (B.tree ev.pre) (actsOf i tr₁) e

variable {B}

theorem OwnersHeld.of_append {tr tr' : List (NamespaceEvent B u)} (h : OwnersHeld B (tr ++ tr')) :
    OwnersHeld B tr := fun tr₁ ev tr₂ heq =>
  h tr₁ ev (tr₂ ++ tr') (by rw [heq, List.append_assoc, List.cons_append])

/-- While every write meets the owner its request has read, a subtree has one
owner, and a namespace keeps it from its creation to its drop. -/
theorem one_owner_per_subtree (u : UnicodeData) (B : Backend) (s : B.State)
    (hempty : B.tree s = fun _ => none) (tr : List (NamespaceEvent B u))
    (c : NamespaceConfig B u) (hr : NamespaceRun B s tr c) (hheld : OwnersHeld B tr) :
    OneOwner u (B.tree c.state) ∧ ∀ ev ∈ tr, OwnersKept (B.tree ev.pre) (B.tree ev.post) := by
  induction hr with
  | nil =>
      refine ⟨fun ns owner _ _ hrecorded => ?_, fun ev hev => by cases hev⟩
      rw [recorded, show B.tree s _ = none from congrFun hempty _] at hrecorded
      cases hrecorded
  | @snoc tr c c' l hr hs ih =>
      obtain ⟨hone, hkept⟩ := ih hheld.of_append
      suffices h : OneOwner u (B.tree c'.state) ∧ OwnersKept (B.tree c.state) (B.tree c'.state) by
        refine ⟨h.1, fun ev hev => ?_⟩
        rcases List.mem_append.mp hev with hev | hev
        · exact hkept ev hev
        · obtain rfl := List.mem_singleton.mp hev
          exact h.2
      cases hs with
      | start q => exact ⟨hone, ownersKept_refl _⟩
      | act i q e k r s' hi hs =>
          have hissues := (hr.traced hi (handler_traced q)).1
          rcases hs.effect with hsem | ⟨-, htree⟩
          · exact hone.step hissues hsem fun hok => hheld tr _ [] rfl i e r rfl hok
          · change OneOwner u (B.tree s') ∧ OwnersKept (B.tree c.state) (B.tree s')
            rw [htree]
            exact ⟨hone, ownersKept_refl _⟩
      | env s' hs => exact hs.elim

end

/-! ## Two tenants -/

def atTenant (tenant : Text) (command : NamespaceCommand UnicodeData.plain) :
    NamespaceRequest UnicodeData.plain where
  app := permissive
  principal := ⟨"p".toList, .user, tenant, []⟩
  facts := noFacts
  command := command

def creating (tenant : Text) (namespc : NamespaceIdent) : NamespaceRequest UnicodeData.plain :=
  atTenant tenant (.create none ⟨namespc, none⟩)

abbrev namespaceMoves (moves : List (Move (NamespaceRequest UnicodeData.plain))) :
    List (NamespaceEvent (redbBackend (Env.empty Iceberg.plain)) UnicodeData.plain) ×
      NamespaceConfig (redbBackend (Env.empty Iceberg.plain)) UnicodeData.plain :=
  Config.moves (fun q => q.handler.run) (redbBackend (Env.empty Iceberg.plain)).handle
    ⟨Registry.empty, []⟩ moves

theorem namespaceMoves_run (moves : List (Move (NamespaceRequest UnicodeData.plain))) :
    NamespaceRun (redbBackend (Env.empty Iceberg.plain)) Registry.empty (namespaceMoves moves).1
      (namespaceMoves moves).2 := by
  have hsem : ∀ e s, (redbBackend (Env.empty Iceberg.plain)).Sem e s
      ((redbBackend (Env.empty Iceberg.plain)).handle e s).1
      ((redbBackend (Env.empty Iceberg.plain)).handle e s).2 := fun e s => Or.inl ⟨rfl, rfl⟩
  exact Run.moves hsem .nil moves

theorem redbTree_empty : redbTree Registry.empty = fun _ => none := by
  funext key
  rfl

/-- A namespace and one nested in it, created one after the other. -/
def nesting : List (Move (NamespaceRequest UnicodeData.plain)) :=
  [.start (creating "acme".toList ["fin".toList]), .step 0,
    .start (creating "acme".toList ["fin".toList, "x".toList]), .step 1, .step 1]

theorem one_owner_per_subtree_nesting :
    OneOwner UnicodeData.plain (redbTree (namespaceMoves nesting).2.state) := by
  refine (one_owner_per_subtree UnicodeData.plain (redbBackend (Env.empty Iceberg.plain))
    Registry.empty redbTree_empty _ _ (namespaceMoves_run nesting) ?_).1
  rintro (_ | ⟨_, _ | ⟨_, _ | ⟨_, _ | ⟨_, _ | ⟨_, tr₁⟩⟩⟩⟩⟩) ev tr₂ htr i e r hlabel hok
  · cases htr
    cases hlabel
  · cases htr
    cases hlabel
    intro hlen
    exact absurd hlen (by decide)
  · cases htr
    cases hlabel
  · cases htr
    cases hlabel
    exact trivial
  · cases htr
    cases hlabel
    intro _ parent hlast
    cases hlast
    rfl
  · cases tr₁ <;> cases htr

/-- A child is created under a parent that another tenant has meanwhile
created anew. -/
def reparenting : List (Move (NamespaceRequest UnicodeData.plain)) :=
  [.start (creating "acme".toList ["fin".toList]), .step 0,
    .start (creating "acme".toList ["fin".toList, "x".toList]), .step 1,
    .start (atTenant "acme".toList (.drop ⟨["fin".toList], by decide⟩)), .step 2, .step 2, .step 2,
    .start (creating "globex".toList ["fin".toList]), .step 3, .step 1]

theorem owner_outlives_parent :
    ¬ ∀ (u : UnicodeData) (B : Backend) (s : B.State), B.tree s = (fun _ => none) →
      ∀ (tr : List (NamespaceEvent B u)) (c : NamespaceConfig B u), NamespaceRun B s tr c →
        OneOwner u (B.tree c.state) ∧ ∀ ev ∈ tr, OwnersKept (B.tree ev.pre) (B.tree ev.post) := by
  intro hall
  have hone := (hall UnicodeData.plain (redbBackend (Env.empty Iceberg.plain)) Registry.empty
    redbTree_empty _ _ (namespaceMoves_run reparenting)).1
  have hvalid : ValidNamespace UnicodeData.plain ["fin".toList, "x".toList] :=
    NamespacePath.validNamespace ⟨["fin".toList, "x".toList], by decide⟩
  have hchild : recorded (redbTree (namespaceMoves reparenting).2.state)
      (namespaceKey ["fin".toList, "x".toList]) = some (some "acme".toList) := by decide
  have hparent : recorded (redbTree (namespaceMoves reparenting).2.state)
      (namespaceKey ["fin".toList]) = some (some "globex".toList) := by decide
  have hsame := hparent.symm.trans (hone _ _ hvalid (by decide) hchild)
  exact absurd hsame (by decide)

end Rustberg.Api
