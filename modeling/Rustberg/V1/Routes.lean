import Rustberg.Base.Layers
import Rustberg.V1.Mediation

/-!
# The routes, mediated

One lemma for each handler, that its calls are `Mediated` and its answer
`Disclosed`. Over all routes these are `CatalogRequest.mediated` and
`CatalogRequest.disclosed`: nothing of the catalog is read or changed, and
no storage access is handed out, but after the decisions they name,
whatever the store, the sink and the provider have answered so far.
-/

namespace Rustberg.V1

open Process Auth Api

variable {ib : Iceberg} {d : Crates ib} {v : ViewCrate d}

/-! ## The handlers -/

section

variable {app : AppState} {principal : Principal} {request : RequestContext} {h : Past d}

theorem Call.Mediated.spares :
    Spares (Call.Mediated app principal request : Past d → Call d → Prop) :=
  ⟨fun _ _ => trivial, fun _ _ => trivial, fun _ _ => trivial⟩

theorem LetIn.mono {ns : NamespaceIdent} {h' : Past d} (hin : LetIn app principal request h ns)
    (hle : h <+: h') : LetIn app principal request h' ns := by
  obtain ⟨target, hinside, action, hpassed⟩ := hin
  exact ⟨target, hinside, action, hpassed.mono hle⟩

theorem ListedUnder.mono {parent : Option NamespaceIdent} {ns : NamespaceIdent} {h' : Past d}
    (hlisted : ListedUnder h parent ns) (hle : h <+: h') : ListedUnder h' parent ns := by
  obtain ⟨page, answer, hread, hrow⟩ := hlisted
  exact ⟨page, answer, hle.subset hread, hrow⟩

theorem MaySee.mono {ns place : NamespaceIdent} {target : Target} {h' : Past d}
    (hvisible : MaySee app principal request h ns place target) (hle : h <+: h') :
    MaySee app principal request h' ns place target := by
  obtain ⟨owner, ⟨namespc, hread, howner⟩, hsee⟩ := hvisible
  exact ⟨owner, ⟨namespc, hle.subset hread, howner⟩, hsee⟩

/-! ### Where a request has looked -/

/-- Wherever the request has looked, it was for a table or a view, and it was let through. -/
def Settled (app : AppState) (principal : Principal) (request : RequestContext)
    (h : Past d) : Prop :=
  ∀ ns answer, ⟨.store (.getNamespace ns), answer⟩ ∈ h → LetIn app principal request h ns

theorem Settled.nil : Settled app principal request ([] : Past d) :=
  fun _ _ hmem => absurd hmem List.not_mem_nil

theorem Settled.unlooked {h' : Past d} (hs : Settled app principal request h)
    (hle : Unlooked h h') : Settled app principal request h' :=
  fun ns answer hmem => (hs ns answer (hle.2 ns answer hmem)).mono hle.1

/-- Where it has not been let through, it has not looked. -/
theorem Settled.covers (hs : Settled app principal request h) (ns : NamespaceIdent) :
    Mediated app principal request h (.getNamespace ns) := by
  by_cases hlooked : ∃ answer, ⟨.store (.getNamespace ns), answer⟩ ∈ h
  · obtain ⟨answer, hmem⟩ := hlooked
    exact .inr (.inr (.inl (hs ns answer hmem)))
  · exact .inl fun answer hmem => hlooked ⟨answer, hmem⟩

/-- Since `h` at most this namespace has been looked at. -/
def LooksAt (ns : NamespaceIdent) (h h' : Past d) : Prop :=
  ∀ ns' answer, ⟨.store (.getNamespace ns'), answer⟩ ∈ h' →
    ⟨.store (.getNamespace ns'), answer⟩ ∈ h ∨ ns' = ns

/-- A look for a table or a view is settled once the guard has let the request through. -/
theorem Settled.granted {h' : Past d} {ns : NamespaceIdent} {target : Target}
    {action : Auth.Action} {authorized : Authorized} (hs : Settled app principal request h)
    (hle : h <+: h') (hlooks : LooksAt ns h h')
    (hgranted : Granted app principal request ns target action h' authorized)
    (hinside : target ≠ .namespc) : Settled app principal request h' := by
  intro ns' answer hmem
  rcases hlooks ns' answer hmem with hold | rfl
  · exact (hs ns' answer hold).mono hle
  · exact ⟨target, hinside, action, authorized, hgranted⟩

/-- The guard looks at the namespace of the resource, and at no other. -/
theorem authorize_looks (ns : NamespaceIdent) (target : Target) (action : Auth.Action) :
    Prog.Traced (fun _ _ => True) (fun h' _ => LooksAt ns h h') h
      (authorize app principal request ns target action : Served d _).run := by
  have hasks : Prog.Meets (fun c : Call d => ∀ ns', c = .store (.getNamespace ns') → ns' = ns)
      (fun _ => True) (authorize app principal request ns target action : Served d _).run :=
    (authorize_traced (P := fun _ c => ∀ ns', c = .store (.getNamespace ns') → ns' = ns)
      (h := []) (fun ns' heq => by cases heq; rfl) (fun _ event ns' heq => by cases heq) principal
      request target action).meets
  refine Prog.Traced.mono (Prog.Meets.keeps (h := h) hasks (fun _ _ hmem => .inl hmem) ?_)
    (fun _ _ _ => trivial) fun _ _ hlooks => hlooks.1
  intro h' x hlooks hx ns' answer hmem
  rcases List.mem_append.mp hmem with hold | hnew
  · exact hlooks ns' answer hold
  · cases List.mem_singleton.mp hnew
    exact .inr (hx ns' rfl)

/-- The guard, and the one look it takes. -/
theorem Ends.guarded {β : Type} {Q : Past d → β → Prop} {ns : NamespaceIdent} {target : Target}
    {action : Auth.Action} {f : Authorized → Served d β} (hs : Settled app principal request h)
    (hf : ∀ h' authorized, h <+: h' →
      Granted app principal request ns target action h' authorized → LooksAt ns h h' →
        Prog.Traced (Call.Mediated app principal request) (Ends Q) h' (f authorized).run) :
    Prog.Traced (Call.Mediated app principal request) (Ends Q) h
      (authorize app principal request ns target action >>= f).run := by
  have hgranted : Prog.Traced (Call.Mediated app principal request) (fun h' r => h <+: h' ∧
      ∀ authorized, r = .ok authorized →
        Granted app principal request ns target action h' authorized) h
      (authorize app principal request ns target action : Served d _).run :=
    (authorize_traced (hs.covers ns) (fun _ _ => trivial) principal request target
      action).extends
  have hboth := Prog.Traced.mono (Prog.Traced.and hgranted (authorize_looks ns target action))
    (fun _ _ hP => hP.1) fun _ _ hQ => hQ
  refine Prog.Traced.bind_except hboth (fun _ _ _ _ hok => by cases hok) fun h' authorized hQ => ?_
  obtain ⟨⟨hle, hpermit⟩, hlooks⟩ := hQ
  exact hf h' authorized hle (hpermit authorized rfl) hlooks

/-! ### Namespaces -/

section

variable {u : UnicodeData} {b64 : Base64}

theorem authorizeListing_ends (hs : Settled app principal request h)
    (parent : Option NamespaceIdent) :
    Prog.Traced (Call.Mediated app principal request) (Ends fun (h' : Past d) _ => ∀ page,
        Mediated app principal request h' (.listNamespaces parent page)) h
      (authorizeListing app principal request parent : Served d Unit).run := by
  cases parent with
  | none =>
      exact Ends.bind (authorizeContext_ends Call.Mediated.spares _) fun h' _ hnew =>
        Ends.ret fun _ => hnew
  | some parent =>
      exact Ends.guarded hs fun h' authorized _ hgranted _ =>
        Ends.ret fun _ => ⟨authorized, hgranted⟩

/-- A row is looked at because it has been listed. -/
theorem namespaceVisible_ends {parent : Option NamespaceIdent} (ns : NamespaceIdent)
    (hrow : ListedUnder h parent ns) :
    Prog.Traced (Call.Mediated app principal request) (Ends fun h' r => r.1 = true →
        ListedUnder h' parent r.2 ∧ MaySee app principal request h' r.2 r.2 .namespc) h
      (namespaceVisible app principal request ns : Served d _).run := by
  refine Ends.attempted (.inr (.inr (.inr ⟨parent, hrow⟩))) fun answer => ?_
  cases answer with
  | error e => exact Ends.ret fun hfalse => by cases hfalse
  | ok namespc =>
      dsimp only
      cases howner : ownerOf namespc.properties with
      | none => exact Ends.ret fun hfalse => by cases hfalse
      | some owner =>
          refine Ends.ret fun hsee => ⟨hrow.mono (List.prefix_append ..), owner, ⟨namespc, ?_,
            howner⟩, hsee⟩
          exact List.mem_append_right _ (List.mem_singleton_self _)

theorem Mediated.listNamespaces_mono {parent : Option NamespaceIdent} {page : PageRequest}
    {h' : Past d} (hlisted : Mediated app principal request h (.listNamespaces parent page))
    (hle : h <+: h') : Mediated app principal request h' (.listNamespaces parent page) := by
  cases parent with
  | none => exact PassedNew.mono hlisted hle
  | some parent => exact Passed.mono hlisted hle

theorem listNamespaces_ends (parent : Option Text) (query : PaginationQuery) :
    Prog.Traced (Call.Mediated app principal request)
      (Ends (Disclosed app principal request (.listNamespaces parent query : CatalogRequest v))) []
      (listNamespaces u b64 app principal request parent query : Served d (Reply d)).run := by
  refine Ends.checked fun under hunder => ?_
  refine Ends.bind (authorizeListing_ends Settled.nil under) fun h₁ _ hlisted => ?_
  refine Ends.checked fun page _ => ?_
  refine Ends.bind (collectPage_ends (R := fun h' ns => ListedUnder h' under ns)
    (S := fun h' ns => ListedUnder h' under ns ∧ MaySee app principal request h' ns ns .namespc)
    (fun hle hrow => hrow.mono hle) (fun hle hseen => ⟨hseen.1.mono hle, hseen.2.mono hle⟩)
    (fun _ ns hrow => namespaceVisible_ends ns hrow) ?_ page) fun h₂ page hseen =>
      Ends.ret ⟨under, congrArg some (parentOfQuery_eq_ok hunder).symm, hseen⟩
  intro h₂ page hle
  refine Ends.mono (call_ends ((hlisted page).listNamespaces_mono hle)) ?_
  exact fun h₃ answer hmem entry hentry => ⟨page, answer, hmem, entry, hentry, rfl⟩

/-- A root namespace starts its caller's tree, a nested one joins its parent's. -/
theorem tenantFor_ends (hs : Settled app principal request h) (ns : NamespaceIdent) :
    Prog.Traced (Call.Mediated app principal request) (Ends fun (h' : Past d) _ => ∀ properties,
        Mediated app principal request h' (.createNamespace ns properties)) h
      (tenantFor app principal request ns : Served d Text).run := by
  unfold tenantFor
  split
  next hroot =>
    refine Ends.bind (authorizeContext_ends Call.Mediated.spares _) fun h' _ hnew => ?_
    refine Ends.ret fun properties => ?_
    change if parentOf ns = [] then _ else _
    rw [if_pos hroot]
    exact hnew
  next hnested =>
    refine Ends.guarded hs fun h' authorized _ hgranted _ => ?_
    refine Ends.ret fun properties => ?_
    change if parentOf ns = [] then _ else _
    rw [if_neg hnested]
    exact ⟨authorized, hgranted⟩

theorem createNamespace_ends (cached : Option Text) (payload : CreateNamespacePayload) :
    Prog.Traced (Call.Mediated app principal request)
      (Ends (Disclosed app principal request (.createNamespace cached payload : CatalogRequest v)))
      [] (createNamespace u app principal request cached payload : Served d (Reply d)).run := by
  refine Ends.checked fun _ _ => Ends.checked fun _ _ => ?_
  refine Ends.bind (tenantFor_ends Settled.nil _) fun h₁ tenantId hcreated => ?_
  cases cached with
  | some body => exact Ends.ret trivial
  | none =>
      refine Ends.called (hcreated (setOwner (payload.properties.getD ∅) tenantId)) fun namespc =>
        Ends.ret ⟨⟨_, namespc, List.mem_append_right _ (List.mem_singleton_self _), rfl⟩, ?_⟩
      exact fun key => isReserved_of_mem_stripReserved

end

theorem getNamespace_ends (ns : NamespaceIdent) :
    Prog.Traced (Call.Mediated app principal request)
      (Ends (Disclosed app principal request (.getNamespace ns : CatalogRequest v))) []
      (getNamespace app principal request ns : Served d (Reply d)).run := by
  refine Ends.guarded Settled.nil fun h₁ authorized _ hgranted _ => ?_
  refine Ends.called (.inr (.inl ⟨_, by decide, authorized, hgranted⟩)) fun namespc => Ends.ret
    ⟨⟨⟨authorized, hgranted.mono (List.prefix_append ..)⟩, namespc,
      List.mem_append_right _ (List.mem_singleton_self _), rfl⟩, ?_⟩
  exact fun key => isReserved_of_mem_stripReserved

theorem namespaceExists_ends (ns : NamespaceIdent) :
    Prog.Traced (Call.Mediated app principal request)
      (Ends (Disclosed app principal request (.namespaceExists ns : CatalogRequest v))) []
      (namespaceExists app principal request ns : Served d (Reply d)).run :=
  Ends.guarded Settled.nil fun _ _ _ _ _ => Ends.ret trivial

theorem deleteNamespace_ends (ns : NamespaceIdent) :
    Prog.Traced (Call.Mediated app principal request)
      (Ends (Disclosed app principal request (.deleteNamespace ns : CatalogRequest v))) []
      (deleteNamespace app principal request ns : Served d (Reply d)).run := by
  refine Ends.guarded Settled.nil fun h₁ authorized _ hgranted _ => ?_
  refine Ends.called (.inr (.inl ⟨_, by decide, authorized, hgranted⟩)) fun existing =>
    Ends.checked fun _ _ => ?_
  exact Ends.called ⟨authorized, hgranted.mono (List.prefix_append _ _)⟩ fun _ => Ends.ret trivial

theorem updateNamespaceProperties_ends (ns : NamespaceIdent)
    (payload : UpdateNamespacePropertiesPayload) :
    Prog.Traced (Call.Mediated app principal request)
      (Ends (Disclosed app principal request
        (.updateNamespaceProperties ns payload : CatalogRequest v))) []
      (updateNamespaceProperties app principal request ns payload : Served d (Reply d)).run := by
  refine Ends.checked fun _ _ => ?_
  refine Ends.guarded Settled.nil fun h₁ authorized _ hgranted _ => ?_
  refine Ends.called (.inr (.inl ⟨_, by decide, authorized, hgranted⟩)) fun current => ?_
  refine Ends.called ⟨⟨authorized, hgranted.mono (List.prefix_append _ _)⟩, current,
    List.mem_append_right _ (List.mem_singleton_self _), ownerOf_preserveReserved ..⟩ fun _ => ?_
  exact Ends.ret trivial

/-! ### Tables -/

section

variable {P : Past d → Call d → Prop} {b64 : Base64} {owner : Text} {target : Text → Target}

/-- A table or a view is listed where the caller may read it. -/
theorem identPage_ends {R : Past d → TableIdent → Prop}
    (hR : ∀ {h h' ident}, h <+: h' → R h ident → R h' ident)
    {fetch : PageRequest → Served d (Page TableIdent)}
    (hfetch : ∀ h' page, h <+: h' →
      Prog.Traced P (Ends fun h'' fetched => ∀ entry ∈ fetched.entries, R h'' entry.item) h'
        (fetch page).run) (page : PageRequest) :
    Prog.Traced P (Ends fun h' page => ∀ ident ∈ page.items, R h' ident ∧
        canSee app principal request owner ident.namespc (target ident.name) = true) h
      (collectPage b64 (fun ident => return (canSee app principal request owner ident.namespc
        (target ident.name), ident)) fetch page).run :=
  collectPage_ends (R := R)
    (S := fun h' (ident : TableIdent) => R h' ident ∧
      canSee app principal request owner ident.namespc (target ident.name) = true)
    hR (fun hle hseen => ⟨hR hle hseen.1, hseen.2⟩)
    (fun _ _ hrow => Ends.ret fun hsee => ⟨hrow, hsee⟩) hfetch page

theorem listTables_ends (ns : NamespaceIdent) (query : PaginationQuery) :
    Prog.Traced (Call.Mediated app principal request)
      (Ends (Disclosed app principal request (.listTables ns query : CatalogRequest v))) []
      (listTables b64 app principal request ns query : Served d (Reply d)).run := by
  refine Ends.guarded Settled.nil fun h₁ authorized _ hgranted _ => ?_
  refine Ends.checked fun page _ => ?_
  refine Ends.after (identPage_ends (R := fun h ident => ∃ page, ∃ answer : Page TableIdent,
    ⟨.store (.listTables ns page), .ok answer⟩ ∈ h ∧ ∃ entry ∈ answer.entries, entry.item = ident)
    (fun hle ⟨page, answer, hmem, hrow⟩ => ⟨page, answer, hle.subset hmem, hrow⟩) ?_ page)
    fun h₂ page hle hseen => Ends.ret fun ident hident => ?_
  · refine fun h₂ page hle => Ends.mono (call_ends ⟨authorized, hgranted.mono hle⟩) ?_
    exact fun h₃ answer hmem entry hentry => ⟨page, answer, hmem, entry, hentry, rfl⟩
  · obtain ⟨hrow, hsee⟩ := hseen ident hident
    exact ⟨hrow, authorized.owner, (hgranted.mono hle).owner, hsee⟩

theorem listViews_ends (ns : NamespaceIdent) (query : PaginationQuery) :
    Prog.Traced (Call.Mediated app principal request)
      (Ends (Disclosed app principal request (.listViews ns query : CatalogRequest v))) []
      (listViews b64 app principal request ns query : Served d (Reply d)).run := by
  refine Ends.guarded Settled.nil fun h₁ authorized _ hgranted _ => ?_
  refine Ends.checked fun page _ => ?_
  refine Ends.after (identPage_ends (R := fun h ident => ∃ page, ∃ answer : Page TableIdent,
    ⟨.store (.listViews ns page), .ok answer⟩ ∈ h ∧ ∃ entry ∈ answer.entries, entry.item = ident)
    (fun hle ⟨page, answer, hmem, hrow⟩ => ⟨page, answer, hle.subset hmem, hrow⟩) ?_ page)
    fun h₂ page hle hseen => Ends.ret fun ident hident => ?_
  · refine fun h₂ page hle => Ends.mono (call_ends ⟨authorized, hgranted.mono hle⟩) ?_
    exact fun h₃ answer hmem entry hentry => ⟨page, answer, hmem, entry, hentry, rfl⟩
  · obtain ⟨hrow, hsee⟩ := hseen ident hident
    exact ⟨hrow, authorized.owner, (hgranted.mono hle).owner, hsee⟩

end

/-- The decision of a handler, and what is asked for under it. -/
theorem VendDecided.vended {authorized : Authorized} {about : CredentialTarget}
    {asked : StorageCredentialRequest} (hdecided : VendDecided app authorized about h asked)
    (hgranted : Granted app principal request about.namespc (.table about.tableName) .create h
        authorized ∧ about.access = .write ∨
      Granted app principal request about.namespc (.table about.tableName) .read h authorized ∧
        about.access = .fromPolicy)
    (hloaded : LoadedAt h ⟨about.namespc, about.tableName⟩ about.location) :
    Vended app principal request h asked authorized := by
  have hcontext : authorized.context.principal = principal := by
    rcases hgranted with hcreate | hread
    · rw [hcreate.1.context]
    · rw [hread.1.context]
  obtain ⟨hempty, habout, hwidth, hmanaged, hsupported⟩ := hdecided
  rw [hcontext] at habout
  rw [habout]
  refine ⟨?_, hempty, rfl, rfl, hloaded, hmanaged, hsupported⟩
  rcases hgranted with hcreate | hread
  · exact .inl hcreate.1
  · exact .inr ⟨hread.1, hwidth hread.2⟩

/-- What a credential is asked for has been loaded, or made, under the decision. -/
theorem vendTableCredentials_mediated {authorized : Authorized} {about : CredentialTarget}
    (hgranted : Granted app principal request about.namespc (.table about.tableName) .create h
        authorized ∧ about.access = .write ∨
      Granted app principal request about.namespc (.table about.tableName) .read h authorized ∧
        about.access = .fromPolicy)
    (hloaded : LoadedAt h ⟨about.namespc, about.tableName⟩ about.location)
    (delegation : AccessDelegation) :
    Prog.Traced (Call.Mediated app principal request) (Ends fun h' outcome =>
        ∀ credentials, outcome = .granted credentials →
          GivenOut app principal request h' ⟨about.namespc, about.tableName⟩ credentials) h
      (vendTableCredentials app authorized about delegation : Served d (Delegated d)).run := by
  have hlater : ∀ h', h <+: h' → ∀ asked, VendDecided app authorized about h' asked →
      Vended app principal request h' asked authorized := fun h' hle asked hdecided =>
    hdecided.vended (hgranted.imp (fun hcreate => ⟨hcreate.1.mono hle, hcreate.2⟩)
      fun hread => ⟨hread.1.mono hle, hread.2⟩) (hloaded.mono hle)
  refine Prog.Traced.mono (vendTableCredentials_ends Call.Mediated.spares authorized
    about delegation
    fun h' asked hle hdecided => ⟨authorized, hlater h' hle asked hdecided⟩).extends
    (fun _ _ hc => hc) ?_
  rintro h' r ⟨hle, hends⟩ outcome rfl credentials hgiven
  obtain ⟨asked, hasked, hdecided, hrecorded⟩ := hends outcome rfl credentials hgiven
  refine ⟨asked, authorized, hasked, ?_, ?_, hlater h' hle asked hdecided, hrecorded⟩
  · rw [hdecided.about]
  · rw [hdecided.about]

theorem intoResponseCredentials_eq_some {delegated : Delegated d} {credentials : List d.Credential}
    (h : delegated.intoResponseCredentials = .ok (some credentials)) :
    delegated = .granted credentials := by
  cases delegated with
  | granted cs =>
      cases h
      rfl
  | none => cases h
  | withheld reason => cases h
  | failed reason => cases h

theorem signingResponse_eq_some {delegation : AccessDelegation} {ns : NamespaceIdent} {name : Text}
    {obligations : Obligations} {config : List (Text × Text)} {signing : RemoteSigningConfig}
    (h : signingResponse app delegation ns name obligations = (config, some signing)) :
    obligations.isEmpty = true ∧ signing = signingConfigFor ns name := by
  unfold signingResponse at h
  dsimp only at h
  split at h
  · cases h
  next hsigned =>
    rw [Bool.or_eq_true, not_or, Bool.not_eq_true', Bool.not_eq_false] at hsigned
    cases h
    exact ⟨hsigned.2, rfl⟩

theorem HandedOut.of_vended {delegated : Delegated d} {delegation : AccessDelegation}
    {table : TableIdent} {action : Auth.Action} {authorized : Authorized}
    {response : LoadTableResponse d} {config : List (Text × Text)}
    (hgranted :
      Granted app principal request table.namespc (.table table.name) action h authorized)
    (hgiven : ∀ credentials, delegated = .granted credentials →
      GivenOut app principal request h table credentials)
    (hcredentials : delegated.intoResponseCredentials = .ok response.storageCredentials)
    (hsigning : signingResponse app delegation table.namespc table.name authorized.obligations =
      (config, response.remoteSigningConfig)) :
    HandedOut app principal request h table response where
  credentials := by
    intro credentials hsome
    rw [hsome] at hcredentials
    exact hgiven credentials (intoResponseCredentials_eq_some hcredentials)
  signing := by
    intro signing hsome
    rw [hsome] at hsigning
    obtain ⟨hempty, hconfig⟩ := signingResponse_eq_some hsigning
    exact ⟨action, authorized, hgranted, hempty, hconfig⟩

theorem ensureLocation_ends (ns : NamespaceIdent) (name : Text) (location : Option Text) :
    Prog.Traced (Call.Mediated app principal request) (Ends fun h' _ => Unlooked h h') h
      (ensureLocation app ns name location : Served d Unit).run := by
  cases location with
  | none => exact Ends.ret ⟨List.prefix_rfl, fun _ _ hmem => hmem⟩
  | some location =>
      refine Ends.bind (locationBound_ends Call.Mediated.spares ns name) fun _ bound hle => ?_
      exact fun _ _ => hle

theorem makeTable_ends {ns : NamespaceIdent} {creation : ib.Creation} {authorized : Authorized}
    (hgranted : Granted app principal request ns (.table creation.name) .create h authorized)
    (staged : Bool) :
    Prog.Traced (Call.Mediated app principal request) (Ends fun h' table =>
        LoadedAt h' ⟨ns, creation.name⟩ (ib.location table.metadata)) h
      (makeTable ns creation staged : Served d (Table ib)).run := by
  cases staged with
  | true =>
      refine Ends.mono (call_ends ⟨authorized, hgranted⟩) fun h' table hmade => ?_
      exact ⟨table, rfl, .inr (.inr ⟨creation, rfl, .inr hmade⟩)⟩
  | false =>
      refine Ends.mono (call_ends ⟨authorized, hgranted⟩) fun h' table hmade => ?_
      exact ⟨table, rfl, .inr (.inr ⟨creation, rfl, .inl hmade⟩)⟩

theorem createTable_ends {u : UnicodeData} (ns : NamespaceIdent) (headers : HeaderMap)
    (cached : Option Text) (payload : CreateTablePayload d) :
    Prog.Traced (Call.Mediated app principal request)
      (Ends (Disclosed app principal request
        (.createTable ns headers cached payload : CatalogRequest v))) []
      (createTable u app principal request ns headers cached payload : Served d (Reply d)).run := by
  refine Ends.checked fun _ _ => Ends.checked fun _ _ => ?_
  refine Ends.bind (ensureLocation_ends ns payload.name payload.location) fun h₁ _ hle₁ => ?_
  refine Ends.guarded (Settled.nil.unlooked hle₁) fun h₂ authorized _ hgranted _ => ?_
  cases cached with
  | some body => exact Ends.ret trivial
  | none =>
      refine Ends.checked fun rest _ => ?_
      refine Ends.after (makeTable_ends hgranted payload.stageCreate) fun h₃ table hle₃ hmade => ?_
      refine Ends.after (vendTableCredentials_mediated (.inl ⟨hgranted.mono hle₃, rfl⟩) hmade _)
        fun h₄ delegated hle₄ hgiven => ?_
      refine Ends.checked fun storageCredentials hcredentials => ?_
      rcases hsigning : signingResponse app (AccessDelegation.fromHeaders headers) ns payload.name
        authorized.obligations with ⟨config, signing⟩
      refine Ends.checked fun restrictions _ => Ends.ret ?_
      exact ⟨_, rfl,
        HandedOut.of_vended ((hgranted.mono hle₃).mono hle₄) hgiven hcredentials hsigning⟩

theorem registerTable_ends {u : UnicodeData} (ns : NamespaceIdent) (headers : HeaderMap)
    (cached : Option Text) (payload : RegisterTablePayload) :
    Prog.Traced (Call.Mediated app principal request)
      (Ends (Disclosed app principal request
        (.registerTable ns headers cached payload : CatalogRequest v))) []
      (registerTable u app principal request ns headers cached payload :
        Served d (Reply d)).run := by
  refine Ends.checked fun _ _ => ?_
  refine Ends.bind (locationBound_ends Call.Mediated.spares ns payload.name) fun h₁ bound hle₁ => ?_
  refine Ends.checked fun _ _ => ?_
  refine Ends.guarded (Settled.nil.unlooked hle₁) fun h₂ authorized _ hgranted _ => ?_
  cases cached with
  | some body => exact Ends.ret trivial
  | none =>
      refine Ends.after (call_ends ⟨authorized, hgranted⟩) fun h₃ table hle₃ hregistered => ?_
      have hloaded : LoadedAt h₃ ⟨ns, payload.name⟩ (ib.location table.metadata) :=
        ⟨table, rfl, .inr (.inl ⟨payload.metadataLocation, hregistered⟩)⟩
      refine Ends.after (vendTableCredentials_mediated (.inl ⟨hgranted.mono hle₃, rfl⟩) hloaded _)
        fun h₄ delegated hle₄ hgiven => ?_
      refine Ends.checked fun storageCredentials hcredentials => ?_
      rcases hsigning : signingResponse app (AccessDelegation.fromHeaders headers) ns payload.name
        authorized.obligations with ⟨config, signing⟩
      refine Ends.checked fun restrictions _ => Ends.ret ?_
      exact ⟨_, rfl,
        HandedOut.of_vended ((hgranted.mono hle₃).mono hle₄) hgiven hcredentials hsigning⟩

theorem revalidated_ends {table : TableIdent} {authorized : Authorized}
    (hgranted : Granted app principal request table.namespc (.table table.name) .read h authorized)
    (headers : HeaderMap) (scope : SnapshotScope) (delegation : AccessDelegation)
    (obligations : Obligations) :
    Prog.Traced (Call.Mediated app principal request) (Ends fun _ _ => True) h
      (revalidated table headers scope delegation obligations : Served d (Option Text)).run := by
  unfold revalidated
  split
  · exact Ends.called ⟨authorized, hgranted⟩ fun _ => Ends.ret trivial
  · exact Ends.ret trivial

theorem loadTable_ends (table : TableIdent) (snapshots : Option Text) (headers : HeaderMap) :
    Prog.Traced (Call.Mediated app principal request)
      (Ends (Disclosed app principal request
        (.loadTable table snapshots headers : CatalogRequest v))) []
      (loadTable app principal request table snapshots headers : Served d (Reply d)).run := by
  refine Ends.checked fun scope _ => ?_
  refine Ends.guarded Settled.nil fun h₁ authorized _ hgranted _ => ?_
  refine Ends.after (revalidated_ends hgranted headers scope _ _) fun h₂ tag hle₂ _ => ?_
  have hgranted := hgranted.mono hle₂
  cases tag with
  | some tag => exact Ends.ret trivial
  | none =>
      refine Ends.after (call_ends (.inl ⟨authorized, hgranted⟩)) fun h₃ loaded hle₃ hread => ?_
      refine Ends.after (vendTableCredentials_mediated (.inr ⟨hgranted.mono hle₃, rfl⟩)
        ⟨loaded, rfl, .inl hread⟩ _) fun h₄ delegated hle₄ hgiven => ?_
      refine Ends.checked fun storageCredentials hcredentials => Ends.checked fun metadata _ => ?_
      rcases hsigning : signingResponse app (AccessDelegation.fromHeaders headers) table.namespc
        table.name authorized.obligations with ⟨config, signing⟩
      refine Ends.checked fun restrictions _ => Ends.ret ?_
      exact ⟨_, rfl,
        HandedOut.of_vended ((hgranted.mono hle₃).mono hle₄) hgiven hcredentials hsigning⟩

theorem loadTableCredentials_ends (table : TableIdent) :
    Prog.Traced (Call.Mediated app principal request)
      (Ends (Disclosed app principal request
        (.loadTableCredentials table : CatalogRequest v))) []
      (loadTableCredentials app principal request table : Served d (Reply d)).run := by
  refine Ends.guarded Settled.nil fun h₁ authorized _ hgranted _ => ?_
  refine Ends.after (call_ends (.inl ⟨authorized, hgranted⟩)) fun h₂ loaded hle₂ hread => ?_
  refine Ends.bind (vendTableCredentials_mediated (.inr ⟨hgranted.mono hle₂, rfl⟩)
    ⟨loaded, rfl, .inl hread⟩ _) fun h₃ delegated hgiven => ?_
  cases delegated with
  | granted credentials => exact Ends.ret ⟨table, rfl, hgiven credentials rfl⟩
  | withheld reason => exact Ends.fail _
  | failed reason => exact Ends.fail _
  | none => exact Ends.fail _

theorem tableExists_ends (table : TableIdent) :
    Prog.Traced (Call.Mediated app principal request)
      (Ends (Disclosed app principal request
        (.tableExists table : CatalogRequest v))) []
      (tableExists app principal request table : Served d (Reply d)).run := by
  refine Ends.guarded Settled.nil fun h₁ authorized _ hgranted _ => ?_
  refine Ends.called ⟨authorized, hgranted⟩ fun present => ?_
  cases present with
  | true => exact Ends.ret trivial
  | false => exact Ends.fail _

theorem dropTable_ends (table : TableIdent) (purgeRequested : Bool) :
    Prog.Traced (Call.Mediated app principal request)
      (Ends (Disclosed app principal request
        (.dropTable table purgeRequested : CatalogRequest v))) []
      (dropTable app principal request table purgeRequested : Served d (Reply d)).run := by
  refine Ends.guarded Settled.nil fun h₁ authorized _ hgranted _ => ?_
  refine Ends.called (.inr ⟨authorized, hgranted⟩) fun loaded => Ends.checked fun _ _ => ?_
  have hdropped := hgranted.mono (List.prefix_append h₁ [⟨.store (.loadTable table), .ok loaded⟩])
  cases purgeRequested with
  | true => exact Ends.called ⟨authorized, hdropped⟩ fun _ => Ends.ret trivial
  | false => exact Ends.called ⟨authorized, hdropped⟩ fun _ => Ends.ret trivial

theorem unregisterTable_ends (table : TableIdent) :
    Prog.Traced (Call.Mediated app principal request)
      (Ends (Disclosed app principal request
        (.unregisterTable table : CatalogRequest v))) []
      (unregisterTable app principal request table : Served d (Reply d)).run :=
  Ends.guarded Settled.nil fun _ authorized _ hgranted _ =>
    Ends.called ⟨authorized, hgranted⟩ fun _ => Ends.ret trivial

theorem reportMetrics_ends (table : TableIdent) :
    Prog.Traced (Call.Mediated app principal request)
      (Ends (Disclosed app principal request
        (.reportMetrics table : CatalogRequest v))) []
      (reportMetrics app principal request table : Served d (Reply d)).run :=
  Ends.guarded Settled.nil fun _ _ _ _ _ => Ends.ret trivial

theorem authorizeRename_ends (kind : Text → Target) (hinside : ∀ name, kind name ≠ .namespc)
    (hs : Settled app principal request h) (payload : RenamePayload) (refusal : Text) :
    Prog.Traced (Call.Mediated app principal request) (Ends fun h' _ =>
        Passed app principal request h' payload.source.namespc (kind payload.source.name) .update ∧
          Passed app principal request h' payload.destination.namespc
            (kind payload.destination.name) .create) h
      (authorizeRename app principal request kind payload refusal : Served d Unit).run := by
  refine Ends.guarded hs fun h₁ src hle₁ hsrc hlooks => ?_
  refine Ends.guarded (hs.granted hle₁ hlooks hsrc (hinside _)) fun h₂ dest hle hdest _ => ?_
  split
  · exact Ends.fail _
  · exact Ends.ret ⟨⟨src, hsrc.mono hle⟩, ⟨dest, hdest⟩⟩

theorem renameTable_ends {u : UnicodeData} (payload : RenamePayload) :
    Prog.Traced (Call.Mediated app principal request)
      (Ends (Disclosed app principal request
        (.renameTable payload : CatalogRequest v))) []
      (renameTable u app principal request payload : Served d (Reply d)).run := by
  refine Ends.checked fun _ _ => Ends.checked fun _ _ => Ends.checked fun _ _ => ?_
  refine Ends.bind (authorizeRename_ends .table nofun Settled.nil payload _) fun h₁ _ hpassed => ?_
  exact Ends.called hpassed fun _ => Ends.ret trivial

theorem commitTable_ends (table : TableIdent) (cached : Option Text)
    (payload : CommitTableRequest ib) :
    Prog.Traced (Call.Mediated app principal request)
      (Ends (Disclosed app principal request
        (.commitTable table cached payload : CatalogRequest v))) []
      (commitTable app principal request table cached payload : Served d (Reply d)).run := by
  refine Ends.checked fun _ _ => ?_
  refine Ends.guarded Settled.nil fun h₁ authorized _ hgranted _ => ?_
  cases cached with
  | some body => exact Ends.ret trivial
  | none =>
      refine Ends.checked fun _ _ => ?_
      exact Ends.called ⟨authorized, hgranted⟩ fun _ => Ends.ret trivial

/-- Every entry is authorized before any is committed. -/
theorem authorizeChanges_ends {u : UnicodeData} (hs : Settled app principal request h)
    (commits : List (CommitTableRequest ib)) (changes : List ib.TableChange)
    (hpassed : ∀ change ∈ changes, PassedTable app principal request h change.ident .update) :
    Prog.Traced (Call.Mediated app principal request) (Ends fun h' changes =>
        ∀ change ∈ changes, PassedTable app principal request h' change.ident .update) h
      (authorizeChanges u app principal request commits changes :
        Served d (List ib.TableChange)).run := by
  induction commits generalizing changes h with
  | nil => exact Ends.ret hpassed
  | cons commit commits ih =>
      rw [authorizeChanges]
      cases commit.identifier with
      | none => exact Ends.fail _
      | some ident =>
          refine Ends.checked fun _ _ => Ends.checked fun _ _ => ?_
          refine Ends.guarded hs fun h₁ authorized hle hgranted hlooks => ?_
          have hs₁ := hs.granted hle hlooks hgranted nofun
          refine Ends.checked fun _ _ => ih hs₁ _ fun change hchange => ?_
          rcases List.mem_append.mp hchange with hold | hnew
          · exact (hpassed change hold).mono hle
          · rw [List.mem_singleton.mp hnew]
            exact ⟨authorized, hgranted⟩

theorem commitTransaction_ends {u : UnicodeData} (cached : Option Text)
    (tableChanges : List (CommitTableRequest ib)) :
    Prog.Traced (Call.Mediated app principal request)
      (Ends (Disclosed app principal request
        (.commitTransaction cached tableChanges : CatalogRequest v))) []
      (commitTransaction u app principal request cached tableChanges :
        Served d (Reply d)).run := by
  refine Ends.checked fun _ _ => ?_
  refine Ends.bind (authorizeChanges_ends Settled.nil tableChanges [] fun _ hmem =>
    absurd hmem List.not_mem_nil) fun h₁ changes hpassed => ?_
  cases cached with
  | some body => exact Ends.ret trivial
  | none =>
      refine Ends.attempted hpassed fun answer => ?_
      exact Ends.checked fun _ _ => Ends.ret trivial

/-! ### Views -/

theorem viewLocation_ends (ns : NamespaceIdent) (name : Text) (location : Option Text) :
    Prog.Traced (Call.Mediated app principal request) (Ends fun _ _ => True) h
      (viewLocation app ns name location : Served d Text).run := by
  cases location with
  | none =>
      exact Ends.bind (warehouseFor_ends Call.Mediated.spares ns) fun _ _ _ => Ends.ret trivial
  | some location =>
      refine Ends.bind (locationBound_ends Call.Mediated.spares ns name) fun _ bound _ => ?_
      exact Ends.checked fun _ _ => Ends.ret trivial

theorem createView_ends {u : UnicodeData} (ns : NamespaceIdent) (cached : Option Text)
    (payload : CreateViewPayload v) :
    Prog.Traced (Call.Mediated app principal request)
      (Ends (Disclosed app principal request
        (.createView ns cached payload : CatalogRequest v))) []
      (createView u app principal request ns cached payload : Served d (Reply d)).run := by
  refine Ends.checked fun _ _ => Ends.checked fun _ _ => ?_
  refine Ends.guarded Settled.nil fun h₁ authorized _ hgranted _ => ?_
  cases cached with
  | some body => exact Ends.ret trivial
  | none =>
      refine Ends.checked fun parts _ => ?_
      refine Ends.after (viewLocation_ends ns payload.name payload.location)
        fun h₂ location hle _ => ?_
      refine Ends.checked fun metadata _ => ?_
      exact Ends.called ⟨authorized, hgranted.mono hle⟩ fun _ => Ends.ret trivial

theorem loadView_ends (view : TableIdent) :
    Prog.Traced (Call.Mediated app principal request)
      (Ends (Disclosed app principal request
        (.loadView view : CatalogRequest v))) []
      (loadView app principal request view : Served d (Reply d)).run :=
  Ends.guarded Settled.nil fun _ authorized _ hgranted _ =>
    Ends.called (.inl ⟨authorized, hgranted⟩) fun _ => Ends.ret trivial

theorem viewExists_ends (view : TableIdent) :
    Prog.Traced (Call.Mediated app principal request)
      (Ends (Disclosed app principal request
        (.viewExists view : CatalogRequest v))) []
      (viewExists app principal request view : Served d (Reply d)).run := by
  refine Ends.guarded Settled.nil fun h₁ authorized _ hgranted _ => ?_
  refine Ends.called ⟨authorized, hgranted⟩ fun present => ?_
  cases present with
  | true => exact Ends.ret trivial
  | false => exact Ends.fail _

theorem dropView_ends (view : TableIdent) :
    Prog.Traced (Call.Mediated app principal request)
      (Ends (Disclosed app principal request
        (.dropView view : CatalogRequest v))) []
      (dropView app principal request view : Served d (Reply d)).run := by
  refine Ends.guarded Settled.nil fun h₁ authorized _ hgranted _ => ?_
  refine Ends.called (.inr (.inr ⟨authorized, hgranted⟩)) fun loaded => Ends.checked fun _ _ => ?_
  refine Ends.called (.inl ⟨authorized, ?_⟩) fun _ => Ends.ret trivial
  exact hgranted.mono (List.prefix_append _ _)

theorem commitView_ends (view : TableIdent) (cached : Option Text) (payload : CommitViewRequest d) :
    Prog.Traced (Call.Mediated app principal request)
      (Ends (Disclosed app principal request
        (.commitView view cached payload : CatalogRequest v))) []
      (commitView app principal request v view cached payload : Served d (Reply d)).run := by
  refine Ends.checked fun _ _ => ?_
  refine Ends.guarded Settled.nil fun h₁ authorized _ hgranted _ => ?_
  cases cached with
  | some body => exact Ends.ret trivial
  | none =>
      refine Ends.called (.inr (.inl ⟨authorized, hgranted⟩)) fun loaded => ?_
      have hloaded := hgranted.mono (List.prefix_append h₁ [⟨.store (.loadView view), .ok loaded⟩])
      refine Ends.after (locationBound_ends Call.Mediated.spares view.namespc view.name)
        fun h₂ bound hle _ => ?_
      refine Ends.checked fun _ _ => Ends.checked fun _ _ => Ends.checked fun metadata _ => ?_
      exact Ends.called ⟨authorized, hloaded.mono hle⟩ fun _ => Ends.ret trivial

theorem renameView_ends {u : UnicodeData} (payload : RenamePayload) :
    Prog.Traced (Call.Mediated app principal request)
      (Ends (Disclosed app principal request
        (.renameView payload : CatalogRequest v))) []
      (renameView u app principal request payload : Served d (Reply d)).run := by
  refine Ends.checked fun _ _ => Ends.checked fun _ _ => ?_
  refine Ends.checked fun _ _ => Ends.checked fun _ _ => ?_
  refine Ends.bind (authorizeRename_ends .view nofun Settled.nil payload _) fun h₁ _ hpassed => ?_
  exact Ends.called hpassed fun _ => Ends.ret trivial

/-- Only a view that this request has registered is taken out again. -/
theorem confineRegistered_ends {view : TableIdent} {metadataLocation : Text}
    {registered : Text × ib.ViewMetadata}
    (hpassed : PassedView app principal request h view .create)
    (hregistered : ⟨.store (.registerView view metadataLocation), .ok registered⟩ ∈ h)
    (location : Text) :
    Prog.Traced (Call.Mediated app principal request) (Ends fun _ _ => True) h
      (confineRegistered app view location : Served d Unit).run := by
  refine Ends.after (locationBound_ends Call.Mediated.spares view.namespc view.name)
    fun h₁ bound hle _ => ?_
  split
  · exact Ends.ret trivial
  · refine Ends.attempted (.inr ⟨hpassed.mono hle, metadataLocation, registered, ?_⟩) fun _ =>
      Ends.fail _
    exact hle.subset hregistered

theorem registerView_ends {u : UnicodeData} (ns : NamespaceIdent) (payload : RegisterTablePayload) :
    Prog.Traced (Call.Mediated app principal request)
      (Ends (Disclosed app principal request
        (.registerView ns payload : CatalogRequest v))) []
      (registerView u app principal request ns payload : Served d (Reply d)).run := by
  refine Ends.checked fun _ _ => ?_
  refine Ends.bind (locationBound_ends Call.Mediated.spares ns payload.name) fun h₁ bound hle₁ => ?_
  refine Ends.checked fun _ _ => ?_
  refine Ends.guarded (Settled.nil.unlooked hle₁) fun h₂ authorized _ hgranted _ => ?_
  refine Ends.after (call_ends ⟨authorized, hgranted⟩) fun h₃ registered hle hregistered => ?_
  refine Ends.bind (confineRegistered_ends ⟨authorized, hgranted.mono hle⟩ hregistered _)
    fun _ _ _ => Ends.ret trivial

/-! ### Signatures and plans -/

/-- What has been decided of a request that is signed. -/
structure SignDecided (app : AppState) (principal : Principal) (request : RequestContext)
    (signing : Signing) (table : TableIdent) (payload : RemoteSignRequest) (h : Past d)
    (response : RemoteSignResponse) (authorized : Authorized) (addressed : Addressed)
    (operation : SignedOp) : Prop where
  granted : Granted app principal request table.namespc (.table table.name) .read h authorized
  unrestricted : authorized.obligations.isEmpty = true
  resolved :
    resolve signing.parse (methodOf payload) payload signing.config = .ok (addressed, operation)
  width : operation = .write →
    (app.authorizer.decide (authorized.context.forAction .update)).isAllowed = true ∧
      Recorded app (authorized.context.forAction .update) h
  stored : ∃ loaded warehouse, ⟨.store (.loadTable table), .ok loaded⟩ ∈ h ∧
    ⟨.store (.warehouseFor table.namespc), .ok (some warehouse)⟩ ∈ h ∧
      isWithin warehouse (ib.location loaded.metadata) = true ∧
        isVendable signing.allowedPrefixes (ib.location loaded.metadata) = true ∧
          confine addressed (ib.location loaded.metadata) = .ok ()
  signed : signing.sign (toSign signing payload addressed) = .ok ⟨response.uri, response.headers⟩
  recorded : operation = .write → app.failClosed = true →
    ⟨.write (.requestSign (signEvent authorized operation addressed true)), .ok ()⟩ ∈ h

theorem recordSignature_ends {P : Past d → Call d → Prop} (hP : Spares P) (authorized : Authorized)
    (operation : SignedOp) (addressed : Addressed) (allowed : Bool) :
    Prog.Traced P (Ends fun h' _ => operation = .write → allowed = true → app.failClosed = true →
        ⟨.write (.requestSign (signEvent authorized operation addressed allowed)), .ok ()⟩ ∈ h') h
      (recordSignature app authorized operation addressed allowed : Served d Unit).run := by
  unfold recordSignature
  dsimp only
  split
  · refine Ends.bind (record_ends hP _) fun h' r hrecorded => ?_
    cases r with
    | ok accepted => exact Ends.ret fun _ _ hclosed => hrecorded rfl hclosed
    | error e => exact Ends.fail _
  next hlossy =>
    exact Ends.mono (recordLossy_ends hP _) fun _ _ _ hwrite hallowed =>
      absurd ⟨hwrite, hallowed⟩ hlossy

theorem refuseSignature_ends {α : Type} {P : Past d → Call d → Prop} {Q : Past d → α → Prop}
    (hP : Spares P) (authorized : Authorized) (operation : SignedOp) (addressed : Addressed)
    (error : AppError) :
    Prog.Traced P (Ends Q) h
      (refuseSignature app authorized operation addressed error : Served d α).run :=
  Ends.bind (recordSignature_ends hP ..) fun _ _ _ => Ends.fail _

theorem authorizeSignature_ends {P : Past d → Call d → Prop} (hP : Spares P)
    (authorized : Authorized) (table : TableIdent) (operation : SignedOp) (addressed : Addressed) :
    Prog.Traced P (Ends fun h' _ => authorized.obligations.isEmpty = true ∧ (operation = .write →
        (app.authorizer.decide (authorized.context.forAction .update)).isAllowed = true ∧
          Recorded app (authorized.context.forAction .update) h')) h
      (authorizeSignature app authorized table operation addressed : Served d Unit).run := by
  unfold authorizeSignature
  split
  · exact refuseSignature_ends hP ..
  next hempty =>
    rw [Bool.not_eq_true', Bool.not_eq_false] at hempty
    split
    · refine Ends.bind (alsoPermits_ends hP authorized .update) fun h' allowed hallowed => ?_
      cases allowed with
      | true => exact Ends.ret ⟨hempty, fun _ => ⟨hallowed.1.symm, hallowed.2⟩⟩
      | false => exact refuseSignature_ends hP ..
    next hread => exact Ends.ret ⟨hempty, fun hwrite => absurd hwrite hread⟩

theorem signedLocation_ends {authorized : Authorized} {table : TableIdent}
    (hgranted : Granted app principal request table.namespc (.table table.name) .read h authorized)
    (signing : Signing) (operation : SignedOp) (addressed : Addressed) :
    Prog.Traced (Call.Mediated app principal request) (Ends fun h' location =>
        ∃ loaded warehouse, ⟨.store (.loadTable table), .ok loaded⟩ ∈ h' ∧
          ⟨.store (.warehouseFor table.namespc), .ok (some warehouse)⟩ ∈ h' ∧
            isWithin warehouse location = true ∧
              isVendable signing.allowedPrefixes location = true ∧
                location = ib.location loaded.metadata) h
      (signedLocation app signing authorized table operation addressed : Served d Text).run := by
  refine Ends.after (call_ends (.inl ⟨authorized, hgranted⟩)) fun h₁ loaded _ hread => ?_
  refine Ends.after (managesStorageFor_ends Call.Mediated.spares _ _)
    fun h₂ managed hle hmanaged => ?_
  split
  · exact refuseSignature_ends Call.Mediated.spares ..
  next hsigned =>
    rw [Bool.or_eq_true, not_or, Bool.not_eq_true', Bool.not_eq_false, Bool.not_eq_true',
      Bool.not_eq_false] at hsigned
    obtain ⟨warehouse, hwarehouse, hwithin⟩ := hmanaged hsigned.1
    exact Ends.ret ⟨loaded, warehouse, hle.subset hread, hwarehouse, hwithin, hsigned.2, rfl⟩

theorem confined_ends {P : Past d → Call d → Prop} (hP : Spares P) (authorized : Authorized)
    (operation : SignedOp) (addressed : Addressed) (location : Text) :
    Prog.Traced P (Ends fun _ _ => confine addressed location = .ok ()) h
      (confined app authorized operation addressed location : Served d Unit).run := by
  unfold confined
  split
  next hconfined => exact Ends.ret hconfined
  · exact refuseSignature_ends hP ..

theorem signRequest_ends (signing : Signing) (table : TableIdent) (payload : RemoteSignRequest) :
    Prog.Traced (Call.Mediated app principal request) (Ends fun h' response =>
        ∃ authorized addressed operation, SignDecided app principal request signing table payload h'
          response authorized addressed operation) []
      (signRequest app signing principal request table payload : Served d _).run := by
  refine Ends.checked fun _ _ => ?_
  refine Ends.guarded Settled.nil fun h₁ authorized _ hgranted _ => ?_
  refine Ends.checked fun resolved hresolved => ?_
  obtain ⟨addressed, operation⟩ := resolved
  refine Ends.after (authorizeSignature_ends Call.Mediated.spares ..) fun h₂ _ hle₂ hdecided => ?_
  obtain ⟨hempty, hwidth⟩ := hdecided
  refine Ends.after (signedLocation_ends (hgranted.mono hle₂) ..) fun h₃ location hle₃ hstored => ?_
  obtain ⟨loaded, warehouse, hloaded, hwarehouse, hwithin, hvendable, rfl⟩ := hstored
  refine Ends.after (confined_ends Call.Mediated.spares ..) fun h₄ _ hle₄ hconfined => ?_
  refine Ends.checked fun signed hsigned => ?_
  refine Ends.after (recordSignature_ends Call.Mediated.spares ..) fun h₅ _ hle₅ hrecorded => ?_
  have hle₃₅ : h₃ <+: h₅ := hle₄.trans hle₅
  refine Ends.ret ⟨authorized, addressed, operation, hgranted.mono (hle₂.trans (hle₃.trans hle₃₅)),
    hempty, hresolved, fun hwrite => ?_, ⟨loaded, warehouse, hle₃₅.subset hloaded,
      hle₃₅.subset hwarehouse, hwithin, hvendable, hconfined⟩, ?_, fun hwrite =>
        hrecorded hwrite rfl⟩
  · obtain ⟨hallowed, hpermitted⟩ := hwidth hwrite
    exact ⟨hallowed, hpermitted.mono (hle₃.trans hle₃₅)⟩
  · exact mapError_eq_ok hsigned

theorem planTableScan_mediated {planner : Planner ib} {p : Presigning} (table : TableIdent)
    (planId : Text) (payload : PlanRequest) :
    Prog.Traced (Call.Mediated app principal request) (Ends fun _ _ => True) []
      (planTableScan app principal request table planner p planId payload : Served d _).run :=
  Ends.mono (planTableScan_ends Call.Mediated.spares (fun _ _ => trivial) (Settled.nil.covers _)
    (fun _ authorized hgranted => .inl ⟨authorized, hgranted⟩) planId payload) fun _ _ _ => trivial

end

/-! ## Every route -/

/-- What a signature answers is the request that was made for it. -/
def CatalogRequest.Signed (dep : Deployment ib) (principal : Principal) (request : RequestContext)
    (h : Past d) (response : RemoteSignResponse) : CatalogRequest v → Prop
  | .signRequest table payload => ∃ authorized addressed operation,
      SignDecided dep.app principal request dep.signing table payload h response authorized
        addressed operation
  | _ => False

/-- What an answer shows, over all routes. -/
def CatalogReply.Disclosed (dep : Deployment ib) (principal : Principal) (request : RequestContext)
    (r : CatalogRequest v) (h : Past d) : CatalogReply d → Prop
  | .catalog reply => V1.Disclosed dep.app principal request r h reply
  | .signed response => r.Signed dep principal request h response
  | .planned _ | .done => True

namespace CatalogRequest

variable {dep : Deployment ib} {principal : Principal} {request : RequestContext}

theorem serve_ends (r : CatalogRequest v) :
    Prog.Traced (Call.Mediated dep.app principal request)
      (Ends (CatalogReply.Disclosed dep principal request r)) []
      (r.serve dep principal request).run := by
  cases r with
  | listNamespaces parent query =>
      exact Ends.mapped (listNamespaces_ends parent query) fun _ _ hshown => hshown
  | createNamespace cached payload =>
      exact Ends.mapped (createNamespace_ends cached payload) fun _ _ hshown => hshown
  | getNamespace ns => exact Ends.mapped (getNamespace_ends ns) fun _ _ hshown => hshown
  | namespaceExists ns => exact Ends.mapped (namespaceExists_ends ns) fun _ _ hshown => hshown
  | deleteNamespace ns => exact Ends.mapped (deleteNamespace_ends ns) fun _ _ hshown => hshown
  | updateNamespaceProperties ns payload =>
      exact Ends.mapped (updateNamespaceProperties_ends ns payload) fun _ _ hshown => hshown
  | listTables ns query => exact Ends.mapped (listTables_ends ns query) fun _ _ hshown => hshown
  | createTable ns headers cached payload =>
      exact Ends.mapped (createTable_ends ns headers cached payload) fun _ _ hshown => hshown
  | registerTable ns headers cached payload =>
      exact Ends.mapped (registerTable_ends ns headers cached payload) fun _ _ hshown => hshown
  | unregisterTable table =>
      exact Ends.mapped (unregisterTable_ends table) fun _ _ hshown => hshown
  | loadTable table snapshots headers =>
      exact Ends.mapped (loadTable_ends table snapshots headers) fun _ _ hshown => hshown
  | commitTable table cached payload =>
      exact Ends.mapped (commitTable_ends table cached payload) fun _ _ hshown => hshown
  | tableExists table => exact Ends.mapped (tableExists_ends table) fun _ _ hshown => hshown
  | dropTable table purgeRequested =>
      exact Ends.mapped (dropTable_ends table purgeRequested) fun _ _ hshown => hshown
  | loadTableCredentials table =>
      exact Ends.mapped (loadTableCredentials_ends table) fun _ _ hshown => hshown
  | planTableScan table planId payload =>
      exact Ends.mapped (planTableScan_mediated table planId payload) fun _ _ _ => trivial
  | fetchPlanningResult table =>
      refine Ends.mapped ?_ fun _ _ (_ : True) => trivial
      exact Ends.guarded Settled.nil fun _ _ _ _ _ => Ends.fail _
  | cancelPlanning table =>
      refine Ends.mapped ?_ fun _ _ (_ : True) => trivial
      exact Ends.guarded Settled.nil fun _ _ _ _ _ => Ends.ret trivial
  | fetchScanTasks table =>
      refine Ends.mapped ?_ fun _ _ (_ : True) => trivial
      exact Ends.guarded Settled.nil fun _ _ _ _ _ => Ends.fail _
  | signRequest table payload =>
      exact Ends.mapped (signRequest_ends dep.signing table payload) fun _ _ hsigned => hsigned
  | reportMetrics table => exact Ends.mapped (reportMetrics_ends table) fun _ _ hshown => hshown
  | renameTable payload => exact Ends.mapped (renameTable_ends payload) fun _ _ hshown => hshown
  | listViews ns query => exact Ends.mapped (listViews_ends ns query) fun _ _ hshown => hshown
  | createView ns cached payload =>
      exact Ends.mapped (createView_ends ns cached payload) fun _ _ hshown => hshown
  | registerView ns payload =>
      exact Ends.mapped (registerView_ends ns payload) fun _ _ hshown => hshown
  | loadView view => exact Ends.mapped (loadView_ends view) fun _ _ hshown => hshown
  | commitView view cached payload =>
      exact Ends.mapped (commitView_ends view cached payload) fun _ _ hshown => hshown
  | viewExists view => exact Ends.mapped (viewExists_ends view) fun _ _ hshown => hshown
  | dropView view => exact Ends.mapped (dropView_ends view) fun _ _ hshown => hshown
  | renameView payload => exact Ends.mapped (renameView_ends payload) fun _ _ hshown => hshown
  | commitTransaction cached tableChanges =>
      exact Ends.mapped (commitTransaction_ends cached tableChanges) fun _ _ hshown => hshown

/-- No route reaches the catalog, or the credential provider, but through the decisions that
`Mediated` and `Vended` name, each recorded before. -/
theorem mediated (dep : Deployment ib) (principal : Principal) (request : RequestContext)
    (r : CatalogRequest v) (h₁ h₂ : Past d) (x : Σ c : Call d, c.Answer)
    (p : Prog (Call d) Call.Answer (Except Stop (CatalogReply d)))
    (hfollows : Prog.Follows (r.serve dep principal request).run (h₁ ++ x :: h₂) p) :
    Call.Mediated dep.app principal request h₁ x.1 :=
  (serve_ends r).issued hfollows

/-- What an answer shows was decided on before: the items of a listing, a credential, a signer,
a signature. -/
theorem disclosed (dep : Deployment ib) (principal : Principal) (request : RequestContext)
    (r : CatalogRequest v) (h : Past d) (reply : CatalogReply d)
    (hfollows : Prog.Follows (r.serve dep principal request).run h (.done (.ok reply))) :
    reply.Disclosed dep principal request r h :=
  (serve_ends r).of_follows hfollows reply rfl

end CatalogRequest

/-! ## A table of the lake -/

def plainViews : ViewCrate plainCrates where
  Parts := Unit
  Builder := Text
  fromViewCreation creation := .ok creation.location
  uuid metadata := metadata
  parseUuid := some
  intoBuilder metadata := metadata
  apply _ builder := .ok builder
  build := .ok

def lakeDeployment : Deployment .plain where
  u := .plain
  b64 := Base64.urlSafeNoPad
  app := lakeApp
  signing := lakeSigning
  planner := lakePlanner
  presigning := lakePresigning

/-- The guard's look at the namespace, and its record. -/
def lakePast (target : Target) (action : Auth.Action) : Past plainCrates :=
  [⟨.store (.getNamespace lake.namespc), .ok ⟨lake.namespc, setOwner ∅ "acme".toList⟩⟩,
    ⟨.write (.decision (auditEvent lakeApp.deciding ⟨lakeUser,
      target.resource "acme".toList lake.namespc, action, ⟨none, none, []⟩⟩ .allow)), .ok ()⟩]

/-- The table is dropped once that is permitted; the namespace is looked at a second time, before
it is dropped, only then. -/
theorem mediated_lake :
    Passed lakeApp lakeUser ⟨none, none, []⟩ (lakePast (.table lake.name) .delete) lake.namespc
        (.table lake.name) .delete ∧
      ((∃ action ∈ [.read, .update, .delete], Passed lakeApp lakeUser ⟨none, none, []⟩
          (lakePast .namespc .delete) lake.namespc .namespc action) ∨
        LetIn lakeApp lakeUser ⟨none, none, []⟩ (lakePast .namespc .delete) lake.namespc) := by
  constructor
  · refine CatalogRequest.mediated lakeDeployment lakeUser ⟨none, none, []⟩
      (.unregisterTable lake : CatalogRequest plainViews) _ []
      ⟨.store (.dropTable lake), .ok ()⟩ (.done (.ok (.catalog .ok))) ?_
    exact ⟨_, rfl, _, rfl, _, rfl, rfl⟩
  · have hlook := CatalogRequest.mediated lakeDeployment lakeUser ⟨none, none, []⟩
      (.deleteNamespace lake.namespc : CatalogRequest plainViews) (lakePast .namespc .delete)
      [⟨.store (.dropNamespace lake.namespc), .ok ()⟩]
      ⟨.store (.getNamespace lake.namespc), .ok ⟨lake.namespc, setOwner ∅ "acme".toList⟩⟩
      (.done (.ok (.catalog .ok))) ⟨_, rfl, _, rfl, _, rfl, _, rfl, rfl⟩
    rcases hlook with hfirst | hown | hin | ⟨parent, page, answer, hmem, -⟩
    · exact absurd (List.mem_cons_self ..) (hfirst _)
    · exact .inl hown
    · exact .inr hin
    · simp [lakePast] at hmem

/-- The table at `s3://lake/db`, with a credential for it, beside one that is kept from sight. -/
def lakeGives : (e : Call plainCrates) → e.Answer
  | .store (.getNamespace ns) => .ok ⟨ns, setOwner ∅ "acme".toList⟩
  | .store (.listTables ns _) =>
      .ok ⟨[⟨[], lake⟩, ⟨[], ⟨ns, "salaries".toList⟩⟩], none⟩
  | .store (.loadTable table) => .ok ⟨table, "s3://lake/db".toList, []⟩
  | .store (.warehouseFor _) => .ok (some "s3://lake".toList)
  | .store _ => .error ⟨.featureUnsupported, []⟩
  | .write _ => .ok ()
  | .vendCredentials _ => .ok [()]

/-- Nobody may read the salaries. -/
def lakeKeeping : Deployment .plain :=
  { lakeDeployment with
    app := { lakeApp with
      authorizer := ⟨fun context =>
        if context.resource = (Target.table "salaries".toList).resource "acme".toList lake.namespc
        then .deny "".toList
        else .allow, none⟩ } }

def CatalogReply.credentials : CatalogReply plainCrates → Option (List Unit)
  | .catalog (.credentials credentials) => some credentials
  | _ => none

def CatalogReply.identifiers : CatalogReply plainCrates → Option (List TableIdent)
  | .catalog (.identifiers page) => some page.items
  | _ => none

def lakeAsked : CatalogRequest plainViews := .loadTableCredentials lake

def lakeListed : CatalogRequest plainViews := .listTables lake.namespc ⟨none, none⟩

/-- What `lakeGives` makes of a request. -/
def lakeReply (r : CatalogRequest plainViews) : Except Stop (CatalogReply plainCrates) :=
  ((r.serve lakeKeeping lakeUser ⟨none, none, []⟩).run.run (fun e s => (lakeGives e, s)) ()).1

/-- A request answered as `lakeGives` answers its calls. -/
theorem lakeReply_follows {r : CatalogRequest plainViews} {α : Type} {a : α}
    {of : CatalogReply plainCrates → Option α} (h : (lakeReply r).toOption.bind of = some a) :
    ∃ past reply, Prog.Follows (r.serve lakeKeeping lakeUser ⟨none, none, []⟩).run past
      (.done (.ok reply)) ∧ of reply = some a := by
  obtain ⟨past, hfollows⟩ :=
    follows_answered lakeGives (r.serve lakeKeeping lakeUser ⟨none, none, []⟩).run
  obtain ⟨reply, hreply, hof⟩ := Option.bind_eq_some_iff.mp h
  rw [Except.toOption_eq_some, lakeReply] at hreply
  rw [hreply] at hfollows
  exact ⟨past, reply, hfollows, hof⟩

theorem lakeAsked_ok :
    (lakeReply lakeAsked).toOption.bind CatalogReply.credentials = some [()] := by
  decide

theorem lakeListed_ok :
    (lakeReply lakeListed).toOption.bind CatalogReply.identifiers = some [lake] := by
  decide

theorem CatalogReply.eq_of_credentials {reply : CatalogReply plainCrates} {credentials : List Unit}
    (h : reply.credentials = some credentials) : reply = .catalog (.credentials credentials) := by
  unfold CatalogReply.credentials at h
  split at h
  · rw [Option.some.inj h]
  · cases h

theorem CatalogReply.exists_of_identifiers {reply : CatalogReply plainCrates}
    {items : List TableIdent} (h : reply.identifiers = some items) :
    ∃ page, reply = .catalog (.identifiers page) ∧ page.items = items := by
  unfold CatalogReply.identifiers at h
  split at h
  next page => exact ⟨page, rfl, Option.some.inj h⟩
  · cases h

/-- The credential is the table's own; of the two tables the one that may be read is listed. -/
theorem disclosed_lake : ∃ h h' : Past plainCrates,
    GivenOut lakeKeeping.app lakeUser ⟨none, none, []⟩ h lake [()] ∧
      ListedIdent lakeKeeping.app lakeUser ⟨none, none, []⟩ h' lake lakeListed := by
  obtain ⟨h, reply, hfollows, hcredentials⟩ := lakeReply_follows lakeAsked_ok
  obtain ⟨h', reply', hfollows', hidentifiers⟩ := lakeReply_follows lakeListed_ok
  have hshown := CatalogRequest.disclosed lakeKeeping lakeUser ⟨none, none, []⟩ lakeAsked h reply
    hfollows
  have hlisted := CatalogRequest.disclosed lakeKeeping lakeUser ⟨none, none, []⟩ lakeListed h'
    reply' hfollows'
  rw [CatalogReply.eq_of_credentials hcredentials] at hshown
  obtain ⟨page, rfl, hitems⟩ := CatalogReply.exists_of_identifiers hidentifiers
  obtain ⟨table, habout, hgiven⟩ := hshown
  cases habout
  refine ⟨h, h', hgiven, hlisted lake ?_⟩
  rw [hitems]
  exact List.mem_singleton_self _

end Rustberg.V1
