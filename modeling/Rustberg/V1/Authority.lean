import Rustberg.Base.Layers
import Rustberg.V1.Protection
import Rustberg.V1.Routes

/-!
# Changes over runs

Any number of requests to the routes, over one redb registry, their atomic
steps interleaved in any way. `Transaction.RestsOn` says which decisions a
write transaction needs. In every run, what changes the registry is a
transaction that rests on decisions its own request has made, on owners the
registry has held (`changes_authorized`); where no namespace is dropped, on
owners it holds at the change (`changes_current`).
-/

namespace Rustberg

open Process

variable {ib : Iceberg}

/-! ## The transactions a call can issue -/

/-- The request of the catalog a call makes, where it may write. -/
def StoreCall.writes : StoreCall ib → Option (Request ib)
  | .createNamespace ns properties => some (.createNamespace ns properties)
  | .updateNamespace ns properties => some (.updateNamespace ns properties)
  | .dropNamespace ns => some (.dropNamespace ns)
  | .createTable ns creation => some (.createTable ns creation)
  | .stageCreateTable ns creation => some (.stageCreateTable ns creation)
  | .registerTable table location => some (.registerTable table location)
  | .commitTable change => some (.commitTable change)
  | .commitTablesAtomic commits => some (.commitTablesAtomic commits)
  | .renameTable src dest => some (.renameTable src dest)
  | .dropTable table | .purgeTable table => some (.dropTable table)
  | .registerView view location => some (.registerView view location)
  | .createView view metadata => some (.createView view metadata)
  | .updateView view expected metadata => some (.updateView view expected metadata)
  | .dropView view => some (.dropView view)
  | .renameView src dest => some (.renameView src dest)
  | _ => none

def StoreCall.Issues (call : StoreCall ib) (tx : Transaction) : Prop :=
  ∃ q, call.writes = some q ∧ q.Issues tx

section

variable {α β : Type} {P : Effect ib → Prop}

theorem Op.Performs.of_mapped {f : α → β} {op : Op ib α} (h : (f <$> op).Performs P fun _ => True) :
    op.Performs P fun _ => True := by
  rw [map_eq_pure_bind] at h
  have hfirst : ∀ p : Prog (Effect ib) Effect.Answer (Except Error α), ∀ {γ : Type}
      {Q : γ → Prop} (g : Except Error α → Prog (Effect ib) Effect.Answer γ),
      Prog.Meets P Q (p >>= g) → Prog.Meets P (Prog.OrError fun _ => True) p := by
    intro p γ Q g hp
    induction p with
    | done a => cases a <;> trivial
    | perform e k ih => exact ⟨hp.1, fun r => ih r (hp.2 r)⟩
  exact hfirst op.run _ h

theorem Op.Performs.issues {op : Op ib α} {call : StoreCall ib} {q : Request ib}
    (hq : call.writes = some q) (h : op.Writes q.Issues fun _ => True) :
    op.Writes call.Issues fun _ => True := by
  refine Prog.Meets.weaken h fun e he => ?_
  cases e with
  | write tx => exact ⟨q, hq, he⟩
  | _ => trivial

/-- An operation that issues none may issue any. -/
theorem Op.Performs.reads {op : Op ib α} {W : Transaction → Prop}
    (h : op.Writes (fun _ => False) fun _ => True) : op.Writes W fun _ => True := by
  refine Prog.Meets.weaken h fun e he => ?_
  cases e with
  | write tx => exact he.elim
  | _ => trivial

end

open Op.Performs in
theorem purgeTable_writes (f : TableFiles ib) (readable : Text → Bool) (table : TableIdent) :
    (Redb.purgeTable f readable table).Writes (· = .drop .table table) fun _ => True := by
  have hload : (Redb.loadTable table : Op ib (Table ib)).Writes (fun _ => False) fun _ => True :=
    of_mapped (serve_writes ⟨[], .table⟩ (.loadTable table))
  refine seq hload.reads fun loaded => seq (one rfl) fun _ => ?_
  refine Prog.Meets.weaken (purgeTableData_performs f readable loaded) fun e he => ?_
  cases e with
  | delete path => trivial
  | _ => exact he.elim

/-- What a transaction does to the namespaces. -/
theorem Transaction.namespaces_cases {tx : Transaction} {reg reg' : Registry}
    (h : tx.apply reg = .ok reg') :
    (∃ ns properties, tx = .createNamespace ns properties ∧ namespaceKey ns ∉ reg.namespaces ∧
        reg'.namespaces = reg.namespaces.insert (namespaceKey ns) ⟨ns, properties⟩) ∨
      (∃ ns properties, tx = .updateNamespace ns properties ∧
        reg'.namespaces = reg.namespaces.insert (namespaceKey ns) ⟨ns, properties⟩) ∨
      (∃ ns, tx = .dropNamespace ns) ∨ reg'.namespaces = reg.namespaces := by
  cases tx with
  | createNamespace ns properties =>
      obtain ⟨-, hnew, rfl⟩ := createNamespaceTx_eq_ok.mp h
      exact .inl ⟨ns, properties, rfl, hnew, rfl⟩
  | updateNamespace ns properties =>
      obtain ⟨-, rfl⟩ := updateNamespaceTx_eq_ok.mp h
      exact .inr (.inl ⟨ns, properties, rfl, rfl⟩)
  | dropNamespace ns => exact .inr (.inr (.inl ⟨ns, rfl⟩))
  | create kind ident metadataLocation display =>
      obtain ⟨-, -, rfl⟩ := createTx_eq_ok.mp h
      exact .inr (.inr (.inr (Registry.setTabulars_namespaces ..)))
  | stage ident metadataLocation =>
      cases h
      exact .inr (.inr (.inr rfl))
  | drop kind ident =>
      obtain ⟨-, rfl⟩ := dropTx_eq_ok.mp h
      exact .inr (.inr (.inr (Registry.setTabulars_namespaces ..)))
  | rename kind src dest =>
      obtain ⟨record, -, -, -, rfl⟩ := renameTx_eq_ok.mp h
      exact .inr (.inr (.inr (Registry.setTabulars_namespaces ..)))
  | updateView view expected expectedLocation newLocation =>
      obtain ⟨live, -, -, -, rfl⟩ := updateViewTx_eq_ok.mp h
      exact .inr (.inr (.inr rfl))
  | swap swaps =>
      refine .inr (.inr (.inr (swapTx_keeps (I := fun mid => mid.namespaces = reg.namespaces)
        (fun swap hswap mid mid' hmid hone => ?_) rfl h)))
      rcases swapOne_eq_ok.mp hone with ⟨_, _, -, -, -, -, rfl⟩ | ⟨-, -, -, -, rfl⟩
      · exact hmid
      · exact hmid

end Rustberg

namespace Rustberg.V1

open Process Auth Api

variable {ib : Iceberg} {d : Crates ib} {v : ViewCrate d}

open Op.Performs in
theorem Store.answer_writes (st : Store ib) {call : StoreCall ib}
    (hcall : call ≠ .storageHealthCheck) :
    (st.answer call).Writes call.Issues fun _ => True := by
  have hserve := fun q : Request ib => serve_writes st.catalog q
  cases call with
  | listNamespaces parent page => exact (of_mapped (hserve (.listNamespaces parent page))).reads
  | createNamespace ns properties =>
      exact seq (issues rfl (of_mapped (hserve (.createNamespace ns properties)))) fun _ =>
        ret trivial
  | getNamespace ns => exact seq (of_mapped (hserve (.getNamespace ns))).reads fun _ => ret trivial
  | namespaceExists ns => exact (of_mapped (hserve (.namespaceExists ns))).reads
  | updateNamespace ns properties =>
      exact issues rfl (of_mapped (hserve (.updateNamespace ns properties)))
  | dropNamespace ns => exact issues rfl (of_mapped (hserve (.dropNamespace ns)))
  | listTables ns page => exact (of_mapped (hserve (.listTabulars .table ns page))).reads
  | createTable ns creation => exact issues rfl (of_mapped (hserve (.createTable ns creation)))
  | stageCreateTable ns creation =>
      exact issues rfl (of_mapped (hserve (.stageCreateTable ns creation)))
  | metadataPointer table => exact (of_mapped (hserve (.metadataPointer table))).reads
  | loadTable table => exact (of_mapped (hserve (.loadTable table))).reads
  | tableExists table => exact (of_mapped (hserve (.tableExists table))).reads
  | registerTable table location =>
      exact issues rfl (of_mapped (hserve (.registerTable table location)))
  | commitTable change => exact issues rfl (of_mapped (hserve (.commitTable change)))
  | commitTablesAtomic commits =>
      exact issues rfl (of_mapped (hserve (.commitTablesAtomic commits)))
  | renameTable src dest => exact issues rfl (of_mapped (hserve (.renameTable src dest)))
  | dropTable table => exact issues rfl (of_mapped (hserve (.dropTable table)))
  | purgeTable table => exact issues rfl (purgeTable_writes st.files st.readable table)
  | listViews ns page => exact (of_mapped (hserve (.listTabulars .view ns page))).reads
  | viewExists view => exact (of_mapped (hserve (.viewExists view))).reads
  | loadView view => exact (of_mapped (hserve (.loadView view))).reads
  | registerView view location =>
      exact issues rfl (of_mapped (hserve (.registerView view location)))
  | createView view metadata => exact issues rfl (of_mapped (hserve (.createView view metadata)))
  | updateView view expected metadata =>
      exact issues rfl (of_mapped (hserve (.updateView view expected metadata)))
  | dropView view => exact issues rfl (of_mapped (hserve (.dropView view)))
  | renameView src dest => exact issues rfl (of_mapped (hserve (.renameView src dest)))
  | warehouseFor ns => exact ret trivial
  | namespacePrefixFor ns => exact ret trivial
  | capabilitiesFor ns => exact ret trivial
  | storageHealthCheck => exact absurd rfl hcall

/-! ## What a change rests on -/

/-- What a transaction may rest on. -/
structure Grounds where
  decided : NamespaceIdent → Target → Auth.Action → Prop
  /-- A root namespace may be created. -/
  root : NamespaceIdent → Prop
  /-- The properties name the owner that was read of the namespace. -/
  owner : NamespaceIdent → Properties → Prop
  /-- The request has itself registered the view. -/
  registered : TableIdent → Prop

/-- Less is asked for. -/
structure Grounds.Within (g g' : Grounds) : Prop where
  decided : ∀ ns target action, g.decided ns target action → g'.decided ns target action
  root : ∀ ns, g.root ns → g'.root ns
  owner : ∀ ns properties, g.owner ns properties → g'.owner ns properties
  registered : ∀ view, g.registered view → g'.registered view

/-- A table or a view, as the guard names it. -/
def targetOf : Tabular → Text → Target
  | .table => .table
  | .view => .view

/-- The decisions a transaction needs. -/
def RestsOn (g : Grounds) : Transaction → Prop
  | .createNamespace ns _ =>
      if parentOf ns = [] then g.root ns else g.decided (parentOf ns) .namespc .create
  | .updateNamespace ns properties => g.decided ns .namespc .update ∧ g.owner ns properties
  | .dropNamespace ns => g.decided ns .namespc .delete
  | .stage ident _ => g.decided ident.namespc (.table ident.name) .create
  | .create kind ident _ _ => g.decided ident.namespc (targetOf kind ident.name) .create
  | .drop kind ident => g.decided ident.namespc (targetOf kind ident.name) .delete ∨
      kind = .view ∧ g.decided ident.namespc (.view ident.name) .create ∧ g.registered ident
  | .rename kind src dest => g.decided src.namespc (targetOf kind src.name) .update ∧
      g.decided dest.namespc (targetOf kind dest.name) .create
  | .updateView view _ _ _ => g.decided view.namespc (.view view.name) .update
  | .swap swaps => ∀ swap ∈ swaps,
      g.decided swap.ident.namespc (.table swap.ident.name) .update

theorem RestsOn.mono {g g' : Grounds} (hle : g.Within g') {tx : Transaction} (h : RestsOn g tx) :
    RestsOn g' tx := by
  cases tx with
  | createNamespace ns properties =>
      change if parentOf ns = [] then g.root ns else _ at h
      change if parentOf ns = [] then g'.root ns else _
      split at h
      next hroot =>
        rw [if_pos hroot]
        exact hle.root _ h
      next hnested =>
        rw [if_neg hnested]
        exact hle.decided _ _ _ h
  | updateNamespace ns properties => exact ⟨hle.decided _ _ _ h.1, hle.owner _ _ h.2⟩
  | dropNamespace ns => exact hle.decided _ _ _ h
  | create kind ident metadataLocation display => exact hle.decided _ _ _ h
  | stage ident metadataLocation => exact hle.decided _ _ _ h
  | drop kind ident =>
      rcases h with h | h
      · exact .inl (hle.decided _ _ _ h)
      · exact .inr ⟨h.1, hle.decided _ _ _ h.2.1, hle.registered _ h.2.2⟩
  | rename kind src dest => exact ⟨hle.decided _ _ _ h.1, hle.decided _ _ _ h.2⟩
  | updateView view expected expectedLocation newLocation => exact hle.decided _ _ _ h
  | swap swaps => exact fun swap hswap => hle.decided _ _ _ (h swap hswap)

section

variable {app : AppState} {principal : Principal} {request : RequestContext}

/-- What a handler has gone through. -/
def handlerGrounds (app : AppState) (principal : Principal) (request : RequestContext)
    (h : Past d) : Grounds where
  decided := Passed app principal request h
  root ns := PassedNew app principal request h (Resource.ofNamespace principal.tenantId ns) .create
  owner ns properties := ∃ current : Namespace, ⟨.store (.getNamespace ns), .ok current⟩ ∈ h ∧
    ownerOf properties = ownerOf current.properties
  registered view :=
    ∃ location registered, ⟨.store (.registerView view location), .ok registered⟩ ∈ h

theorem swaps_restOn {g : Grounds} {changes : List ib.TableChange} {swaps : List Swap}
    (hidents : swaps.map Swap.ident = changes.map Iceberg.TableChange.ident)
    (hpassed : ∀ change ∈ changes,
      g.decided change.ident.namespc (.table change.ident.name) .update) :
    RestsOn g (.swap swaps) := by
  intro swap hswap
  have hmem := List.mem_map_of_mem (f := Swap.ident) hswap
  rw [hidents] at hmem
  obtain ⟨change, hchange, hident⟩ := List.mem_map.mp hmem
  rw [← hident]
  exact hpassed change hchange

/-- What a mediated call writes rests on what its handler has gone through. -/
theorem Mediated.restsOn {h : Past d} {call : StoreCall ib}
    (hcall : Mediated app principal request h call) {tx : Transaction} (htx : call.Issues tx) :
    RestsOn (handlerGrounds app principal request h) tx := by
  obtain ⟨q, hq, htx⟩ := htx
  cases call with
  | createNamespace ns properties =>
      cases hq
      obtain rfl := htx
      exact hcall
  | updateNamespace ns properties =>
      cases hq
      obtain rfl := htx
      exact hcall
  | dropNamespace ns =>
      cases hq
      obtain rfl := htx
      exact hcall
  | createTable ns creation =>
      cases hq
      obtain ⟨location, display, rfl⟩ := htx
      exact hcall
  | stageCreateTable ns creation =>
      cases hq
      obtain ⟨location, rfl⟩ := htx
      exact hcall
  | registerTable table location =>
      cases hq
      obtain ⟨location, display, rfl⟩ := htx
      exact hcall
  | commitTable change =>
      cases hq
      obtain ⟨swaps, rfl, hidents⟩ := htx
      have hone : swaps.map Swap.ident = [change].map Iceberg.TableChange.ident := hidents
      refine swaps_restOn hone fun change' hchange => ?_
      rw [List.mem_singleton.mp hchange]
      exact hcall
  | commitTablesAtomic commits =>
      cases hq
      obtain ⟨swaps, rfl, hidents⟩ := htx
      exact swaps_restOn hidents hcall
  | renameTable src dest =>
      cases hq
      obtain rfl := htx
      exact hcall
  | dropTable table =>
      cases hq
      obtain rfl := htx
      exact .inl hcall
  | purgeTable table =>
      cases hq
      obtain rfl := htx
      exact .inl hcall
  | registerView view location =>
      cases hq
      obtain ⟨location, display, rfl⟩ := htx
      exact hcall
  | createView view metadata =>
      cases hq
      obtain ⟨location, display, rfl⟩ := htx
      exact hcall
  | updateView view expected metadata =>
      cases hq
      obtain ⟨expected, location, newLocation, rfl⟩ := htx
      exact hcall
  | dropView view =>
      cases hq
      obtain rfl := htx
      rcases hcall with hpassed | hpassed
      · exact .inl hpassed
      · exact .inr ⟨rfl, hpassed⟩
  | renameView src dest =>
      cases hq
      obtain rfl := htx
      exact hcall
  | _ => cases hq

/-! ## The same, on the registry -/

/-- A decision a request has made, and recorded where a lost record refuses. -/
def Approved (app : AppState) (principal : Principal) (request : RequestContext) (h : Seen d)
    (resource : Auth.Resource) (action : Auth.Action) : Prop :=
  let context : AuthzContext := ⟨principal, resource, action, request⟩
  (app.authorizer.decide context).isAllowed = true ∧
    (isMutating action = true → app.failClosed = true →
      ⟨.write (.decision (auditEvent app.deciding context (app.authorizer.decide context))),
        .ok ()⟩ ∈ h)

/-- What a request has gone through, given who owns what. -/
def requestGrounds (app : AppState) (principal : Principal) (request : RequestContext) (h : Seen d)
    (owned : NamespaceIdent → Option Text → Prop) : Grounds where
  decided ns target action := ∃ owner, owned ns (some owner) ∧
    Approved app principal request h (target.resource owner ns) action
  root ns := Approved app principal request h (Resource.ofNamespace principal.tenantId ns) .create
  owner ns properties := owned ns (ownerOf properties)
  registered view := ∃ location display,
    ⟨.catalog (.write (.create .view view location display)), .ok ()⟩ ∈ h

/-- The owner in an entry that was read. -/
def OwnerRead (h : Seen d) (ns : NamespaceIdent) (owner : Option Text) : Prop :=
  ∃ record, ⟨.catalog (.getNamespace (namespaceKey ns)), .ok (some record)⟩ ∈ h ∧
    ownerOf record.properties = owner

theorem getNamespace_reads (st : Store ib) (ns : NamespaceIdent) :
    Prog.Traced (fun _ _ => True) (fun h r => ∀ namespc : Namespace, r = .ok namespc →
        OwnerRead h ns (ownerOf namespc.properties)) []
      (onCatalog (st.answer (.getNamespace ns)) : Server d (Except Error Namespace)) := by
  refine ⟨trivial, fun r => ?_⟩
  cases r with
  | error e => exact fun namespc hok => by cases hok
  | ok found =>
      cases found with
      | none => exact fun namespc hok => by cases hok
      | some record =>
          intro namespc hok
          cases hok
          exact ⟨record, List.mem_singleton_self _, rfl⟩

theorem registerView_creates (st : Store ib) (view : TableIdent) (location : Text) :
    Prog.Traced (fun _ _ => True) (fun h r => (∃ registered, r = .ok registered) →
        ⟨.catalog (.write (.create .view view location view.display)), .ok ()⟩ ∈ h) []
      (onCatalog (st.answer (.registerView view location)) :
        Server d (Except Error (Text × ib.ViewMetadata))) := by
  refine ⟨trivial, fun r => ?_⟩
  cases r with
  | error e => exact fun hok => hok.elim fun _ heq => by cases heq
  | ok found =>
      cases found with
      | none => exact fun hok => hok.elim fun _ heq => by cases heq
      | some record =>
          refine ⟨trivial, fun r => ?_⟩
          cases r with
          | error e => exact fun hok => hok.elim fun _ heq => by cases heq
          | ok metadata =>
              change Prog.Traced _ _ _ (onCatalog (d := d) (do
                ofExcept ((st.catalog.declaredBound view).ensureIceberg (ib.viewLocation metadata))
                Op.write (.create .view view location view.display)
                return (location, metadata)))
              generalize (st.catalog.declaredBound view).ensureIceberg _ = bound
              cases bound with
              | error e => exact fun hok => hok.elim fun _ heq => by cases heq
              | ok u =>
                  refine ⟨trivial, fun r => ?_⟩
                  cases r with
                  | error e => exact fun hok => hok.elim fun _ heq => by cases heq
                  | ok u => exact fun _ => List.mem_append_right _ (List.mem_singleton_self _)

section

variable {st : Store ib} {h : Past d} {h' : Seen d}

theorem OwnerRead.of_carries (hc : Prog.Carries st.carry h h') {ns : NamespaceIdent}
    {namespc : Namespace} (hread : ⟨.store (.getNamespace ns), .ok namespc⟩ ∈ h) :
    OwnerRead h' ns (ownerOf namespc.properties) := by
  obtain ⟨h₁, h₂, h₃, rfl, hfollows⟩ := hc.mem hread
  obtain ⟨record, hmem, howner⟩ := (getNamespace_reads st ns).of_follows hfollows namespc rfl
  exact ⟨record, List.mem_append_left _ (List.mem_append_right _ hmem), howner⟩

theorem written_of_carries (hc : Prog.Carries st.carry h h') {event : Event}
    (hwritten : ⟨.write event, .ok ()⟩ ∈ h) : ⟨.write event, .ok ()⟩ ∈ h' := by
  obtain ⟨h₁, h₂, h₃, rfl, hfollows⟩ := hc.mem hwritten
  refine List.mem_append_left _ (List.mem_append_right _ ?_)
  cases h₂ with
  | nil => cases hfollows
  | cons x h₂ =>
      obtain ⟨r, rfl, hdone⟩ := hfollows
      obtain ⟨-, hr⟩ := Prog.follows_done.mp hdone
      cases hr
      exact List.mem_cons_self ..

theorem Recorded.of_carries (hc : Prog.Carries st.carry h h') (h'' : Seen d)
    {resource : Auth.Resource} {action : Auth.Action}
    (hallowed : (app.authorizer.decide ⟨principal, resource, action, request⟩).isAllowed = true)
    (hrecorded : Recorded app ⟨principal, resource, action, request⟩ h) :
    Approved app principal request (h' ++ h'') resource action := by
  refine ⟨hallowed, fun hmutating hclosed => ?_⟩
  exact List.mem_append_left _ (written_of_carries hc (hrecorded hmutating hallowed hclosed))

/-- What a handler has gone through, its request has, on the registry. -/
theorem handlerGrounds_within (hc : Prog.Carries st.carry h h') (h'' : Seen d) :
    (handlerGrounds app principal request h).Within
      (requestGrounds app principal request (h' ++ h'') (OwnerRead (h' ++ h''))) where
  decided := by
    rintro ns target action ⟨authorized, ⟨namespc, hread, howner⟩, hcontext, hallowed, -, hrecorded⟩
    obtain ⟨record, hmem, hrecord⟩ := OwnerRead.of_carries hc hread
    rw [hcontext] at hallowed hrecorded
    exact ⟨authorized.owner, ⟨record, List.mem_append_left _ hmem, hrecord.trans howner⟩,
      Recorded.of_carries hc h'' hallowed hrecorded⟩
  root := by
    rintro ns ⟨hallowed, hrecorded⟩
    exact Recorded.of_carries hc h'' hallowed hrecorded
  owner := by
    rintro ns properties ⟨current, hread, howner⟩
    obtain ⟨record, hmem, hrecord⟩ := OwnerRead.of_carries hc hread
    exact ⟨record, List.mem_append_left _ hmem, hrecord.trans howner.symm⟩
  registered := by
    rintro view ⟨location, registered, hregistered⟩
    obtain ⟨h₁, h₂, h₃, rfl, hfollows⟩ := hc.mem hregistered
    have hcreated := (registerView_creates st view location).of_follows hfollows ⟨registered, rfl⟩
    exact ⟨location, view.display, List.mem_append_left _
      (List.mem_append_left _ (List.mem_append_right _ hcreated))⟩

end

end

/-! ## Runs -/

/-- A request, and who makes it. -/
structure Caller (v : ViewCrate d) where
  principal : Principal
  request : RequestContext
  asks : CatalogRequest v

namespace Caller

def program (dep : Deployment ib) (st : Store ib) (c : Caller v) :
    Server d (Except Stop (CatalogReply d)) :=
  st.served (c.asks.serve dep c.principal c.request)

/-- Every transaction of a request rests on what the request has gone through. -/
theorem program_traced (dep : Deployment ib) (st : Store ib) (c : Caller v) :
    Prog.Traced (fun h e => ∀ tx, e = .catalog (.write tx) →
        RestsOn (requestGrounds dep.app c.principal c.request h (OwnerRead h)) tx)
      (fun _ _ => True) [] (c.program dep st) := by
  have hnil : Prog.Carries st.carry ([] : Past d) [] := .nil
  refine Prog.Traced.through (CatalogRequest.serve_ends c.asks) hnil ?_ fun _ _ _ _ _ => trivial
  intro h h' e hc hmediated
  cases e with
  | write event => exact ⟨fun tx heq => (by cases heq), fun _ => trivial⟩
  | vendCredentials asked => exact ⟨fun tx heq => (by cases heq), fun _ => trivial⟩
  | store call =>
      have hhealth : call ≠ .storageHealthCheck := by
        rintro rfl
        exact hmediated
      have hissues : Prog.Meets (fun e : ServerEffect d => ∀ tx, e = .catalog (.write tx) →
          call.Issues tx) (Prog.OrError fun _ => True) (onCatalog (st.answer call)) := by
        refine Prog.Meets.through (st.answer_writes hhealth) fun e he =>
          ⟨fun tx heq => ?_, fun _ => trivial⟩
        cases heq
        exact he
      refine hissues.traced (fun h'' e he tx htx => ?_) fun _ _ _ => trivial
      exact (Mediated.restsOn hmediated (he tx htx)).mono (handlerGrounds_within hc h'')

end Caller

abbrev RoutesConfig (v : ViewCrate d) :=
  Config (ServerEffect d) ServerEffect.Answer (Except Stop (CatalogReply d)) Registry (Caller v)

abbrev RoutesEvent (v : ViewCrate d) :=
  Process.Event (ServerEffect d) ServerEffect.Answer Registry (Caller v)

/-- A run of any requests to the routes, from a registry that only they change. -/
abbrev RoutesRun (v : ViewCrate d) (dep : Deployment ib) (st : Store ib) (start : Registry)
    (tr : List (RoutesEvent v)) (cfg : RoutesConfig v) : Prop :=
  Run (Caller.program dep st) ServerSem (fun _ _ => False) ⟨start, []⟩ tr cfg

/-- The registry holds the namespace, under this owner. -/
def OwnedAt (reg : Registry) (ns : NamespaceIdent) (owner : Option Text) : Prop :=
  ∃ record, reg.namespaces[namespaceKey ns]? = some record ∧ ownerOf record.properties = owner

/-- Request `i` has itself read the owner of the namespace, as the registry held it then. -/
def OwnerReadAt (i : Nat) (tr : List (RoutesEvent v)) (ns : NamespaceIdent)
    (owner : Option Text) : Prop :=
  ∃ ev ∈ tr, ∃ record,
    ev.label = .act i (.catalog (.getNamespace (namespaceKey ns))) (.ok (some record)) ∧
      ev.pre.namespaces[namespaceKey ns]? = some record ∧ ownerOf record.properties = owner

/-- The event commits a transaction that rests on what its own request has gone through, on
owners it has itself read; `owned` says what more is known of them. -/
def AuthorizedChange (dep : Deployment ib) (cfg : RoutesConfig v) (tr : List (RoutesEvent v))
    (owned : NamespaceIdent → Option Text → Prop) (ev : RoutesEvent v) : Prop :=
  ∃ i c rest tx, cfg.calls[i]? = some ⟨c, rest⟩ ∧
    ev.label = .act i (.catalog (.write tx)) (.ok ()) ∧ tx.apply ev.pre = .ok ev.post ∧
    RestsOn (requestGrounds dep.app c.principal c.request (actsOf i tr)
      fun ns owner => OwnerReadAt i tr ns owner ∧ owned ns owner) tx

section

variable {dep : Deployment ib} {st : Store ib} {start : Registry}
  {tr tr₁ tr₂ : List (RoutesEvent v)}
  {cfg : RoutesConfig v} {ev : RoutesEvent v}

/-- What a request has read of an owner, the registry held when it was read. -/
theorem OwnerRead.held (hrun : RoutesRun v dep st start tr cfg) {i : Nat} {ns : NamespaceIdent}
    {owner : Option Text} (hread : OwnerRead (actsOf i tr) ns owner) :
    OwnerReadAt i tr ns owner := by
  obtain ⟨record, hmem, howner⟩ := hread
  obtain ⟨ev, hev, hlabel⟩ := exists_of_mem_actsOf hmem
  refine ⟨ev, hev, record, hlabel, ?_, howner⟩
  rcases hrun.event_cases hev with ⟨q, hstart, -⟩ | ⟨j, e, r, hact, hsem⟩ | ⟨-, henv⟩
  · rw [hlabel] at hstart
    cases hstart
  · rw [hlabel] at hact
    cases hact
    rcases hsem.2 _ rfl with hfound | ⟨e, -, herror⟩
    · exact (Except.ok.inj hfound).symm
    · cases herror
  · exact henv.elim

/-- What changes the registry is a transaction that one of the requests commits. -/
theorem RoutesRun.committed (hrun : RoutesRun v dep st start tr cfg) (hev : ev ∈ tr)
    (hchanged : ev.post ≠ ev.pre) :
    ∃ i tx, ev.label = .act i (.catalog (.write tx)) (.ok ()) ∧ tx.apply ev.pre = .ok ev.post := by
  rcases hrun.event_cases hev with ⟨q, -, hpost⟩ | ⟨i, e, r, hlabel, hsem⟩ | ⟨-, henv⟩
  · exact absurd hpost hchanged
  · by_cases hreads : Reads e
    · exact absurd (serverSem_unchanged hsem hreads) hchanged
    · cases e with
      | catalog e =>
          cases e with
          | write tx =>
              rcases commits_cases hsem with ⟨rfl, happly⟩ | ⟨-, hpost⟩
              · exact ⟨i, tx, hlabel, happly⟩
              · exact absurd hpost hchanged
          | _ => exact absurd trivial hreads
      | _ => exact absurd trivial hreads
  · exact henv.elim

theorem RoutesRun.rests (hrun : RoutesRun v dep st start (tr₁ ++ ev :: tr₂) cfg) {i : Nat}
    {tx : Transaction} {r : Except Error Unit}
    (hlabel : ev.label = .act i (.catalog (.write tx)) r) :
    ∃ c rest, cfg.calls[i]? = some ⟨c, rest⟩ ∧
      RestsOn (requestGrounds dep.app c.principal c.request (actsOf i tr₁)
        (OwnerRead (actsOf i tr₁))) tx := by
  have hacts : actsOf i (tr₁ ++ ev :: tr₂) =
      actsOf i tr₁ ++ ⟨.catalog (.write tx), r⟩ :: actsOf i tr₂ := by
    rw [← List.singleton_append, actsOf_append, actsOf_append]
    simp [actsOf, hlabel]
  obtain ⟨call, hcall⟩ := hrun.call_of_mem (i := i) (x := ⟨.catalog (.write tx), r⟩)
    (by rw [hacts]; exact List.mem_append_right _ (List.mem_cons_self ..))
  have hfollows := hrun.follows (p := call.rest) hcall
  rw [hacts] at hfollows
  exact ⟨call.request, call.rest, hcall,
    (Caller.program_traced dep st call.request).issued hfollows tx rfl⟩

theorem requestGrounds_within {app : AppState} {principal : Principal} {request : RequestContext}
    {h : Seen d} {owned owned' : NamespaceIdent → Option Text → Prop}
    (hle : ∀ ns owner, owned ns owner → owned' ns owner) :
    (requestGrounds app principal request h owned).Within
      (requestGrounds app principal request h owned') where
  decided := by
    rintro ns target action ⟨owner, howned, happroved⟩
    exact ⟨owner, hle ns _ howned, happroved⟩
  root := fun _ happroved => happroved
  owner := fun ns properties howned => hle ns _ howned
  registered := fun _ hregistered => hregistered

theorem OwnerReadAt.owned {i : Nat} {ns : NamespaceIdent} {owner : Option Text}
    (hread : OwnerReadAt i tr ns owner) : ∃ ev ∈ tr, OwnedAt ev.pre ns owner := by
  obtain ⟨ev, hev, record, -, hheld, howner⟩ := hread
  exact ⟨ev, hev, record, hheld, howner⟩

/-- In every run, what changes the registry is a transaction of some request, and rests on
decisions that this request has made before, and recorded, each on an owner that it has itself
read, and that the registry held then. -/
theorem changes_authorized (v : ViewCrate d) (dep : Deployment ib) (st : Store ib)
    (start : Registry)
    (tr₁ tr₂ : List (RoutesEvent v)) (ev : RoutesEvent v) (cfg : RoutesConfig v)
    (hrun : RoutesRun v dep st start (tr₁ ++ ev :: tr₂) cfg) (hchanged : ev.post ≠ ev.pre) :
    AuthorizedChange dep cfg tr₁ (fun ns owner => ∃ ev' ∈ tr₁, OwnedAt ev'.pre ns owner) ev := by
  obtain ⟨i, tx, hlabel, happly⟩ := RoutesRun.committed hrun (by simp) hchanged
  obtain ⟨c, rest, hcall, hrests⟩ := RoutesRun.rests hrun hlabel
  obtain ⟨c₁, c₂, hrun₁, -, -, -⟩ := Run.reaches hrun
  exact ⟨i, c, rest, tx, hcall, hlabel, happly,
    hrests.mono (requestGrounds_within fun ns owner hread =>
      ⟨hread.held hrun₁, (hread.held hrun₁).owned⟩)⟩

/-- An owner stays through a transaction that drops no namespace: what is created is new, and an
update of the namespace writes its owner back. -/
theorem OwnedAt.apply {reg reg' : Registry} {tx : Transaction} {ns : NamespaceIdent}
    {owner : Option Text} (h : OwnedAt reg ns owner) (happly : tx.apply reg = .ok reg')
    (hkept : ∀ ns', tx ≠ .dropNamespace ns')
    (hupdate : ∀ ns' properties, tx = .updateNamespace ns' properties →
      namespaceKey ns' = namespaceKey ns → ownerOf properties = owner) :
    OwnedAt reg' ns owner := by
  obtain ⟨record, hrecord, howner⟩ := h
  rcases tx.namespaces_cases happly with ⟨ns', properties, -, hnew, hmap⟩ |
    ⟨ns', properties, rfl, hmap⟩ | ⟨ns', rfl⟩ | hmap
  · refine ⟨record, ?_, howner⟩
    rw [hmap, Relation.getElem?_insert, if_neg, hrecord]
    intro heq
    rw [heq] at hnew
    exact hnew (Relation.getElem?_ne_none_iff.mp (by rw [hrecord]; simp))
  · by_cases heq : namespaceKey ns' = namespaceKey ns
    · refine ⟨⟨ns', properties⟩, ?_, hupdate ns' properties rfl heq⟩
      rw [hmap, Relation.getElem?_insert, if_pos heq]
    · refine ⟨record, ?_, howner⟩
      rw [hmap, Relation.getElem?_insert, if_neg heq, hrecord]
  · exact absurd rfl (hkept ns')
  · exact ⟨record, by rw [hmap, hrecord], howner⟩

/-- An owner that a registry has held stays, while no namespace is dropped: what is created
is new, and an update writes the owner it has read. -/
theorem RoutesRun.owners_stay (hrun : RoutesRun v dep st start tr cfg)
    (hkept : ∀ ev ∈ tr, ∀ i ns,
      ev.label ≠ .act i (.catalog (.write (.dropNamespace ns))) (.ok ()))
    (hev : ev ∈ tr) {ns : NamespaceIdent} {owner : Option Text} (howned : OwnedAt ev.pre ns owner) :
    OwnedAt cfg.state ns owner := by
  induction hrun generalizing ev ns owner with
  | nil => cases hev
  | @snoc tr c c' l hr hs ih =>
      have hkept' : ∀ ev ∈ tr, ∀ i ns,
          ev.label ≠ .act i (.catalog (.write (.dropNamespace ns))) (.ok ()) :=
        fun ev hev => hkept ev (List.mem_append_left _ hev)
      suffices hstep : ∀ ns owner, OwnedAt c.state ns owner → OwnedAt c'.state ns owner by
        rcases List.mem_append.mp hev with hold | hlast
        · exact hstep _ _ (ih hkept' hold howned)
        · rw [List.mem_singleton.mp hlast] at howned
          exact hstep _ _ howned
      have hlast := hkept _ (List.mem_append_right _ (List.mem_singleton_self _))
      clear howned hev
      intro ns owner howned
      cases hs with
      | start q => exact howned
      | env s' henv => exact henv.elim
      | act i q e k r s' hi hsem =>
          by_cases hreads : Reads e
          · rw [serverSem_unchanged hsem hreads]
            exact howned
          cases e with
          | write event => exact absurd trivial hreads
          | vendCredentials asked => exact absurd trivial hreads
          | catalog e =>
              cases e with
              | write tx =>
                  rcases commits_cases hsem with ⟨rfl, happly⟩ | ⟨-, hsame⟩
                  · refine howned.apply happly (fun ns' htx => hlast i ns' (by rw [htx]))
                      fun ns' properties htx heq => ?_
                    -- the update writes back the owner it has read
                    subst htx
                    have hrests := (hr.traced hi (Caller.program_traced dep st q)).1 _ rfl
                    obtain ⟨ev', hev', hread⟩ := (OwnerRead.held hr hrests.2).owned
                    obtain ⟨record', hrecord', howner'⟩ := ih hkept' hev' hread
                    obtain ⟨record, hrecord, howner⟩ := howned
                    rw [heq, hrecord] at hrecord'
                    cases hrecord'
                    exact howner'.symm.trans howner
                  · rw [hsame]
                    exact howned
              | _ => exact absurd trivial hreads

/-- Where no namespace is dropped, each decision is about the owner that the registry holds at
the change itself. -/
theorem changes_current (v : ViewCrate d) (dep : Deployment ib) (st : Store ib) (start : Registry)
    (tr₁ tr₂ : List (RoutesEvent v)) (ev : RoutesEvent v) (cfg : RoutesConfig v)
    (hrun : RoutesRun v dep st start (tr₁ ++ ev :: tr₂) cfg) (hchanged : ev.post ≠ ev.pre)
    (hkept : ∀ ev' ∈ tr₁, ∀ i ns,
      ev'.label ≠ .act i (.catalog (.write (.dropNamespace ns))) (.ok ())) :
    AuthorizedChange dep cfg tr₁ (OwnedAt ev.pre) ev := by
  obtain ⟨i, tx, hlabel, happly⟩ := RoutesRun.committed hrun (by simp) hchanged
  obtain ⟨c, rest, hcall, hrests⟩ := RoutesRun.rests hrun hlabel
  obtain ⟨c₁, c₂, hrun₁, -, hpre, -⟩ := Run.reaches hrun
  refine ⟨i, c, rest, tx, hcall, hlabel, happly, hrests.mono (requestGrounds_within ?_)⟩
  intro ns owner hread
  obtain ⟨ev', hev', howned⟩ := (hread.held hrun₁).owned
  refine ⟨hread.held hrun₁, ?_⟩
  rw [hpre]
  exact RoutesRun.owners_stay hrun₁ hkept hev' howned

end

/-! ## A namespace made while its parent changes -/

/-- Gives `db` a property. -/
def describeDb : Caller plainViews :=
  ⟨lakeUser, ⟨none, none, []⟩, .updateNamespaceProperties ["db".toList]
    ⟨[], (∅ : Properties).insert "comment".toList "raw".toList⟩⟩

/-- Makes `db.raw`. -/
def nestRaw : Caller plainViews :=
  ⟨lakeUser, ⟨none, none, []⟩, .createNamespace none ⟨["db".toList, "raw".toList], none⟩⟩

/-- The run a schedule determines. -/
def routesRunOf (ms : List (Move (Caller plainViews))) :
    List (RoutesEvent plainViews) × RoutesConfig plainViews :=
  Config.moves (Caller.program lakeDeployment plainStore) tablesServer ⟨acmeTable, []⟩ ms

theorem routesRunOf_run (ms : List (Move (Caller plainViews))) :
    RoutesRun plainViews lakeDeployment plainStore acmeTable (routesRunOf ms).1
      (routesRunOf ms).2 :=
  Run.nil.moves (fun e reg => (tablesServer_sem e reg).1) ms

/-- `db` changes between the look at its owner, for `db.raw`, and the commit of `db.raw`. -/
def nested : List (RoutesEvent plainViews) × RoutesConfig plainViews :=
  routesRunOf [.start describeDb, .start nestRaw, .step 1, .step 0, .step 0, .step 0, .step 0,
    .step 1, .step 1]

theorem nested_ne : nested.1 ≠ [] := fun heq => absurd (congrArg List.length heq) (by decide)

def nesting : RoutesEvent plainViews := nested.1.getLast nested_ne

theorem nested_eq : nested.1 = nested.1.dropLast ++ nesting :: [] :=
  (List.dropLast_append_getLast nested_ne).symm

theorem nesting_changes : nesting.post ≠ nesting.pre := fun heq =>
  absurd (congrArg (fun reg : Registry =>
    reg.namespaces[namespaceKey ["db".toList, "raw".toList]]?.isSome) heq) (by decide)

theorem nested_run : RoutesRun plainViews lakeDeployment plainStore acmeTable
    (nested.1.dropLast ++ nesting :: []) nested.2 := by
  rw [← nested_eq]
  exact routesRunOf_run _

/-- Whether the event has changed the properties of `db`. -/
def describes (ev : RoutesEvent plainViews) : Bool :=
  match ev.label with
  | .act _ (.catalog (.write (.updateNamespace ns _))) (.ok ()) => ns == ["db".toList]
  | _ => false

theorem changes_authorized_nested : nested.1.dropLast.any describes = true ∧
    AuthorizedChange lakeDeployment nested.2 nested.1.dropLast
      (fun ns owner => ∃ ev ∈ nested.1.dropLast, OwnedAt ev.pre ns owner) nesting :=
  ⟨by decide, changes_authorized plainViews lakeDeployment plainStore acmeTable nested.1.dropLast []
    nesting nested.2 nested_run nesting_changes⟩

/-- Whether the event drops a namespace. -/
def dropsNamespace (ev : RoutesEvent plainViews) : Bool :=
  match ev.label with
  | .act _ (.catalog (.write (.dropNamespace _))) _ => true
  | _ => false

theorem changes_current_nested : nested.1.dropLast.any describes = true ∧
    AuthorizedChange lakeDeployment nested.2 nested.1.dropLast (OwnedAt nesting.pre) nesting := by
  have hnone : nested.1.dropLast.any dropsNamespace = false := by decide
  refine ⟨by decide, changes_current plainViews lakeDeployment plainStore acmeTable
    nested.1.dropLast [] nesting nested.2 nested_run nesting_changes fun ev hev i ns hlabel => ?_⟩
  have hdrops := List.any_eq_false.mp hnone ev hev
  rw [dropsNamespace, hlabel] at hdrops
  exact hdrops rfl

end Rustberg.V1
