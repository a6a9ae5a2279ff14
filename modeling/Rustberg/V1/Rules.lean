import Rustberg.Base.Result
import Rustberg.V1.Granted

/-!
# Rules for handlers

A handler is a sequence of checks, calls and decisions that ends at the
first that fails. Each rule here takes one of them off the front: `P` is
what every call of the handler has to meet, given what the request has
seen, and `Ends` what holds once it answers.
-/

namespace Rustberg.V1

open Process Auth Api

variable {ib : Iceberg} {d : Crates ib} {α β : Type}

/-- What holds when a handler answers; a refusal promises nothing. -/
def Ends (Q : Past d → α → Prop) (h : Past d) (r : Except Stop α) : Prop := ∀ a, r = .ok a → Q h a

/-- A rule on calls that spares what says nothing of a resource: the record of
a decision, the layout of the storage. -/
structure Spares (P : Past d → Call d → Prop) : Prop where
  record : ∀ h event, P h (.write event)
  warehouse : ∀ h ns, P h (.store (.warehouseFor ns))
  layout : ∀ h ns, P h (.store (.namespacePrefixFor ns))

section

variable {P : Past d → Call d → Prop} {Q : Past d → β → Prop} {h : Past d} {f : α → Served d β}

theorem Ends.ret {b : β} (hb : Q h b) : Prog.Traced P (Ends Q) h (pure b : Served d β).run := by
  intro b' hok
  cases hok
  exact hb

theorem Ends.fail (e : AppError) :
    Prog.Traced P (Ends Q) h (check (.error e) : Served d β).run := fun b hok => by cases hok

theorem Ends.bind {Q₁ : Past d → α → Prop} {p : Served d α}
    (hp : Prog.Traced P (Ends Q₁) h p.run)
    (hf : ∀ h' a, Q₁ h' a → Prog.Traced P (Ends Q) h' (f a).run) :
    Prog.Traced P (Ends Q) h (p >>= f).run :=
  Prog.Traced.bind_except hp (fun _ _ _ _ hok => by cases hok) fun h' a hQ => hf h' a (hQ a rfl)

/-- As `Ends.bind`, and what has been seen before stays seen. -/
theorem Ends.after {Q₁ : Past d → α → Prop} {p : Served d α}
    (hp : Prog.Traced P (Ends Q₁) h p.run)
    (hf : ∀ h' a, h <+: h' → Q₁ h' a → Prog.Traced P (Ends Q) h' (f a).run) :
    Prog.Traced P (Ends Q) h (p >>= f).run :=
  Prog.Traced.bind_except hp.extends (fun _ _ _ _ hok => by cases hok) fun h' a hQ =>
    hf h' a hQ.1 (hQ.2 a rfl)

theorem Ends.mono {Q' : Past d → β → Prop} {p : Served d β} (hp : Prog.Traced P (Ends Q) h p.run)
    (hQ : ∀ h' b, Q h' b → Q' h' b) : Prog.Traced P (Ends Q') h p.run :=
  Prog.Traced.mono hp (fun _ _ hP => hP) fun h' _ hend b hok => hQ h' b (hend b hok)

theorem Ends.checked {r : Except AppError α}
    (hf : ∀ a, r = .ok a → Prog.Traced P (Ends Q) h (f a).run) :
    Prog.Traced P (Ends Q) h (check r >>= f).run := by
  cases r with
  | ok a => exact hf a rfl
  | error e => exact fun b hok => by cases hok

theorem Ends.called {c : StoreCall ib} {f : c.Payload → Served d β} (hc : P h (.store c))
    (hf : ∀ a, Prog.Traced P (Ends Q) (h ++ [⟨.store c, .ok a⟩]) (f a).run) :
    Prog.Traced P (Ends Q) h (call c >>= f).run :=
  ⟨hc, fun
    | .ok a => hf a
    | .error e => fun b hok => by cases hok⟩

theorem Ends.mapped {g : α → β} {Q₁ : Past d → α → Prop} {p : Served d α}
    (hp : Prog.Traced P (Ends Q₁) h p.run) (hQ : ∀ h' a, Q₁ h' a → Q h' (g a)) :
    Prog.Traced P (Ends Q) h (g <$> p).run := by
  rw [map_eq_pure_bind]
  exact Ends.bind hp fun h' a ha => Ends.ret (hQ h' a ha)

theorem Ends.attempted {c : StoreCall ib} {f : c.Answer → Served d β} (hc : P h (.store c))
    (hf : ∀ r, Prog.Traced P (Ends Q) (h ++ [⟨.store c, r⟩]) (f r).run) :
    Prog.Traced P (Ends Q) h (attempt c >>= f).run := ⟨hc, fun r => hf r⟩

end

section

variable {P : Past d → Call d → Prop} {Q : Past d → β → Prop} {h : Past d}

/-- The guard, and what it has seen when it lets a request through. -/
theorem Ends.authorized (hP : Spares P) {app : AppState} {principal : Principal}
    {request : RequestContext} {ns : NamespaceIdent} {target : Target} {action : Auth.Action}
    {f : Authorized → Served d β} (hread : P h (.store (.getNamespace ns)))
    (hf : ∀ h' authorized, h <+: h' →
      Granted app principal request ns target action h' authorized →
        Prog.Traced P (Ends Q) h' (f authorized).run) :
    Prog.Traced P (Ends Q) h (authorize app principal request ns target action >>= f).run :=
  Ends.after (authorize_traced hread hP.record principal request target action) hf

end

/-- Since `h` no namespace has been looked at. -/
def Unlooked (h h' : Past d) : Prop :=
  h <+: h' ∧ ∀ ns answer, ⟨.store (.getNamespace ns), answer⟩ ∈ h' →
    ⟨.store (.getNamespace ns), answer⟩ ∈ h

theorem Unlooked.trans {h h' h'' : Past d} (hle : Unlooked h h') (hle' : Unlooked h' h'') :
    Unlooked h h'' :=
  ⟨hle.1.trans hle'.1, fun ns answer hmem => hle.2 ns answer (hle'.2 ns answer hmem)⟩

theorem Unlooked.snoc (h : Past d) {c : Call d} (hc : ∀ ns, c ≠ .store (.getNamespace ns))
    (r : c.Answer) : Unlooked h (h ++ [⟨c, r⟩]) := by
  refine ⟨List.prefix_append .., fun ns answer hmem => ?_⟩
  rcases List.mem_append.mp hmem with hold | hnew
  · exact hold
  · cases List.mem_singleton.mp hnew
    exact absurd rfl (hc ns)

variable {P : Past d → Call d → Prop} {h : Past d} {app : AppState}

theorem record_ends (hP : Spares P) (event : Event) :
    Prog.Traced P (Ends fun h' r => r = .ok () → app.failClosed = true →
        ⟨.write event, .ok ()⟩ ∈ h') h
      (app.record event : Served d _).run :=
  Prog.Traced.mono (record_traced hP.record event h) (fun _ _ hc => hc)
    fun _ _ hrecorded r hok haccepted => hrecorded (by rw [hok, haccepted])

theorem recordLossy_ends (hP : Spares P) (event : Event) :
    Prog.Traced P (Ends fun _ _ => True) h (AppState.recordLossy event : Served d _).run :=
  ⟨hP.record h event, fun _ _ _ => trivial⟩

/-- A decision that is recorded, and was a permit where it is acted on. -/
theorem recordDecision_ends (hP : Spares P) (context : AuthzContext) :
    Prog.Traced P (Ends fun h' _ => Recorded app context h') h
      (recordDecision app context (app.authorizer.decide context) : Served d Unit).run :=
  Prog.Traced.mono (recordDecision_traced hP.record context h) (fun _ _ hc => hc)
    fun _ _ hrecorded v hok => hrecorded (by rw [hok])

theorem isAllowed_of_authorizeContext {context context' : AuthzContext}
    (h : Api.authorizeContext app.deciding context = .ok context') :
    (app.authorizer.decide context).isAllowed = true := by
  unfold Api.authorizeContext at h
  obtain ⟨_, -, h⟩ := Except.bind_eq_ok.mp h
  rw [AuthzOutcome.isAllowed]
  cases hdecision : (app.authorizer.decide context).decision with
  | allow => rfl
  | deny reason =>
      have hdecision' : (app.deciding.authorizer.decide context).decision = .deny reason :=
        hdecision
      rw [hdecision'] at h
      cases h

/-- A prepared context is let through on a permit, recorded. -/
theorem authorizeContext_ends (hP : Spares P) (context : AuthzContext) :
    Prog.Traced P (Ends fun h' _ => (app.authorizer.decide context).isAllowed = true ∧
        Recorded app context h') h
      (authorizeContext app context : Served d AuthzContext).run := by
  refine Ends.bind (recordDecision_ends hP context) fun h' _ hrecorded a hok => ⟨?_, hrecorded⟩
  exact isAllowed_of_authorizeContext (mapError_eq_ok hok)

theorem alsoPermits_ends (hP : Spares P) (authorized : Authorized) (action : Auth.Action) :
    Prog.Traced P (Ends fun h' allowed =>
        allowed = (app.authorizer.decide (authorized.context.forAction action)).isAllowed ∧
          Recorded app (authorized.context.forAction action) h') h
      (alsoPermits app authorized action : Served d Bool).run :=
  Ends.bind (recordDecision_ends hP _) fun _ _ hrecorded => Ends.ret ⟨rfl, hrecorded⟩

theorem warehouseFor_ends (hP : Spares P) (ns : NamespaceIdent) :
    Prog.Traced P (Ends fun h' _ => Unlooked h h') h (app.warehouseFor ns : Served d Text).run :=
  Ends.attempted (hP.warehouse h ns) fun r => by
    have hunlooked := Unlooked.snoc h (c := .store (.warehouseFor ns)) nofun r
    cases r with
    | ok warehouse => cases warehouse <;> exact Ends.ret hunlooked
    | error e => exact Ends.ret hunlooked

theorem locationBound_ends (hP : Spares P) (ns : NamespaceIdent) (name : Text) :
    Prog.Traced P (Ends fun h' _ => Unlooked h h') h
      (app.locationBound ns name : Served d LocationBound).run :=
  Ends.bind (warehouseFor_ends hP ns) fun h' _ hle => Ends.attempted (hP.layout h' ns) fun r => by
    have hunlooked := hle.trans (Unlooked.snoc h' (c := .store (.namespacePrefixFor ns)) nofun r)
    cases r with
    | ok layout => cases layout <;> exact Ends.ret hunlooked
    | error e => exact Ends.ret hunlooked

theorem managesStorageFor_ends (hP : Spares P) (ns : NamespaceIdent) (location : Text) :
    Prog.Traced P (Ends fun h' managed => managed = true → ∃ warehouse,
        ⟨.store (.warehouseFor ns), .ok (some warehouse)⟩ ∈ h' ∧
          isWithin warehouse location = true) h
      (AppState.managesStorageFor ns location : Served d Bool).run :=
  Ends.attempted (hP.warehouse h ns) fun r => by
    cases r with
    | ok warehouse =>
        cases warehouse with
        | some warehouse =>
            exact Ends.ret fun hwithin =>
              ⟨warehouse, List.mem_append_right _ (List.mem_singleton_self _), hwithin⟩
        | none => exact Ends.ret fun hfalse => by cases hfalse
    | error e => exact Ends.ret fun hfalse => by cases hfalse

theorem call_ends {c : StoreCall ib} (hc : P h (.store c)) :
    Prog.Traced P (Ends fun h' a =>
      ⟨.store c, .ok a⟩ ∈ h') h (call c : Served d c.Payload).run := by
  refine ⟨hc, fun r a hok => ?_⟩
  rw [mapError_eq_ok hok]
  exact List.mem_append_right _ (List.mem_singleton_self _)

/-- A request answered call by call has followed a path. -/
theorem follows_answered (answer : (e : Call d) → e.Answer) (p : Prog (Call d) Call.Answer α) :
    ∃ h, Prog.Follows p h (.done (p.run (fun e s => (answer e, s)) ()).1) := by
  have hexec : Prog.Exec (fun _ _ _ _ => True) p () (p.run (fun e s => (answer e, s)) ()).1 () :=
    Prog.exec_run (fun _ _ => trivial) p ()
  obtain ⟨history, hfollows, -⟩ := hexec
  exact ⟨history, hfollows⟩

/-! ## Filtered pages -/

section Pages

variable {b64 : Base64} {visible : α → Served d (Bool × α)} {R S : Past d → α → Prop} {h₀ : Past d}

/-- The items a batch has led to. -/
def keptItems : Except (FilteredPage α) (Option Text × List α) → List α
  | .error full => full.items
  | .ok (_, kept) => kept

/-- What is kept has been a row, and found visible. -/
theorem examine_ends (hR : ∀ {h h' a}, h <+: h' → R h a → R h' a)
    (hS : ∀ {h h' a}, h <+: h' → S h a → S h' a)
    (hvisible : ∀ h item, R h item →
      Prog.Traced P (Ends fun h' r => r.1 = true → S h' r.2) h (visible item).run)
    (limit : Nat) (exhausted : Bool) (entries : List (Entry α)) (cursor : Option Text)
    (kept : List α) (hrows : ∀ entry ∈ entries, R h entry.item) (hkept : ∀ a ∈ kept, S h a) :
    Prog.Traced P (Ends fun h' r => ∀ a ∈ keptItems r, S h' a) h
      (examine b64 visible limit exhausted entries cursor kept).run := by
  induction entries generalizing cursor kept h with
  | nil => exact Ends.ret hkept
  | cons entry entries ih =>
      obtain ⟨hrow, hrows⟩ := List.forall_mem_cons.mp hrows
      refine Ends.after (hvisible h entry.item hrow) fun h' r hle' hr => ?_
      obtain ⟨keep, item⟩ := r
      have hrows' : ∀ entry ∈ entries, R h' entry.item := fun e he => hR hle' (hrows e he)
      have hkept' : ∀ a ∈ kept, S h' a := fun a ha => hS hle' (hkept a ha)
      cases keep with
      | false => exact ih _ _ hrows' hkept'
      | true =>
          have hmore : ∀ a ∈ kept ++ [item], S h' a := by
            intro a ha
            rcases List.mem_append.mp ha with ha | ha
            · exact hkept' a ha
            · rw [List.mem_singleton.mp ha]
              exact hr rfl
          dsimp only
          rw [if_pos rfl]
          split
          · exact Ends.ret hmore
          · exact ih _ _ hrows' hmore

theorem collectLoop_ends (hR : ∀ {h h' a}, h <+: h' → R h a → R h' a)
    (hS : ∀ {h h' a}, h <+: h' → S h a → S h' a)
    (hvisible : ∀ h item, R h item →
      Prog.Traced P (Ends fun h' r => r.1 = true → S h' r.2) h (visible item).run)
    {fetch : PageRequest → Served d (Page α)}
    (hfetch : ∀ h page, h₀ <+: h →
      Prog.Traced P (Ends fun h' fetched => ∀ entry ∈ fetched.entries, R h' entry.item) h
        (fetch page).run)
    (request : PageRequest) (fetches : Nat) (cursor : Option Text) (kept : List α) (scanned : Nat)
    (hle : h₀ <+: h) (hkept : ∀ a ∈ kept, S h a) :
    Prog.Traced P (Ends fun h' page => ∀ a ∈ page.items, S h' a) h
      (collectLoop b64 visible fetch request fetches cursor kept scanned).run := by
  induction fetches generalizing cursor kept scanned h with
  | zero => exact Ends.ret hkept
  | succ fetches ih =>
      refine Ends.after (hfetch h _ hle) fun h₁ page hle₁ hrows => ?_
      refine Ends.after (examine_ends (R := R) (S := S) hR hS hvisible _ _ page.entries
        cursor kept hrows
        fun a ha => hS hle₁ (hkept a ha)) fun h₂ r hle₂ hr => ?_
      have hle' := (hle.trans hle₁).trans hle₂
      rcases r with full | ⟨cursor', kept'⟩
      · exact Ends.ret hr
      · dsimp only
        split
        · exact Ends.ret hr
        · split
          · exact Ends.ret hr
          · split
            · exact Ends.ret hr
            · exact ih _ _ _ hle' hr

/-- A page shows rows that have been fetched and found visible. -/
theorem collectPage_ends (hR : ∀ {h h' a}, h <+: h' → R h a → R h' a)
    (hS : ∀ {h h' a}, h <+: h' → S h a → S h' a)
    (hvisible : ∀ h item, R h item →
      Prog.Traced P (Ends fun h' r => r.1 = true → S h' r.2) h (visible item).run)
    {fetch : PageRequest → Served d (Page α)}
    (hfetch : ∀ h page, h₀ <+: h →
      Prog.Traced P (Ends fun h' fetched => ∀ entry ∈ fetched.entries, R h' entry.item) h
        (fetch page).run)
    (request : PageRequest) :
    Prog.Traced P (Ends fun h' page => ∀ a ∈ page.items, S h' a) h₀
      (collectPage b64 visible fetch request).run :=
  collectLoop_ends (R := R) (S := S) hR hS hvisible hfetch request maxFetches request.after
    [] 0 List.prefix_rfl
    fun _ ha => absurd ha List.not_mem_nil

end Pages

end Rustberg.V1
