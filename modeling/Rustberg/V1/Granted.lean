import Rustberg.V1.Tables

/-!
# What the guard has seen

`Granted` is what holds once the guard lets a request through: the owner
was read, the decision was a permit, and a mutation's record was accepted.
It is a property of the history of the request, so what a handler does
later may rest on it (`authorize_traced`).
-/

namespace Rustberg.V1

open Process Auth Api

variable {ib : Iceberg} {d : Crates ib}

/-- What a request has asked of its surroundings, with the answers. -/
abbrev Past (d : Crates ib) := Prog.History (Call d) Call.Answer

/-! ## The decision -/

section

variable {app : AppState} {principal : Principal} {request : RequestContext} {ns : NamespaceIdent}
  {target : Target} {action : Auth.Action} {owner : Text}

/-- A denial, as it is answered. -/
def denial (app : AppState) (context : AuthzContext) (ns : NamespaceIdent) (target : Target) :
    AppError :=
  if (if context.action = .read then false
    else app.authorizer.permits (context.forAction .read)) then
    .forbidden ("Not permitted to ".toList ++ context.action.display ++ [' '] ++ target.describe ns)
  else target.notFound ns

/-- Once recorded, the answer is the decision. -/
theorem decideOn_deciding :
    decideOn app.deciding principal request ns target action owner =
      let context : AuthzContext := ⟨principal, target.resource owner ns, action, request⟩
      if (app.authorizer.decide context).isAllowed then
        .ok ⟨owner, (app.authorizer.decide context).obligations, context⟩
      else .error (denial app context ns target) := by
  have hrecord : ∀ context outcome, Api.recordDecision app.deciding context outcome = .ok () := by
    intro context outcome
    unfold Api.recordDecision
    split <;> rfl
  unfold decideOn
  simp only [hrecord]
  change (if _ then _ else _) = _
  cases hallowed : (app.authorizer.decide ⟨principal, target.resource owner ns, action,
      request⟩).isAllowed with
  | true =>
      have hallowed' : (app.deciding.authorizer.decide ⟨principal, target.resource owner ns,
          action, request⟩).isAllowed = true := hallowed
      rw [hallowed']
      rfl
  | false =>
      have hallowed' : (app.deciding.authorizer.decide ⟨principal, target.resource owner ns,
          action, request⟩).isAllowed = false := hallowed
      rw [hallowed', Bool.not_false, if_pos rfl, if_neg Bool.false_ne_true, denial]
      exact (apply_ite Except.error _ _ _).symm

end

/-! ## The record -/

variable {P : Past d → Call d → Prop} {app : AppState}

/-- Where lost records refuse mutations, a permitted mutation's has been accepted. -/
def Recorded (app : AppState) (context : AuthzContext) (h : Past d) : Prop :=
  isMutating context.action = true → (app.authorizer.decide context).isAllowed = true →
    app.failClosed = true →
      ⟨.write (.decision (auditEvent app.deciding context (app.authorizer.decide context))),
        .ok ()⟩ ∈ h

theorem record_traced (hwrite : ∀ h event, P h (.write event)) (event : Event) (h : Past d) :
    Prog.Traced P (fun h' r => r = .ok (.ok ()) → app.failClosed = true →
      ⟨.write event, .ok ()⟩ ∈ h') h (app.record event : Served d _).run := by
  refine ⟨hwrite h event, fun r => ?_⟩
  cases r with
  | ok v =>
      intro _ _
      exact List.mem_append_right h (List.mem_singleton_self _)
  | error e =>
      intro hok hclosed
      rw [hclosed] at hok
      cases hok

theorem recordDecision_traced (hwrite : ∀ h event, P h (.write event)) (context : AuthzContext)
    (h : Past d) :
    Prog.Traced P (fun h' r => r = .ok () → Recorded app context h') h
      (recordDecision app context (app.authorizer.decide context) : Served d Unit).run := by
  unfold recordDecision
  cases hmutation : isMutating context.action && (app.authorizer.decide context).isAllowed with
  | true =>
      refine Prog.Traced.bind_except (record_traced hwrite _ h) (fun h' e _ hok => by cases hok)
        fun h' r hrecord => ?_
      cases r with
      | ok v => exact fun _ _ _ => hrecord rfl
      | error e => exact fun hok => by cases hok
  | false =>
      refine ⟨hwrite h _, fun r _ hmutating hallowed => ?_⟩
      rw [hmutating, hallowed] at hmutation
      cases hmutation

/-! ## The grant -/

/-- What a request let through has seen. -/
structure Granted (app : AppState) (principal : Principal) (request : RequestContext)
    (ns : NamespaceIdent) (target : Target) (action : Auth.Action) (h : Past d)
    (authorized : Authorized) : Prop where
  owner : ∃ namespc : Namespace, ⟨.store (.getNamespace ns), .ok namespc⟩ ∈ h ∧
    ownerOf namespc.properties = some authorized.owner
  context : authorized.context = ⟨principal, target.resource authorized.owner ns, action, request⟩
  allowed : (app.authorizer.decide authorized.context).isAllowed = true
  obligations : authorized.obligations = (app.authorizer.decide authorized.context).obligations
  recorded : Recorded app authorized.context h

theorem Granted.mono {principal : Principal} {request : RequestContext} {ns : NamespaceIdent}
    {target : Target} {action : Auth.Action} {h h' : Past d} {authorized : Authorized}
    (hgranted : Granted app principal request ns target action h authorized) (hle : h <+: h') :
    Granted app principal request ns target action h' authorized := by
  obtain ⟨⟨namespc, hread, howner⟩, hcontext, hallowed, hobligations, hrecorded⟩ := hgranted
  exact ⟨⟨namespc, hle.subset hread, howner⟩, hcontext, hallowed, hobligations,
    fun hmutating hpermit hclosed => hle.subset (hrecorded hmutating hpermit hclosed)⟩

theorem ownerIn_eq_some {answer : Except Error Properties} {owner : Text}
    (h : ownerIn answer = .ok (some owner)) :
    ∃ properties, answer = .ok properties ∧ ownerOf properties = some owner := by
  cases answer with
  | ok properties => exact ⟨properties, rfl, Except.ok.inj h⟩
  | error e =>
      rw [ownerIn] at h
      split at h <;> cases h

/-- A pure step that went through. -/
theorem mapError_eq_ok {ε ε' α : Type} {f : ε → ε'} {r : Except ε α} {a : α}
    (h : r.mapError f = .ok a) : r = .ok a := by
  cases r with
  | ok b =>
      cases h
      rfl
  | error e => cases h

theorem resolveOwner_traced {ns : NamespaceIdent} {h : Past d}
    (hread : P h (.store (.getNamespace ns))) :
    Prog.Traced P (fun h' r => ∀ owner, r = .ok (some owner) →
        ∃ namespc : Namespace, ⟨.store (.getNamespace ns), .ok namespc⟩ ∈ h' ∧
          ownerOf namespc.properties = some owner) h
      (resolveOwner ns : Served d _).run := by
  refine ⟨hread, fun answer owner howner => ?_⟩
  obtain ⟨properties, hanswer, hproperties⟩ := ownerIn_eq_some (mapError_eq_ok howner)
  cases answer with
  | error e => cases hanswer
  | ok namespc =>
      cases hanswer
      exact ⟨namespc, List.mem_append_right h (List.mem_singleton_self _), hproperties⟩

theorem authorize_traced {ns : NamespaceIdent} {h : Past d}
    (hread : P h (.store (.getNamespace ns))) (hwrite : ∀ h event, P h (.write event))
    (principal : Principal) (request : RequestContext) (target : Target) (action : Auth.Action) :
    Prog.Traced P (fun h' r => ∀ authorized, r = .ok authorized →
        Granted app principal request ns target action h' authorized) h
      (authorize app principal request ns target action : Served d Authorized).run := by
  refine Prog.Traced.bind_except (resolveOwner_traced hread)
    (fun h' e _ authorized hok => by cases hok) fun h' owner hseen => ?_
  cases owner with
  | none => exact fun authorized hok => by cases hok
  | some owner =>
      refine Prog.Traced.bind_except (recordDecision_traced hwrite _ h').extends
        (fun h'' e _ authorized hok => by cases hok) fun h'' v hrecorded authorized hok => ?_
      obtain ⟨hle, hrecorded⟩ := hrecorded
      have hdecided := mapError_eq_ok hok
      rw [decideOn_deciding] at hdecided
      dsimp only at hdecided
      split at hdecided
      · next hallowed =>
          cases hdecided
          obtain ⟨namespc, hmem, howner⟩ := hseen owner rfl
          exact ⟨⟨namespc, hle.subset hmem, howner⟩, rfl, hallowed, rfl, hrecorded rfl⟩
      · cases hdecided

end Rustberg.V1
