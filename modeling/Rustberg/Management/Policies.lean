import Rustberg.Api.Guard

/-!
# Changing policy while it is enforced

The policy set is an append-only log of revisions (`auth/policy_store.rs`).
A request appends one, records it and installs it (`apply` of
`management/policies.rs`), and a poller on every replica installs the newest
one it finds (`auth/reloadable.rs`). Both are programs over the log, the
audit sink and what each replica has loaded, and interleave freely.

Compiling a policy set is `CedarAuthorizer::new`, a parameter. A replica's
authorizer and the sequence it is known by lie behind two locks, so `swap`
is two steps.
-/

namespace Rustberg.Management

open Process Auth

/-- One revision of the policy set. When it was written is not modelled. -/
structure PolicyRevision where
  /-- Position in the log. -/
  sequence : Nat
  /-- Content hash of `source`. -/
  version : Text
  /-- The Cedar policy text. -/
  source : Text
  author : Text
  note : Option Text
  deriving DecidableEq

/-- `CedarAuthorizer::new` and `version_of`. -/
structure Cedar where
  compile : Text → Except Text Authorizer
  versionOf : Text → Text

/-- An authorizer, and the text it was built from. -/
structure Loaded (cedar : Cedar) where
  source : Text
  authorizer : Authorizer
  built : cedar.compile source = .ok authorizer

variable {cedar : Cedar}

/-! ## Effects -/

/-- A line of the audit trail: a decision, or a policy set about to be installed
with its `policy_sequence` and `policy_version`. -/
inductive Line where
  | decision (event : Api.AuditEvent)
  | policySet (event : Api.AuditEvent) (details : List (Text × Text))

/-- What policy requests and pollers do. Replicas are numbered. -/
inductive Effect (cedar : Cedar) where
  /-- `ReloadableAuthorizer::snapshot` -/
  | snapshot (replica : Nat)
  | loadedSequence (replica : Nat)
  /-- The two writes of `swap`. The first one's `sequence` is not written: it says
  which revision the authorizer is. -/
  | setCurrent (replica : Nat) (loaded : Loaded cedar) (sequence : Nat)
  | setSequence (replica : Nat) (sequence : Nat)
  /-- The calls of `PolicyStore`. -/
  | current
  | append (source author : Text) (note : Option Text)
  | get (sequence : Nat)
  /-- `AuditSink::write` -/
  | write (line : Line)

abbrev Effect.Answer : Effect cedar → Type
  | .snapshot _ => Loaded cedar
  | .loadedSequence _ => Nat
  | .setCurrent .. => Unit
  | .setSequence .. => Unit
  | .current => Except AppError (Option PolicyRevision)
  | .append .. => Except AppError PolicyRevision
  | .get _ => Except AppError (Option PolicyRevision)
  | .write _ => Except Text Unit

abbrev Past (cedar : Cedar) := Prog.History (Effect cedar) Effect.Answer

abbrev Handler (cedar : Cedar) (α : Type) := ExceptT AppError (Prog (Effect cedar) Effect.Answer) α

def check {α : Type} (r : Except AppError α) : Handler cedar α := ExceptT.mk (.done r)

/-- `Auditor::record`: whether a mutating request may proceed. -/
def record (failClosed : Bool) (line : Line) (refusal : AppError) : Handler cedar Unit :=
  ExceptT.mk (.perform (.write line) fun
    | .ok () => .done (.ok ())
    | .error _ => .done (if failClosed then .error refusal else .ok ()))

/-- `Auditor::record_lossy` -/
def recordLossy (line : Line) : Handler cedar Unit :=
  ExceptT.mk (.perform (.write line) fun _ => .done (.ok ()))

/-! ## Installing -/

/-- `ReloadableAuthorizer::swap`: two writes, each under its own lock. -/
def swap (replica : Nat) (loaded : Loaded cedar) (sequence : Nat) :
    Prog (Effect cedar) Effect.Answer Unit :=
  .perform (.setCurrent replica loaded sequence) fun _ =>
    .perform (.setSequence replica sequence) .done

def load (cedar : Cedar) (source : Text) : Except Text (Loaded cedar) :=
  match h : cedar.compile source with
  | .ok authorizer => .ok ⟨source, authorizer, h⟩
  | .error e => .error e

/-- One round of the poller. What it cannot read or compile it leaves alone. -/
def tick (cedar : Cedar) (replica : Nat) : Prog (Effect cedar) Effect.Answer Unit :=
  .perform .current fun
    | .error _ => .done ()
    | .ok none => .done ()
    | .ok (some current) =>
        .perform (.loadedSequence replica) fun loaded =>
          if current.sequence ≤ loaded then .done ()
          else match load cedar current.source with
          | .ok next => swap replica next current.sequence
          | .error _ => .done ()

/-! ## Requests -/

/-- Who asks, and how. -/
structure Caller where
  principal : Principal
  request : RequestContext

/-- The decision both requests need. -/
def Caller.manage (caller : Caller) : AuthzContext :=
  ⟨caller.principal, Resource.policySet caller.principal.tenantId, .manage, caller.request⟩

/-- A decision's line, under the version of the policy set in force when it is written. -/
def decisionLine (context : AuthzContext) (outcome : AuthzOutcome)
    (inForce : Loaded cedar) : Line :=
  .decision (Api.auditEvent ⟨inForce.authorizer, fun _ => .ok ()⟩ context outcome)

/-- `guard::authorize_new` for `Manage`: decided, recorded, and a denial a `403`. -/
def authorizeManage (failClosed : Bool) (replica : Nat) (caller : Caller) : Handler cedar Unit :=
  ExceptT.mk (.perform (.snapshot replica) fun loaded =>
    let outcome := loaded.authorizer.decide caller.manage
    .perform (.snapshot replica) fun inForce =>
      let line := decisionLine caller.manage outcome inForce
      match outcome.decision with
      | .allow => (record failClosed line (.serviceUnavailable
          "The audit trail is unavailable, so this change was not made.".toList)).run
      | .deny reason => (do
          recordLossy line
          check (.error (.forbidden reason)) : Handler cedar Unit).run)

/-- The line that says which revision a request is about to install. -/
def installLine (caller : Caller) (revision : PolicyRevision) : Line :=
  .policySet
    { operation := "Manage".toList
      resourceType := "policy_set".toList
      resource := caller.principal.tenantId
      allowed := true
      principalId := caller.principal.id
      principalType := caller.principal.principalType
      tenantId := caller.principal.tenantId
      clientIp := caller.request.sourceIp
      requestId := caller.request.requestId
      referencedBy := []
      matchedPolicies := []
      policySetVersion := none }
    [("policy_sequence".toList, Text.decimal revision.sequence),
      ("policy_version".toList, revision.version)]

/-- The answer to a request whose revision was appended and not installed. -/
def notInForce : AppError :=
  .serviceUnavailable ("The audit trail is unavailable, so this policy set was recorded but not " ++
    "put into force. Retry once auditing is working; the revision is already in the " ++
    "history.").toList

/-- The submitted set must compile, and must leave its author able to change policy. -/
def candidate (cedar : Cedar) (caller : Caller) (source : Text) : Except AppError (Loaded cedar) :=
  match load cedar source with
  | .error e => .error (.badRequest ("The submitted policy set is not usable: ".toList ++ e))
  | .ok loaded =>
      if loaded.authorizer.permits caller.manage then .ok loaded
      else .error (.badRequest ("Refused: under the submitted policy set you would no longer be " ++
        "permitted to change policy, and could not undo this. Include a rule granting yourself " ++
        "'Manage' on the policy set, or make the change through a different " ++
        "administrator.").toList)

def append (source author : Text) (note : Option Text) : Handler cedar PolicyRevision :=
  ExceptT.mk (.perform (.append source author note) .done)

def install (replica : Nat) (loaded : Loaded cedar) (revision : PolicyRevision) :
    Handler cedar PolicyRevision :=
  ExceptT.mk (swap replica loaded revision.sequence >>= fun _ => .done (.ok revision))

/-- Validated, appended, recorded, and only then installed. -/
def apply (failClosed : Bool) (replica : Nat) (caller : Caller) (source : Text)
    (note : Option Text) :
    Handler cedar PolicyRevision := do
  let loaded ← check (candidate cedar caller source)
  let revision ← append source caller.principal.id note
  record failClosed (installLine caller revision) notInForce
  install replica loaded revision

def updatePolicies (failClosed : Bool) (replica : Nat) (caller : Caller) (source : Text)
    (note : Option Text) : Handler cedar PolicyRevision := do
  authorizeManage failClosed replica caller
  apply failClosed replica caller source note

/-- The revision a rollback names. -/
def target (sequence : Nat) : Option PolicyRevision → Except AppError PolicyRevision
  | some revision => .ok revision
  | none => .error (.noSuchReference ("No policy revision ".toList ++ Text.decimal sequence ++
      ". Use GET /management/v1/policies/history to see which revisions exist.".toList))

def get (sequence : Nat) : Handler cedar (Option PolicyRevision) :=
  ExceptT.mk (.perform (.get sequence) .done)

/-- A rollback appends what it restores: the log is never rewound. -/
def rollbackPolicies (failClosed : Bool) (replica : Nat) (caller : Caller) (sequence : Nat)
    (note : Option Text) : Handler cedar PolicyRevision := do
  authorizeManage failClosed replica caller
  let found ← get sequence
  let revision ← check (target sequence found)
  apply failClosed replica caller revision.source
    (some (note.getD ("Rollback to revision ".toList ++ Text.decimal sequence)))

/-! ## Runs -/

/-- What runs on a replica. -/
inductive Request where
  | update (replica : Nat) (caller : Caller) (source : Text) (note : Option Text)
  | rollback (replica : Nat) (caller : Caller) (sequence : Nat) (note : Option Text)
  | tick (replica : Nat)

/-- What a request is answered with; a tick answers nobody. -/
abbrev Result := Except AppError (Option PolicyRevision)

def answer (handler : Handler cedar PolicyRevision) : Prog (Effect cedar) Effect.Answer Result :=
  handler.run >>= fun r => .done (r.map some)

def Request.serve (cedar : Cedar) (failClosed : Bool) :
    Request → Prog (Effect cedar) Effect.Answer Result
  | .update replica caller source note =>
      answer (updatePolicies failClosed replica caller source note)
  | .rollback replica caller sequence note =>
      answer (rollbackPolicies failClosed replica caller sequence note)
  | .tick replica => Management.tick cedar replica >>= fun _ => .done (.ok none)

/-- What a replica has loaded. `installed` is the revision that `current` is, and
nobody reads it. -/
structure Replica (cedar : Cedar) where
  current : Loaded cedar
  installed : Nat
  sequence : Nat

/-- The log, oldest revision first, the lines the sink has accepted, and the replicas. -/
structure System (cedar : Cedar) where
  log : List PolicyRevision
  trail : List Line
  replicas : Nat → Replica cedar

namespace System

/-- The sequence of the newest revision, 0 before there is one. -/
def newest (s : System cedar) : Nat := (s.log.getLast?.map (·.sequence)).getD 0

/-- The revision an append makes of its arguments. -/
def next (s : System cedar) (source author : Text) (note : Option Text) : PolicyRevision :=
  ⟨s.newest + 1, cedar.versionOf source, source, author, note⟩

def setReplica (s : System cedar) (replica : Nat) (loaded : Replica cedar) : System cedar :=
  { s with replicas := fun i => if i = replica then loaded else s.replicas i }

@[simp] theorem setReplica_log (s : System cedar) (replica : Nat) (loaded : Replica cedar) :
    (s.setReplica replica loaded).log = s.log := rfl

@[simp] theorem setReplica_trail (s : System cedar) (replica : Nat) (loaded : Replica cedar) :
    (s.setReplica replica loaded).trail = s.trail := rfl

@[simp] theorem setReplica_replicas (s : System cedar) (replica i : Nat) (loaded : Replica cedar) :
    (s.setReplica replica loaded).replicas i = if i = replica then loaded else s.replicas i := rfl

end System

/-- One atomic step. A failed append may have been carried out all the same; a
line the sink has not accepted is not in the trail. -/
def Sem : (e : Effect cedar) → System cedar → e.Answer → System cedar → Prop
  | .snapshot replica, s, r, s' => r = (s.replicas replica).current ∧ s' = s
  | .loadedSequence replica, s, r, s' => r = (s.replicas replica).sequence ∧ s' = s
  | .setCurrent replica loaded sequence, s, _, s' => s' =
      s.setReplica replica { s.replicas replica with current := loaded, installed := sequence }
  | .setSequence replica sequence, s, _, s' => s' =
      s.setReplica replica { s.replicas replica with sequence := sequence }
  | .current, s, r, s' => (r = .ok s.log.getLast? ∨ ∃ e, r = .error e) ∧ s' = s
  | .append source author note, s, r, s' =>
      let appended := { s with log := s.log ++ [s.next source author note] }
      (r = .ok (s.next source author note) ∧ s' = appended) ∨
        (∃ e, r = .error e) ∧ (s' = s ∨ s' = appended)
  | .get sequence, s, r, s' =>
      (r = .ok (s.log.find? (·.sequence = sequence)) ∨ ∃ e, r = .error e) ∧ s' = s
  | .write line, s, r, s' =>
      (r = .ok () ∧ s' = { s with trail := s.trail ++ [line] }) ∨ (∃ e, r = .error e) ∧ s' = s

abbrev PolicyConfig (cedar : Cedar) :=
  Config (Effect cedar) Effect.Answer Result (System cedar) Request

abbrev PolicyEvent (cedar : Cedar) := Event (Effect cedar) Effect.Answer (System cedar) Request

/-- Any number of updates, rollbacks and ticks, on any replicas. -/
abbrev PolicyRun (failClosed : Bool) (start : System cedar) (tr : List (PolicyEvent cedar))
    (cfg : PolicyConfig cedar) : Prop :=
  Run (Request.serve cedar failClosed) Sem (fun s s' => s' = s) ⟨start, []⟩ tr cfg

/-- Every replica has loaded a revision of the log, under its sequence. -/
structure Started (s : System cedar) : Prop where
  ordered : s.log.Pairwise fun a b => a.sequence < b.sequence
  loaded : ∀ i, ∃ revision ∈ s.log, revision.sequence = (s.replicas i).installed ∧
    revision.source = (s.replicas i).current.source
  sequence : ∀ i, (s.replicas i).sequence = (s.replicas i).installed
  trail : s.trail = []

/-! ## The log -/

section

variable {s s' : System cedar} {e : Effect cedar} {r : e.Answer}

theorem System.le_newest (h : s.log.Pairwise fun a b => a.sequence < b.sequence)
    {revision : PolicyRevision} (hmem : revision ∈ s.log) : revision.sequence ≤ s.newest := by
  unfold newest
  rcases List.eq_nil_or_concat' s.log with hnil | ⟨log, last, hlog⟩
  · rw [hnil] at hmem
    cases hmem
  · rw [hlog] at h hmem ⊢
    simp only [List.getLast?_append, List.getLast?_singleton, Option.some_or, Option.map_some,
      Option.getD_some]
    rcases List.mem_append.mp hmem with hold | hlast
    · exact Nat.le_of_lt ((List.pairwise_append.mp h).2.2 _ hold _ (List.mem_singleton_self _))
    · rw [List.mem_singleton.mp hlast]

/-- A step leaves the log as it is or appends the next revision. -/
theorem Sem.log_cases (h : Sem e s r s') : s'.log = s.log ∨
    ∃ source author note, e = .append source author note ∧
      s'.log = s.log ++ [s.next source author note] := by
  cases e with
  | append source author note =>
      rcases h with ⟨-, rfl⟩ | ⟨-, rfl | rfl⟩
      · exact Or.inr ⟨source, author, note, rfl, rfl⟩
      · exact Or.inl rfl
      · exact Or.inr ⟨source, author, note, rfl, rfl⟩
  | write line => rcases h with ⟨-, rfl⟩ | ⟨-, rfl⟩ <;> exact Or.inl rfl
  | setCurrent replica loaded sequence => obtain rfl := h; exact Or.inl rfl
  | setSequence replica sequence => obtain rfl := h; exact Or.inl rfl
  | _ => obtain ⟨-, rfl⟩ := h; exact Or.inl rfl

theorem Sem.log_subset (h : Sem e s r s') : ∀ revision ∈ s.log, revision ∈ s'.log := by
  intro revision hmem
  rcases h.log_cases with heq | ⟨source, author, note, -, heq⟩
  · rwa [heq]
  · rw [heq]
    exact List.mem_append_left _ hmem

theorem Sem.trail_subset (h : Sem e s r s') : ∀ line ∈ s.trail, line ∈ s'.trail := by
  intro line hmem
  cases e with
  | write line' =>
      rcases h with ⟨-, rfl⟩ | ⟨-, rfl⟩
      · exact List.mem_append_left _ hmem
      · exact hmem
  | append source author note => rcases h with ⟨-, rfl⟩ | ⟨-, rfl | rfl⟩ <;> exact hmem
  | setCurrent replica loaded sequence => obtain rfl := h; exact hmem
  | setSequence replica sequence => obtain rfl := h; exact hmem
  | _ => obtain ⟨-, rfl⟩ := h; exact hmem

theorem Sem.ordered (h : Sem e s r s') (hs : s.log.Pairwise fun a b => a.sequence < b.sequence) :
    s'.log.Pairwise fun a b => a.sequence < b.sequence := by
  rcases h.log_cases with heq | ⟨source, author, note, -, heq⟩
  · rwa [heq]
  · rw [heq, List.pairwise_append]
    refine ⟨hs, List.pairwise_singleton .., fun a ha b hb => ?_⟩
    rw [List.mem_singleton.mp hb]
    exact Nat.lt_succ_of_le (s.le_newest hs ha)

end

/-! ## What a request does -/

/-- A revision is installed as the caller's own append has answered it, once its
line is accepted if the auditor fails closed, or as the poller has read it. -/
def Chosen (failClosed : Bool) (h : Past cedar) (loaded : Loaded cedar) (sequence : Nat) : Prop :=
  (∃ source author note revision,
      (⟨.append source author note, .ok revision⟩ : Σ e : Effect cedar, e.Answer) ∈ h ∧
        revision.sequence = sequence ∧ source = loaded.source ∧
          (failClosed = true → ∃ caller,
            (⟨.write (installLine caller revision), .ok ()⟩ : Σ e : Effect cedar, e.Answer) ∈ h)) ∨
    ∃ revision, (⟨.current, .ok (some revision)⟩ : Σ e : Effect cedar, e.Answer) ∈ h ∧
      revision.sequence = sequence ∧ revision.source = loaded.source

/-- The last thing a call has done is the first write of a swap. -/
def Swapping (h : Past cedar) (replica : Nat) (loaded : Loaded cedar) (sequence : Nat) : Prop :=
  h.getLast? = some ⟨.setCurrent replica loaded sequence, ()⟩

def Justified (failClosed : Bool) (h : Past cedar) : Effect cedar → Prop
  | .setCurrent _ loaded sequence => Chosen failClosed h loaded sequence
  | .setSequence replica sequence => ∃ loaded, Swapping h replica loaded sequence
  | .write (.policySet event details) => ∃ caller source author note revision,
      Line.policySet event details = installLine caller revision ∧
        (⟨.append source author note, .ok revision⟩ : Σ e : Effect cedar, e.Answer) ∈ h
  | _ => True

/-- Nothing comes between the two writes of a swap in the call that makes them. -/
def Issues (failClosed : Bool) (h : Past cedar) (e : Effect cedar) : Prop :=
  Justified failClosed h e ∧
    ∀ replica loaded sequence, Swapping h replica loaded sequence →
      e = .setSequence replica sequence

/-- A call ends with its swap complete, and where it answers that a revision is
not in force its line was not accepted. -/
def Ends (h : Past cedar) (result : Result) : Prop :=
  (∀ replica loaded sequence, ¬ Swapping h replica loaded sequence) ∧
    (result = .error notInForce → ∀ event details,
      (⟨.write (.policySet event details), .ok ()⟩ : Σ e : Effect cedar, e.Answer) ∉ h)

/-- Neither a write of a swap nor the line of a policy set. -/
def Quiet : Effect cedar → Prop
  | .setCurrent .. | .setSequence .. => False
  | .write (.policySet ..) => False
  | _ => True

def AllQuiet (h : Past cedar) : Prop := ∀ x ∈ h, Quiet x.1

theorem AllQuiet.not_swapping {h : Past cedar} (hquiet : AllQuiet h) (replica : Nat)
    (loaded : Loaded cedar) (sequence : Nat) : ¬ Swapping h replica loaded sequence :=
  fun hlast => hquiet _ (List.mem_of_getLast? hlast)

theorem AllQuiet.ends {h : Past cedar} (hquiet : AllQuiet h) (result : Result) : Ends h result :=
  ⟨hquiet.not_swapping, fun _ _ _ hmem => hquiet _ hmem⟩

theorem AllQuiet.snoc {h : Past cedar} (hquiet : AllQuiet h) {x : Σ e : Effect cedar, e.Answer}
    (hx : Quiet x.1) : AllQuiet (h ++ [x]) := by
  intro y hy
  rcases List.mem_append.mp hy with hold | hlast
  · exact hquiet y hold
  · rw [List.mem_singleton.mp hlast]
    exact hx

theorem Quiet.justified {e : Effect cedar} (h : Quiet e) (failClosed : Bool) (h' : Past cedar) :
    Justified failClosed h' e := by
  cases e with
  | write line =>
      cases line with
      | decision event => trivial
      | policySet event details => exact h.elim
  | setCurrent replica loaded sequence => exact h.elim
  | setSequence replica sequence => exact h.elim
  | _ => trivial

variable {failClosed : Bool}

theorem AllQuiet.issues {h : Past cedar} (hquiet : AllQuiet h) {e : Effect cedar}
    (he : Justified failClosed h e) : Issues failClosed h e :=
  ⟨he, fun replica loaded sequence hlast =>
    absurd hlast (hquiet.not_swapping replica loaded sequence)⟩

/-- What a quiet program leaves behind it. -/
theorem traced_of_quiet {α : Type} {V : α → Prop} {p : Prog (Effect cedar) Effect.Answer α}
    {h : Past cedar} (hp : Prog.Meets Quiet V p) (hquiet : AllQuiet h) :
    Prog.Traced (Issues failClosed) (fun h a => AllQuiet h ∧ V a) h p := by
  induction p generalizing h with
  | done a => exact ⟨hquiet, hp⟩
  | perform e k ih =>
      exact ⟨hquiet.issues (hp.1.justified failClosed h), fun r => ih r (hp.2 r) (hquiet.snoc hp.1)⟩

theorem swap_traced {h : Past cedar} {replica : Nat} {loaded : Loaded cedar} {sequence : Nat}
    (hidle : ∀ replica loaded sequence, ¬ Swapping h replica loaded sequence)
    (hchosen : Chosen failClosed h loaded sequence) :
    Prog.Traced (Issues failClosed) (fun h' _ =>
        (∀ replica loaded sequence, ¬ Swapping h' replica loaded sequence)) h
      (swap replica loaded sequence) := by
  refine ⟨⟨hchosen, fun replica' loaded' sequence' hlast => absurd hlast (hidle _ _ _)⟩, fun _ =>
    ⟨⟨⟨loaded, by simp [Swapping]⟩, fun replica' loaded' sequence' hlast => ?_⟩,
      fun _ replica' loaded' sequence' => by simp [Swapping]⟩⟩
  simp only [Swapping, List.getLast?_append, List.getLast?_singleton, Option.some_or,
    Option.some.injEq, Sigma.mk.injEq, Effect.setCurrent.injEq] at hlast
  rw [hlast.1.1, hlast.1.2.2]

theorem load_eq_ok {source : Text} {loaded : Loaded cedar} (h : load cedar source = .ok loaded) :
    loaded.source = source := by
  unfold load at h
  split at h
  · cases h
    rfl
  · cases h

theorem candidate_eq_ok {caller : Caller} {source : Text} {loaded : Loaded cedar}
    (h : candidate cedar caller source = .ok loaded) : loaded.source = source := by
  unfold candidate at h
  split at h
  · cases h
  · next loaded' hload =>
      split at h
      · cases h
        exact load_eq_ok hload
      · cases h

theorem authorizeManage_meets (replica : Nat) (caller : Caller) :
    Prog.Meets Quiet (fun _ => True)
      (authorizeManage failClosed replica caller : Handler cedar Unit).run := by
  refine ⟨trivial, fun loaded => ⟨trivial, fun inForce => ?_⟩⟩
  dsimp only
  split
  · refine ⟨trivial, fun r => ?_⟩
    cases r <;> trivial
  · exact ⟨trivial, fun _ => trivial⟩

theorem apply_traced {h : Past cedar} (hquiet : AllQuiet h) (replica : Nat) (caller : Caller)
    (source : Text) (note : Option Text) :
    Prog.Traced (Issues failClosed) (fun h r => Ends h (r.map some)) h
      (apply failClosed replica caller source note : Handler cedar PolicyRevision).run := by
  unfold apply
  cases hcandidate : candidate cedar caller source with
  | error e => exact hquiet.ends _
  | ok loaded =>
      refine ⟨hquiet.issues trivial, fun r => ?_⟩
      have happended : AllQuiet (h ++
          [(⟨.append source caller.principal.id note, r⟩ : Σ e : Effect cedar, e.Answer)]) :=
        hquiet.snoc trivial
      cases r with
      | error e => exact happended.ends _
      | ok revision =>
          refine ⟨happended.issues ⟨caller, source, caller.principal.id, note, revision,
            rfl, by simp⟩,
            fun r => ?_⟩
          have hinstall : (failClosed = true → r = .ok ()) →
              Prog.Traced (Issues failClosed) (fun h r => Ends h (r.map some)) (h ++
                [(⟨.append source caller.principal.id note, .ok revision⟩ :
                  Σ e : Effect cedar, e.Answer)] ++ [⟨.write (installLine caller revision), r⟩])
                (install replica loaded revision).run := by
            intro haccepted
            refine Prog.Traced.bind (swap_traced (by simp [Swapping]) (Or.inl ⟨source,
              caller.principal.id, note, revision, by simp, rfl, (candidate_eq_ok hcandidate).symm,
              fun hclosed => ⟨caller, ?_⟩⟩)) fun h _ hdone => ?_
            · rw [haccepted hclosed]
              simp
            · exact ⟨hdone, fun hanswer => by cases hanswer⟩
          cases r with
          | ok v => exact hinstall fun _ => rfl
          | error e =>
              cases failClosed with
              | false => exact hinstall fun h => by cases h
              | true =>
                  refine ⟨fun replica loaded sequence hlast => ?_, fun _ event details hmem => ?_⟩
                  · simp [Swapping] at hlast
                  · rcases List.mem_append.mp hmem with hold | hlast
                    · exact happended _ hold
                    · cases List.mem_singleton.mp hlast

theorem tick_traced (replica : Nat) :
    Prog.Traced (Issues failClosed) (fun h _ => ∀ replica loaded sequence,
      ¬ Swapping h replica loaded sequence) [] (tick cedar replica) := by
  refine ⟨⟨trivial, by simp [Swapping]⟩, fun r => ?_⟩
  rcases r with e | _ | current
  · simp [Prog.Traced, Swapping]
  · simp [Prog.Traced, Swapping]
  · refine ⟨⟨trivial, by simp [Swapping]⟩, fun loaded => ?_⟩
    dsimp only
    split
    · simp [Prog.Traced, Swapping]
    · split
      · next next hload =>
          exact swap_traced (by simp [Swapping])
            (Or.inr ⟨current, by simp, rfl, (load_eq_ok hload).symm⟩)
      · simp [Prog.Traced, Swapping]

/-- Whatever the request, it installs and ends as `Issues` and `Ends` say. -/
theorem serve_traced (failClosed : Bool) (q : Request) :
    Prog.Traced (Issues failClosed) Ends [] (q.serve cedar failClosed) := by
  have hnil : AllQuiet ([] : Past cedar) := fun _ h => by cases h
  cases q with
  | update replica caller source note =>
      refine Prog.Traced.bind ?_ fun _ _ hends => hends
      exact Prog.Traced.bind_except (traced_of_quiet (authorizeManage_meets replica caller) hnil)
        (fun _ _ h => h.1.ends _) fun _ _ h => apply_traced h.1 replica caller source note
  | rollback replica caller sequence note =>
      refine Prog.Traced.bind ?_ fun _ _ hends => hends
      refine Prog.Traced.bind_except (traced_of_quiet (authorizeManage_meets replica caller) hnil)
        (fun _ _ h => h.1.ends _) fun h _ hquiet => ⟨hquiet.1.issues trivial, fun r => ?_⟩
      have hgot : AllQuiet (h ++ [(⟨.get sequence, r⟩ : Σ e : Effect cedar, e.Answer)]) :=
        hquiet.1.snoc trivial
      rcases r with e | _ | revision
      · exact hgot.ends _
      · exact hgot.ends _
      · exact apply_traced hgot replica caller _ _
  | tick replica =>
      refine Prog.Traced.bind (tick_traced replica) fun h _ hdone => ?_
      exact ⟨hdone, fun hanswer => by cases hanswer⟩

end Rustberg.Management
