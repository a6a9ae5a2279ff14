import Rustberg.Api.Namespace

/-!
# Concurrent updates of one namespace's properties

`update_namespace_properties` reads the whole map, changes it and writes
it back, and nothing ties the write to the read. `updates_serializable` is
what holds when every write meets the map its request has read: the map
is then the result of the successful requests one after the other, in the
order of their writes. Two requests that read before either writes lose
one of the updates (`update_lost`).
-/

namespace Rustberg.Api

open Process Auth

/-- A property update has been written. -/
def Wrote (h : Past) : Prop :=
  ∃ ns properties, (⟨.updateNamespace ns properties, .ok ()⟩ : Σ e : NamespaceCall, e.Answer) ∈ h

theorem not_wrote_nil : ¬ Wrote [] := fun ⟨_, _, h⟩ => by cases h

theorem wrote_snoc {h : Past} {e : NamespaceCall} {r : e.Answer} :
    Wrote (h ++ [⟨e, r⟩]) ↔
      Wrote h ∨ ∃ ns properties, (⟨e, r⟩ : Σ e : NamespaceCall, e.Answer) =
        ⟨.updateNamespace ns properties, .ok ()⟩ := by
  simp only [Wrote, List.mem_append, List.mem_singleton, exists_or]
  exact or_congr Iff.rfl (exists_congr fun ns => exists_congr fun properties => eq_comm)

theorem wrote_snoc_get {h : Past} {ns : NamespaceIdent}
    {r : (NamespaceCall.getNamespace ns).Answer} :
    Wrote (h ++ [⟨.getNamespace ns, r⟩]) ↔ Wrote h := by
  rw [wrote_snoc, or_iff_left]
  rintro ⟨ns', properties, heq⟩
  cases heq

theorem wrote_snoc_error {h : Past} {e : NamespaceCall} {err : Error} :
    Wrote (h ++ [⟨e, .error err⟩]) ↔ Wrote h := by
  rw [wrote_snoc, or_iff_left]
  rintro ⟨ns', properties, heq⟩
  cases e <;> cases heq

/-! ## One request -/

/-- What an update request does after `h`: it reads its namespace, and writes
once, over what it has last read. -/
def UpdateIssues (ns : NamespaceIdent) (payload : UpdateNamespacePropertiesPayload) (h : Past)
    (e : NamespaceCall) : Prop :=
  ¬ Wrote h ∧ match e with
    | .getNamespace ns' => ns' = ns
    | .updateNamespace ns' properties =>
        ns' = ns ∧ ∃ current, lastRead ns h = some current ∧ properties = payload.applied current
    | _ => False

/-- It succeeds exactly when it has written. -/
def UpdateEnds {α : Type} (h : Past) : Except AppError α → Prop
  | .ok _ => Wrote h
  | .error _ => ¬ Wrote h

theorem updateNamespaceProperties_traced {u : UnicodeData} (app : AppState)
    (principal : Principal) (request : RequestContext) (path : NamespacePath u)
    (payload : UpdateNamespacePropertiesPayload) :
    Prog.Traced (UpdateIssues path.namespc payload) UpdateEnds []
      (updateNamespaceProperties app principal request path payload).run := by
  let Quiet {α : Type} (h : Past) (_ : Except AppError α) : Prop := ¬ Wrote h
  refine Prog.Traced.bind_except (Q := Quiet) not_wrote_nil (fun _ _ h => h) fun h _ hquiet => ?_
  refine Prog.Traced.bind_except (Q := Quiet) ?_ (fun _ _ h => h) fun h _ hquiet => ?_
  · rw [authorize_eq]
    exact ⟨⟨hquiet, rfl⟩, fun r => wrote_snoc_get.not.mpr hquiet⟩
  refine Prog.Traced.bind_except
    (Q := fun h r => ¬ Wrote h ∧ ∀ current, r = .ok current →
      lastRead path.namespc h = some current)
    ⟨⟨hquiet, rfl⟩, fun r => ⟨wrote_snoc_get.not.mpr hquiet, fun current hok => ?_⟩⟩
    (fun _ _ h => h.1) fun h current hread => ?_
  · cases r with
    | error e => cases hok
    | ok current' =>
        obtain rfl := Except.ok.inj hok
        exact lastRead_snoc_get ..
  obtain ⟨hquiet, hread⟩ := hread
  refine Prog.Traced.bind_except (Q := UpdateEnds)
    ⟨⟨hquiet, rfl, current, hread current rfl, rfl⟩, fun r => ?_⟩ (fun _ _ h => h) ?_
  swap
  · intro h _ hwrote
    exact hwrote
  cases r with
  | ok v => exact wrote_snoc.mpr (Or.inr ⟨_, _, rfl⟩)
  | error e => exact wrote_snoc_error.not.mpr hquiet

/-- What an update request may do next, its past being `h`. -/
theorem UpdateIssues.cases {ns : NamespaceIdent} {payload : UpdateNamespacePropertiesPayload}
    {h : Past} {e : NamespaceCall} (hissues : UpdateIssues ns payload h e) :
    e = .getNamespace ns ∨ ∃ current, e = .updateNamespace ns (payload.applied current) ∧
      lastRead ns h = some current := by
  obtain ⟨-, hcall⟩ := hissues
  cases e with
  | getNamespace ns' => exact Or.inl (congrArg _ hcall)
  | updateNamespace ns' properties =>
      obtain ⟨rfl, current, hread, rfl⟩ := hcall
      exact Or.inr ⟨current, rfl, hread⟩
  | createNamespace ns' properties => exact hcall.elim
  | dropNamespace ns' => exact hcall.elim

/-! ## Any number of requests -/

structure UpdateRequest where
  app : AppState
  principal : Principal
  facts : RequestContext
  payload : UpdateNamespacePropertiesPayload

abbrev UpdateConfig (B : Backend) :=
  Config NamespaceCall NamespaceCall.Answer (Except AppError Reply) B.State UpdateRequest

abbrev UpdateEvent (B : Backend) := Event NamespaceCall NamespaceCall.Answer B.State UpdateRequest

section

variable {u : UnicodeData} (B : Backend) (path : NamespacePath u)

def updateProg (q : UpdateRequest) :
    Prog NamespaceCall NamespaceCall.Answer (Except AppError Reply) :=
  (updateNamespaceProperties q.app q.principal q.facts path q.payload).run

/-- The runs of requests on the namespace of `path`, from `s`. -/
abbrev UpdateRun (s : B.State) (tr : List (UpdateEvent B)) (c : UpdateConfig B) : Prop :=
  Run (updateProg path) B.Sem (fun _ _ => False) ⟨s, []⟩ tr c

/-- Every write of the run meets the properties its request has read. -/
def MeetsReads (tr : List (UpdateEvent B)) : Prop :=
  ∀ tr₁ ev tr₂, tr = tr₁ ++ ev :: tr₂ →
    ∀ i ns properties current, ev.label = .act i (.updateNamespace ns properties) (.ok ()) →
      lastRead ns (actsOf i tr₁) = some current →
        B.tree ev.pre (namespaceKey ns) = some current

/-- Request `q`, call `i` of the run, has been answered with success. -/
def Succeeded (c : UpdateConfig B) (i : Nat) (q : UpdateRequest) : Prop :=
  ∃ reply, c.calls[i]? = some ⟨q, .done (.ok reply)⟩

/-- The requests of `order`, one after the other. -/
def applyAll (properties : Option Properties) (order : List (Nat × UpdateRequest)) :
    Option Properties :=
  order.foldl (fun properties x => properties.map x.2.payload.applied) properties

variable {B path}

theorem MeetsReads.of_append {tr tr' : List (UpdateEvent B)} (h : MeetsReads B (tr ++ tr')) :
    MeetsReads B tr := fun tr₁ ev tr₂ heq =>
  h tr₁ ev (tr₂ ++ tr') (by rw [heq, List.append_assoc, List.cons_append])

theorem sem_getNamespace {ns : NamespaceIdent} {s s' : B.State}
    {r : (NamespaceCall.getNamespace ns).Answer} (h : B.Sem (.getNamespace ns) s r s') :
    B.tree s' = B.tree s := by
  rcases h.effect with ⟨htree, -⟩ | ⟨-, htree⟩ <;> exact htree

theorem sem_updateNamespace {ns : NamespaceIdent} {properties : Properties} {s s' : B.State}
    {r : (NamespaceCall.updateNamespace ns properties).Answer}
    (h : B.Sem (.updateNamespace ns properties) s r s') :
    (r = .ok () ∧ B.tree s' = Function.update (B.tree s) (namespaceKey ns) (some properties)) ∨
      (∃ err, r = .error err) ∧ B.tree s' = B.tree s := by
  rcases h.effect with (⟨err, hr, htree⟩ | ⟨hr, -, htree⟩) | hfailed
  · exact Or.inr ⟨⟨err, hr⟩, htree⟩
  · exact Or.inl ⟨hr, htree⟩
  · exact Or.inr hfailed

/-- A call that has not written has not succeeded. -/
theorem not_succeeded {s : B.State} {tr : List (UpdateEvent B)} {c : UpdateConfig B}
    (hr : UpdateRun B path s tr c) {i : Nat} {q : UpdateRequest} (h : ¬ Wrote (actsOf i tr)) :
    ¬ Succeeded B c i q := by
  rintro ⟨reply, hi⟩
  exact h (hr.traced hi (updateNamespaceProperties_traced ..))

/-- A call that has written has succeeded. -/
theorem succeeded_of_wrote {s : B.State} {tr : List (UpdateEvent B)} {c : UpdateConfig B}
    (hr : UpdateRun B path s tr c) {i : Nat} {q : UpdateRequest}
    {p : Prog NamespaceCall NamespaceCall.Answer (Except AppError Reply)}
    (hi : c.calls[i]? = some ⟨q, p⟩) (h : Wrote (actsOf i tr)) : Succeeded B c i q := by
  have htraced := hr.traced hi (updateNamespaceProperties_traced ..)
  cases p with
  | perform e k => exact absurd h htraced.1.1
  | done r =>
      cases r with
      | ok reply => exact ⟨reply, hi⟩
      | error err => exact absurd h htraced

/-- Another call's step leaves call `j` as it was. -/
theorem succeeded_set_ne {c : UpdateConfig B} {s' : B.State} {i j : Nat} {q : UpdateRequest}
    {x : Call NamespaceCall NamespaceCall.Answer (Except AppError Reply) UpdateRequest}
    (hij : i ≠ j) : Succeeded B ⟨s', c.calls.set i x⟩ j q ↔ Succeeded B c j q := by
  unfold Succeeded
  rw [List.getElem?_set_ne hij]

/-- A step of a call that has not written by its end changes no success. -/
theorem succeeded_set_quiet {s : B.State} {tr : List (UpdateEvent B)} {c : UpdateConfig B}
    {s' : B.State} {i : Nat} {q : UpdateRequest} {e : NamespaceCall} {r : e.Answer}
    {k : e.Answer → Prog NamespaceCall NamespaceCall.Answer (Except AppError Reply)}
    (hr : UpdateRun B path s tr c) (hi : c.calls[i]? = some ⟨q, .perform e k⟩)
    (hs : B.Sem e c.state r s') (hquiet : ¬ Wrote (actsOf i tr ++ [⟨e, r⟩])) (j : Nat)
    (q' : UpdateRequest) :
    Succeeded B ⟨s', c.calls.set i ⟨q, k r⟩⟩ j q' ↔ Succeeded B c j q' := by
  by_cases hij : i = j
  · subst hij
    have hbefore : ¬ Succeeded B c i q' := by
      rintro ⟨reply, hi'⟩
      rw [hi] at hi'
      cases hi'
    have hafter := not_succeeded (q := q') (i := i) (hr.snoc (.act c i q e k r s' hi hs)) (by
      rwa [actsOf_append, actsOf_act])
    exact iff_of_false hafter hbefore
  · exact succeeded_set_ne hij

/-- The properties are those of the successful requests, one after the other. -/
structure Serialized (B : Backend) (path : NamespacePath u) (s : B.State) (c : UpdateConfig B)
    (order : List (Nat × UpdateRequest)) : Prop where
  once : (order.map Prod.fst).Nodup
  exactly : ∀ i q, (i, q) ∈ order ↔ Succeeded B c i q
  result : B.tree c.state (namespaceKey path.namespc) =
    applyAll (B.tree s (namespaceKey path.namespc)) order

/-- A request's write over what it has read is that request applied last. -/
theorem Serialized.snoc {s s' : B.State} {c : UpdateConfig B} {order : List (Nat × UpdateRequest)}
    {i : Nat} {q : UpdateRequest} {e : NamespaceCall} {current : Properties}
    {k : e.Answer → Prog NamespaceCall NamespaceCall.Answer (Except AppError Reply)}
    {p : Prog NamespaceCall NamespaceCall.Answer (Except AppError Reply)}
    (hser : Serialized B path s c order) (hi : c.calls[i]? = some ⟨q, .perform e k⟩)
    (hfinished : Succeeded B ⟨s', c.calls.set i ⟨q, p⟩⟩ i q)
    (hfresh : B.tree c.state (namespaceKey path.namespc) = some current)
    (htree : B.tree s' = Function.update (B.tree c.state) (namespaceKey path.namespc)
      (some (q.payload.applied current))) :
    Serialized B path s ⟨s', c.calls.set i ⟨q, p⟩⟩ (order ++ [(i, q)]) := by
  have hnew : i ∉ order.map Prod.fst := by
    intro hmem
    obtain ⟨⟨i', q'⟩, hmem', rfl⟩ := List.mem_map.mp hmem
    obtain ⟨reply, hi'⟩ := (hser.exactly i' q').mp hmem'
    rw [hi] at hi'
    cases hi'
  refine ⟨?_, fun j q' => ?_, ?_⟩
  · rw [List.map_append, List.map_singleton]
    exact List.nodup_append_comm.mp (List.nodup_cons.mpr ⟨hnew, hser.once⟩)
  · rw [List.mem_append, List.mem_singleton]
    by_cases hij : i = j
    · subst hij
      have hnot : (i, q') ∉ order := fun hmem => hnew (List.mem_map_of_mem hmem)
      constructor
      · rintro (hmem | heq)
        · exact absurd hmem hnot
        · cases heq
          exact hfinished
      · rintro ⟨reply, hi'⟩
        obtain ⟨reply', hi''⟩ := hfinished
        rw [hi'] at hi''
        cases hi''
        exact Or.inr rfl
    · have hne : (j, q') ≠ (i, q) := fun heq => hij (congrArg Prod.fst heq).symm
      rw [or_iff_left hne, succeeded_set_ne hij]
      exact hser.exactly j q'
  · rw [htree, Function.update_self, applyAll, List.foldl_append]
    simp only [List.foldl_cons, List.foldl_nil]
    rw [← applyAll, ← hser.result, hfresh, Option.map_some]

/-- While every write meets what its request has read, the properties of the
namespace are those of the successful requests, one after the other. -/
theorem updates_serializable {u : UnicodeData} (B : Backend) (path : NamespacePath u)
    (s : B.State) (tr : List (UpdateEvent B)) (c : UpdateConfig B)
    (hr : UpdateRun B path s tr c) (hfresh : MeetsReads B tr) :
    ∃ order : List (Nat × UpdateRequest), (order.map Prod.fst).Nodup ∧
      (∀ i q, (i, q) ∈ order ↔ Succeeded B c i q) ∧
      B.tree c.state (namespaceKey path.namespc) =
        applyAll (B.tree s (namespaceKey path.namespc)) order := by
  suffices h : ∃ order, Serialized B path s c order by
    obtain ⟨order, hser⟩ := h
    exact ⟨order, hser.once, hser.exactly, hser.result⟩
  induction hr with
  | nil =>
      refine ⟨[], ⟨List.nodup_nil, fun i q => iff_of_false List.not_mem_nil ?_, rfl⟩⟩
      rintro ⟨reply, hi⟩
      simp at hi
  | @snoc tr c c' l hr hs ih =>
      obtain ⟨order, hser⟩ := ih hfresh.of_append
      cases hs with
      | start q =>
          refine ⟨order, ⟨hser.once, fun i q' => ?_, hser.result⟩⟩
          rw [hser.exactly]
          by_cases hlt : i < c.calls.length
          · unfold Succeeded
            rw [List.getElem?_append_left hlt]
          · have hge : c.calls.length ≤ i := Nat.le_of_not_lt hlt
            have hstarted := hr.snoc (.start c q)
            refine iff_of_false (not_succeeded hr ?_) (not_succeeded hstarted ?_)
            · rw [hr.actsOf_nil hge]
              exact not_wrote_nil
            · rw [actsOf_append, hr.actsOf_nil hge]
              exact not_wrote_nil
      | act i q e k r s' hi hs =>
          have hissues := (hr.traced hi (updateNamespaceProperties_traced ..)).1
          have hrun := hr.snoc (.act c i q e k r s' hi hs)
          obtain rfl | ⟨current, rfl, hread⟩ := hissues.cases
          · refine ⟨order, ⟨hser.once, fun j q' => ?_, ?_⟩⟩
            · rw [succeeded_set_quiet hr hi hs (wrote_snoc_get.not.mpr hissues.1)]
              exact hser.exactly j q'
            · exact (congrFun (sem_getNamespace hs) _).trans hser.result
          · rcases sem_updateNamespace hs with ⟨rfl, htree⟩ | ⟨⟨err, rfl⟩, htree⟩
            · have hcurrent := hfresh tr _ [] rfl i _ _ current rfl hread
              refine ⟨order ++ [(i, q)], hser.snoc hi ?_ hcurrent htree⟩
              refine succeeded_of_wrote hrun (p := k (.ok ())) ?_ ?_
              · rw [List.getElem?_set_self (List.getElem?_eq_some_iff.mp hi).1]
              · rw [actsOf_append, actsOf_act]
                exact wrote_snoc.mpr (Or.inr ⟨_, _, rfl⟩)
            · refine ⟨order, ⟨hser.once, fun j q' => ?_, ?_⟩⟩
              · rw [succeeded_set_quiet hr hi hs (wrote_snoc_error.not.mpr hissues.1)]
                exact hser.exactly j q'
              · exact (congrFun htree _).trans hser.result
      | env s' hs => exact hs.elim

end

/-! ## Two clients of one namespace -/

/-- Every request is permitted. -/
def permissive : AppState where
  authorizer :=
    { decide := fun _ => .allow
      policySetVersion := none }
  record _ := .ok ()

def dbPath : NamespacePath UnicodeData.plain := ⟨["db".toList], by decide⟩

/-- The request to set property `key`. -/
def setting (key : Text) : UpdateRequest where
  app := permissive
  principal := writer
  facts := noFacts
  payload := { removals := [], updates := (∅ : Properties).insert key "1".toList }

abbrev updateMoves (moves : List (Move UpdateRequest)) :
    List (UpdateEvent (redbBackend (Env.empty Iceberg.plain))) ×
      UpdateConfig (redbBackend (Env.empty Iceberg.plain)) :=
  Config.moves (updateProg dbPath) (redbBackend (Env.empty Iceberg.plain)).handle ⟨acmeDb, []⟩ moves

theorem updateMoves_run (moves : List (Move UpdateRequest)) :
    UpdateRun (redbBackend (Env.empty Iceberg.plain)) dbPath acmeDb (updateMoves moves).1
      (updateMoves moves).2 := by
  have hsem : ∀ e s, (redbBackend (Env.empty Iceberg.plain)).Sem e s
      ((redbBackend (Env.empty Iceberg.plain)).handle e s).1
      ((redbBackend (Env.empty Iceberg.plain)).handle e s).2 := fun e s => Or.inl ⟨rfl, rfl⟩
  exact Run.moves hsem .nil moves

/-- The second client is under way while the first writes, and reads once more before it writes
itself. -/
def following : List (Move UpdateRequest) :=
  [.start (setting "a".toList), .start (setting "b".toList), .step 0, .step 1, .step 0, .step 0,
    .step 1, .step 1]

/-- Every write of `tr`, which comes after `past`, meets the properties its request has read. -/
def meetsReads (B : Backend) (past : List (UpdateEvent B)) : List (UpdateEvent B) → Bool
  | [] => true
  | ev :: tr =>
      (match ev.label with
        | .act i (.updateNamespace ns _) (.ok ()) =>
            decide (B.tree ev.pre (namespaceKey ns) = lastRead ns (actsOf i past))
        | _ => true) && meetsReads B (past ++ [ev]) tr

theorem meetsReads_of_check {B : Backend} {past tr : List (UpdateEvent B)}
    (h : meetsReads B past tr = true) {tr₁ tr₂ : List (UpdateEvent B)} {ev : UpdateEvent B}
    (htr : tr = tr₁ ++ ev :: tr₂) {i : Nat} {ns : NamespaceIdent} {properties : Properties}
    (hlabel : ev.label = .act i (.updateNamespace ns properties) (.ok ())) :
    B.tree ev.pre (namespaceKey ns) = lastRead ns (actsOf i (past ++ tr₁)) := by
  induction tr₁ generalizing past tr with
  | nil =>
      subst htr
      rw [List.nil_append, meetsReads, Bool.and_eq_true, hlabel] at h
      rw [List.append_nil]
      exact of_decide_eq_true h.1
  | cons ev' tr₁ ih =>
      subst htr
      rw [List.cons_append, meetsReads, Bool.and_eq_true] at h
      rw [← List.singleton_append, ← List.append_assoc]
      exact ih h.2 rfl

theorem following_meetsReads : MeetsReads _ (updateMoves following).1 := by
  have hchecked : meetsReads _ [] (updateMoves following).1 = true := by decide +kernel
  intro tr₁ ev tr₂ htr i ns properties current hlabel hread
  rw [meetsReads_of_check hchecked htr hlabel, List.nil_append]
  exact hread

/-- Both updates are there in the end. -/
theorem updates_serializable_following :
    (∃ order : List (Nat × UpdateRequest), (order.map Prod.fst).Nodup ∧
      (∀ i q, (i, q) ∈ order ↔ Succeeded _ (updateMoves following).2 i q) ∧
      (redbBackend (Env.empty Iceberg.plain)).tree (updateMoves following).2.state
          (namespaceKey dbPath.namespc) =
        applyAll ((redbBackend (Env.empty Iceberg.plain)).tree acmeDb
          (namespaceKey dbPath.namespc)) order) ∧
      Succeeded _ (updateMoves following).2 0 (setting "a".toList) ∧
        Succeeded _ (updateMoves following).2 1 (setting "b".toList) :=
  ⟨updates_serializable (redbBackend (Env.empty Iceberg.plain)) dbPath acmeDb _ _
    (updateMoves_run following) following_meetsReads, ⟨_, rfl⟩, ⟨_, rfl⟩⟩

/-- Both clients read before either writes. -/
def crossing : List (Move UpdateRequest) :=
  [.start (setting "a".toList), .start (setting "b".toList), .step 0, .step 0, .step 1, .step 1,
    .step 0, .step 1]

theorem update_lost :
    ¬ ∀ (u : UnicodeData) (B : Backend) (path : NamespacePath u) (s : B.State)
        (tr : List (UpdateEvent B)) (c : UpdateConfig B), UpdateRun B path s tr c →
      ∃ order : List (Nat × UpdateRequest), (order.map Prod.fst).Nodup ∧
        (∀ i q, (i, q) ∈ order ↔ Succeeded B c i q) ∧
        B.tree c.state (namespaceKey path.namespc) =
          applyAll (B.tree s (namespaceKey path.namespc)) order := by
  intro hall
  obtain ⟨order, honce, hexactly, hresult⟩ := hall _ _ _ _ _ _ (updateMoves_run crossing)
  have hfirst : Succeeded _ (updateMoves crossing).2 0 (setting "a".toList) := ⟨_, rfl⟩
  have hsecond : Succeeded _ (updateMoves crossing).2 1 (setting "b".toList) := ⟨_, rfl⟩
  have horder : order.Perm [(0, setting "a".toList), (1, setting "b".toList)] := by
    rw [List.perm_ext_iff_of_nodup honce.of_map (by simp)]
    rintro ⟨i, q⟩
    rw [hexactly, List.mem_cons, List.mem_singleton]
    constructor
    · rintro ⟨reply, hi⟩
      match i with
      | 0 =>
          cases hi
          exact Or.inl rfl
      | 1 =>
          cases hi
          exact Or.inr rfl
      | i + 2 => cases hi
    · rintro (heq | heq) <;> cases heq
      · exact hfirst
      · exact hsecond
  have hlost : ((redbBackend (Env.empty Iceberg.plain)).tree (updateMoves crossing).2.state
      (namespaceKey dbPath.namespc)).bind (fun properties => properties["a".toList]?) = none := by
    decide +kernel
  rw [hresult] at hlost
  rcases List.perm_pair.mp horder with rfl | rfl
  · exact absurd hlost (by decide +kernel)
  · exact absurd hlost (by decide +kernel)

end Rustberg.Api
