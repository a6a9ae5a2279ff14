import Rustberg.Api.Guard
import Rustberg.Idempotency.Key
import Rustberg.Idempotency.Receipts

/-!
# Replayed responses

The handlers of `catalog/v1` that honour `Idempotency-Key`: each authorizes,
looks its key up, acts, and files the response. The receipts lie in the cache
of each replica and, where there is one, in the store they share.

A replay answers with a response that was recorded under its own storage key
(`ReplayRun.replayed`). Whether that is the response to the same operation is
a question of the paths (`replay_answers_same`).
-/

namespace Rustberg.Idempotency.Replay

open Process Auth Api

/-! ## Effects -/

/-- What a handler does that is not decided by the request alone. -/
inductive Effect where
  /-- A client-supplied location is confined. -/
  | confine (table : TableIdent)
  | authorize (namespc : NamespaceIdent) (target : Target) (action : Action)
  /-- The in-process cache of a replica. -/
  | lookup (replica : Nat) (key : IdempotencyKey)
  | insert (replica : Nat) (key : IdempotencyKey) (response : CachedResponse)
  /-- The shared store. -/
  | select (storageKey : Text)
  | put (storageKey : Text) (response : CachedResponse)
  /-- All a handler does between the lookup and the receipt. It ends with the
  copy of its response that can be replayed, if that can be serialized. -/
  | execute (operation : Operation)

abbrev Effect.Answer : Effect → Type
  | .confine _ => Except AppError Unit
  | .authorize .. => Except AppError Unit
  | .lookup .. => Option CachedResponse
  | .insert .. => Unit
  | .select _ => Except Text (Option CachedResponse)
  | .put .. => Except Text Unit
  | .execute _ => Except AppError (Option CachedResponse)

abbrev Past := Prog.History Effect Effect.Answer

/-- A handler: effects in order, ending at the first error. -/
abbrev Handler (α : Type) := ExceptT AppError (Prog Effect Effect.Answer) α

def check (r : Except AppError Unit) : Handler Unit := ExceptT.mk (.done r)

def confine (table : TableIdent) : Handler Unit := ExceptT.mk (.perform (.confine table) .done)

def authorize (namespc : NamespaceIdent) (target : Target) (action : Action) : Handler Unit :=
  ExceptT.mk (.perform (.authorize namespc target action) .done)

/-- A step that does not fail. -/
def lift {α : Type} (p : Prog Effect Effect.Answer α) : Handler α :=
  ExceptT.mk (p >>= fun a => .done (.ok a))

def execute (operation : Operation) : Handler (Option CachedResponse) :=
  ExceptT.mk (.perform (.execute operation) .done)

/-! ## The cache -/

/-- The cache of one replica, read through to a shared store where there is one. -/
structure IdempotencyCache where
  replica : Nat
  shared : Bool

namespace IdempotencyCache

/-- A failure of the shared store is a miss. -/
def get (cache : IdempotencyCache) (key : IdempotencyKey) :
    Prog Effect Effect.Answer (Option CachedResponse) :=
  .perform (.lookup cache.replica key) fun
    | some hit => .done (some hit)
    | none =>
        if cache.shared then
          .perform (.select key.storageKey) fun
            | .ok (some response) =>
                .perform (.insert cache.replica key response) fun _ => .done (some response)
            | .ok none => .done none
            | .error _ => .done none
        else .done none

def set (cache : IdempotencyCache) (key : IdempotencyKey) (response : CachedResponse) :
    Prog Effect Effect.Answer Unit :=
  let insert := Prog.perform (Effect.insert cache.replica key response) fun _ => .done ()
  if cache.shared then .perform (.put key.storageKey response) fun _ => insert else insert

end IdempotencyCache

/-! ## Handlers -/

/-- How a request was answered. -/
inductive Reply where
  | executed
  /-- From the receipt `found`, with `answer`. -/
  | replayed (found answer : CachedResponse)
  deriving DecidableEq

/-- `StatusCode::NO_CONTENT` -/
def noContent : CachedResponse := ⟨⟨204, by decide⟩, [], none⟩

/-- Files the receipt, if there is a key to file it under and a copy to file. -/
def record (cache : IdempotencyCache) (key : Option IdempotencyKey)
    (response : Option CachedResponse) :
    Handler Reply :=
  match key, response with
  | some key, some response => do
      lift (cache.set key response)
      pure .executed
  | _, _ => pure .executed

/-- The receipt a key has, where the request has a key. -/
def lookup (cache : IdempotencyCache) : Option IdempotencyKey → Handler (Option CachedResponse)
  | some key => lift (cache.get key)
  | none => pure none

/-- The receipt is the answer, or the operation is carried out. -/
def replayOr (answer : CachedResponse → CachedResponse) (act : Handler Reply) :
    Option CachedResponse → Handler Reply
  | some found => pure (.replayed found (answer found))
  | none => act

/-- What every handler does once it has authorized. The receipt is `kept`
under the key that is looked up, or not at all. -/
def idempotent (cache : IdempotencyCache) (key : Option IdempotencyKey) (operation : Operation)
    (answer : CachedResponse → CachedResponse) (kept : Bool) : Handler Reply := do
  let cached ← lookup cache key
  replayOr answer (do
    let response ← execute operation
    record cache (key.filter fun _ => kept) response) cached

section Handlers

variable (u : UnicodeData) (cache : IdempotencyCache) (principal : Principal) (header : Option Text)

/-- The key of a request for `operation`. -/
def keyFor (operation : Operation) : Option IdempotencyKey :=
  IdempotencyKey.fromHeaders header post operation.endpointPath principal

/-- A root namespace is authorized as itself, another through its parent. -/
def authorizeCreate (namespc : NamespaceIdent) : Handler Unit :=
  if namespc.dropLast = [] then authorize namespc .namespc .create
  else authorize namespc.dropLast .namespc .create

def createNamespace (namespc : NamespaceIdent) : Handler Reply := do
  check (validateNamespace u namespc)
  let key := keyFor principal header (.createNamespace namespc)
  authorizeCreate namespc
  idempotent cache key (.createNamespace namespc) id true

/-- `NamespacePath`, and the name in the body. -/
def checkNamed (ident : TableIdent) : Handler Unit := do
  check (validateNamespace u ident.namespc)
  check (validateTableName u ident.name)

/-- `TablePath` and `ViewPath` -/
def checkPath (ident : TableIdent) (context : Text) : Handler Unit := do
  check (validateNamespace u ident.namespc)
  check (validateName u ident.name context)

/-- Only a location the client has chosen is confined. -/
def confineGiven (table : TableIdent) (location : Option Text) : Handler Unit :=
  if location.isSome then confine table else pure ()

def createTable (table : TableIdent) (location : Option Text) (stageCreate : Option Bool) :
    Handler Reply := do
  checkNamed u table
  confineGiven table location
  let key := keyFor principal header (.createTable table)
  authorize table.namespc (.table table.name) .create
  -- A staged create is never filed.
  idempotent cache key (.createTable table) id (stageCreate != some true)

def registerTable (table : TableIdent) : Handler Reply := do
  checkNamed u table
  confine table
  let key := keyFor principal header (.registerTable table)
  authorize table.namespc (.table table.name) .create
  idempotent cache key (.registerTable table) id true

/-- An identifier the body repeats must be the path's. -/
def checkIdentifier (what : Text) (identifier : Option TableIdent) (ident : TableIdent) :
    Except AppError Unit :=
  match identifier with
  | none => .ok ()
  | some repeated =>
      if repeated = ident then .ok ()
      else .error (.badRequest ("The identifier in the request body (".toList ++ repeated.display ++
        ") does not name the ".toList ++ what ++ " in the URL (".toList ++ ident.display ++
        "). They must match.".toList))

def commitTable (table : TableIdent) (identifier : Option TableIdent) : Handler Reply := do
  checkPath u table "Table name".toList
  let key := keyFor principal header (.commitTable table)
  check (checkIdentifier "table".toList identifier table)
  authorize table.namespc (.table table.name) .update
  idempotent cache key (.commitTable table) id true

/-- The loop of `commit_transaction`: every entry named, valid, authorized and
listed once. -/
def collect (u : UnicodeData) : List TableIdent → List (Option TableIdent) → Handler Unit
  | _, [] => pure ()
  | _, none :: _ =>
      check (.error (.badRequest
        "Each table commit in a transaction must name the table it applies to.".toList))
  | seen, some table :: changes => do
      check (validateNamespace u table.namespc)
      check (validateTableName u table.name)
      authorize table.namespc (.table table.name) .update
      if table ∈ seen then
        check (.error (.badRequest ("Table '".toList ++ table.display ++
          ("' appears more than once in this transaction. List each table at most once, " ++
            "combining its updates into a single entry.").toList)))
      else collect u (seen ++ [table]) changes

def checkChanges (tableChanges : List (Option TableIdent)) : Except AppError Unit :=
  if tableChanges = [] then
    .error (.badRequest "A transaction must carry at least one table commit.".toList)
  else .ok ()

def commitTransaction (tableChanges : List (Option TableIdent)) : Handler Reply := do
  let operation := Operation.commitTransaction tableChanges.reduceOption
  let key := keyFor principal header operation
  check (checkChanges tableChanges)
  collect u [] tableChanges
  -- A hit is answered without its receipt.
  idempotent cache key operation (fun _ => noContent) true

def createView (view : TableIdent) : Handler Reply := do
  checkNamed u view
  let key := keyFor principal header (.createView view)
  authorize view.namespc (.view view.name) .create
  idempotent cache key (.createView view) id true

def commitView (view : TableIdent) (identifier : Option TableIdent) : Handler Reply := do
  checkPath u view "View name".toList
  let key := keyFor principal header (.commitView view)
  check (checkIdentifier "view".toList identifier view)
  authorize view.namespc (.view view.name) .update
  idempotent cache key (.commitView view) id true

end Handlers

/-- What a request sends besides its key. -/
inductive Body where
  | createNamespace (namespc : NamespaceIdent)
  | createTable (table : TableIdent) (location : Option Text) (stageCreate : Option Bool)
  | registerTable (table : TableIdent)
  | commitTable (table : TableIdent) (identifier : Option TableIdent)
  | commitTransaction (tableChanges : List (Option TableIdent))
  | createView (view : TableIdent)
  | commitView (view : TableIdent) (identifier : Option TableIdent)

/-- What a request is for. -/
def Body.operation : Body → Operation
  | createNamespace namespc => .createNamespace namespc
  | createTable table .. => .createTable table
  | registerTable table => .registerTable table
  | commitTable table _ => .commitTable table
  | commitTransaction tableChanges => .commitTransaction tableChanges.reduceOption
  | createView view => .createView view
  | commitView view _ => .commitView view

structure Request where
  /-- The replica that serves it. -/
  replica : Nat
  header : Option Text
  body : Body

/-- Whom the requests come from, and whether replicas share a store. -/
structure Deployment where
  u : UnicodeData
  principal : Principal
  shared : Bool

def Request.serve (d : Deployment) (q : Request) :
    Prog Effect Effect.Answer (Except AppError Reply) :=
  let cache : IdempotencyCache := ⟨q.replica, d.shared⟩
  match q.body with
  | .createNamespace namespc => createNamespace d.u cache d.principal q.header namespc
  | .createTable table location stageCreate =>
      createTable d.u cache d.principal q.header table location stageCreate
  | .registerTable table => registerTable d.u cache d.principal q.header table
  | .commitTable table identifier => commitTable d.u cache d.principal q.header table identifier
  | .commitTransaction tableChanges => commitTransaction d.u cache d.principal q.header tableChanges
  | .createView view => createView d.u cache d.principal q.header view
  | .commitView view identifier => commitView d.u cache d.principal q.header view identifier

/-! ## Receipts -/

/-- The receipts each replica has in its cache, and those in the shared store. -/
structure Receipts where
  cached : Nat → IdempotencyKey → Option CachedResponse
  shared : Text → Option CachedResponse

def Receipts.none : Receipts := ⟨fun _ _ => Option.none, fun _ => Option.none⟩

namespace Receipts

def insert (s : Receipts) (replica : Nat) (key : IdempotencyKey) (response : CachedResponse) :
    Receipts :=
  { s with cached := fun replica' key' =>
      if replica' = replica ∧ key' = key then some response else s.cached replica' key' }

def put (s : Receipts) (storageKey : Text) (response : CachedResponse) : Receipts :=
  { s with shared := fun storageKey' =>
      if storageKey' = storageKey then some response else s.shared storageKey' }

end Receipts

/-- One effect. The shared store may fail at any time, and keeps what it has
under a key or takes what is put. -/
def Sem : (e : Effect) → Receipts → e.Answer → Receipts → Prop
  | .confine _, s, _, s' => s' = s
  | .authorize .., s, _, s' => s' = s
  | .execute _, s, _, s' => s' = s
  | .lookup replica key, s, r, s' => r = s.cached replica key ∧ s' = s
  | .insert replica key response, s, _, s' => s' = s.insert replica key response
  | .select storageKey, s, r, s' => (r = .ok (s.shared storageKey) ∨ ∃ e, r = .error e) ∧ s' = s
  | .put storageKey response, s, _, s' => s' = s ∨ s' = s.put storageKey response

/-- Receipts expire or are evicted. -/
def Forgets (s s' : Receipts) : Prop :=
  (∀ replica key response, s'.cached replica key = some response →
      s.cached replica key = some response) ∧
    ∀ storageKey response, s'.shared storageKey = some response →
      s.shared storageKey = some response

abbrev ReplayConfig := Config Effect Effect.Answer (Except AppError Reply) Receipts Request

abbrev ReplayEvent := Event Effect Effect.Answer Receipts Request

/-- Any number of requests of one principal, on any number of replicas. -/
abbrev ReplayRun (d : Deployment) (tr : List ReplayEvent) (cfg : ReplayConfig) : Prop :=
  Run (Request.serve d) Sem Forgets ⟨Receipts.none, []⟩ tr cfg

/-! ## What a request does -/

variable {d : Deployment} {q : Request}

/-- A request that passes validation looks for its receipt under `key`. -/
def Request.Keyed (d : Deployment) (q : Request) (key : IdempotencyKey) : Prop :=
  keyFor d.principal q.header q.body.operation = some key ∧ q.body.operation.Valid d.u

/-- What a request files: the response it has executed or, in its own cache, what
the shared store has answered. -/
def Issues (d : Deployment) (q : Request) (h : Past) : Effect → Prop
  | .insert _ key response => q.Keyed d key ∧
      ((⟨.execute q.body.operation, .ok (some response)⟩ : Σ e : Effect, e.Answer) ∈ h ∨
        (⟨.select key.storageKey, .ok (some response)⟩ : Σ e : Effect, e.Answer) ∈ h)
  | .put storageKey response => ∃ key, q.Keyed d key ∧ storageKey = key.storageKey ∧
      (⟨.execute q.body.operation, .ok (some response)⟩ : Σ e : Effect, e.Answer) ∈ h
  | _ => True

/-- A cache has answered the request with `found`. -/
def Found (key : IdempotencyKey) (found : CachedResponse) (h : Past) : Prop :=
  (∃ replica, (⟨.lookup replica key, some found⟩ : Σ e : Effect, e.Answer) ∈ h) ∨
    (⟨.select key.storageKey, .ok (some found)⟩ : Σ e : Effect, e.Answer) ∈ h

/-- A replay answers with what was found under the request's key. -/
def Ends (d : Deployment) (q : Request) (h : Past) : Except AppError Reply → Prop
  | .ok (.replayed found _) => ∃ key, q.Keyed d key ∧ Found key found h
  | _ => True

/-- Nothing before the lookup touches a receipt. -/
def Quiet : Effect → Prop
  | .confine _ | .authorize .. => True
  | _ => False

theorem check_meets {r : Except AppError Unit} {V : Prop} (h : r = .ok () → V) :
    Prog.Meets Quiet (Prog.OrError fun _ => V) (check r).run := by
  cases r with
  | error e => trivial
  | ok v => exact h rfl

theorem authorize_meets (namespc : NamespaceIdent) (target : Target) (action : Action) :
    Prog.Meets Quiet (Prog.OrError fun _ => True) (authorize namespc target action).run := by
  refine ⟨trivial, fun r => ?_⟩
  cases r <;> trivial

theorem confine_meets (table : TableIdent) :
    Prog.Meets Quiet (Prog.OrError fun _ => True) (confine table).run := by
  refine ⟨trivial, fun r => ?_⟩
  cases r <;> trivial

theorem authorizeCreate_meets (namespc : NamespaceIdent) :
    Prog.Meets Quiet (Prog.OrError fun _ => True) (authorizeCreate namespc).run := by
  unfold authorizeCreate
  split
  · exact authorize_meets ..
  · exact authorize_meets ..

theorem confineGiven_meets (table : TableIdent) (location : Option Text) :
    Prog.Meets Quiet (Prog.OrError fun _ => True) (confineGiven table location).run := by
  unfold confineGiven
  split
  · exact confine_meets table
  · trivial

theorem checkNamed_meets (u : UnicodeData) (ident : TableIdent) :
    Prog.Meets Quiet (Prog.OrError fun _ => ValidIdent u ident) (checkNamed u ident).run := by
  refine Prog.Meets.bind_except (check_meets validateNamespace_eq_ok.mp) fun _ hns => ?_
  refine check_meets fun hname => ⟨⟨hns.1, hns.2.2⟩, validName_iff.mp hname⟩

theorem checkPath_meets (u : UnicodeData) (ident : TableIdent) (context : Text) :
    Prog.Meets Quiet (Prog.OrError fun _ => ValidIdent u ident)
    (checkPath u ident context).run := by
  refine Prog.Meets.bind_except (check_meets validateNamespace_eq_ok.mp) fun _ hns => ?_
  refine check_meets fun hname => ⟨⟨hns.1, hns.2.2⟩, validName_iff.mp hname⟩

theorem collect_meets (u : UnicodeData) (seen : List TableIdent)
    (changes : List (Option TableIdent)) :
    Prog.Meets Quiet (Prog.OrError fun _ => ∀ table ∈ changes.reduceOption, ValidIdent u table)
      (collect u seen changes).run := by
  induction changes generalizing seen with
  | nil => exact fun _ hmem => by cases hmem
  | cons change changes ih =>
      cases change with
      | none => exact check_meets fun h => by cases h
      | some table =>
          rw [collect, List.reduceOption_cons_of_some]
          refine Prog.Meets.bind_except (check_meets validateNamespace_eq_ok.mp) fun _ hns => ?_
          refine Prog.Meets.bind_except (check_meets validName_iff.mp) fun _ hname => ?_
          refine Prog.Meets.bind_except (authorize_meets ..) fun _ _ => ?_
          split
          · exact check_meets fun h => by cases h
          · refine Prog.Meets.mono (ih _) fun r hr => ?_
            cases r with
            | error e => trivial
            | ok v => exact List.forall_mem_cons.mpr ⟨⟨⟨hns.1, hns.2.2⟩, hname⟩, hr⟩

/-- What comes before the lookup, and what it has checked. -/
theorem traced_after {α : Type} {p : Handler α} {f : α → Handler Reply} {V : α → Prop}
    (hp : Prog.Meets Quiet (Prog.OrError V) p.run)
    (hf : ∀ a, V a → ∀ h, Prog.Traced (Issues d q) (Ends d q) h (f a).run) (h : Past) :
    Prog.Traced (Issues d q) (Ends d q) h (p >>= f).run := by
  refine Prog.Traced.bind_except (Q := fun _ r => Prog.OrError V r) ?_ (fun _ _ _ => trivial)
    fun h a ha => hf a ha h
  refine hp.traced (fun _ e he => ?_) fun _ r hr => hr
  cases e <;> trivial

theorem get_traced {key : IdempotencyKey} (hkey : q.Keyed d key) (cache : IdempotencyCache)
    (h : Past) :
    Prog.Traced (Issues d q) (fun h r => ∀ found, r = some found → Found key found h) h
      (cache.get key) := by
  refine ⟨trivial, fun r => ?_⟩
  cases r with
  | some hit =>
      intro found hfound
      cases hfound
      exact Or.inl ⟨cache.replica, by simp⟩
  | none =>
      dsimp only
      split
      · refine ⟨trivial, fun r => ?_⟩
        rcases r with e | _ | response
        · exact fun _ h => by cases h
        · exact fun _ h => by cases h
        · refine ⟨⟨hkey, Or.inr (by simp)⟩, fun _ found hfound => ?_⟩
          cases hfound
          exact Or.inr (by simp)
      · exact fun _ h => by cases h

theorem record_traced {cache : IdempotencyCache} {key : Option IdempotencyKey}
    {response : Option CachedResponse} {h : Past} (hkey : ∀ k, key = some k → q.Keyed d k)
    (hresponse : (⟨.execute q.body.operation, .ok response⟩ : Σ e : Effect, e.Answer) ∈ h) :
    Prog.Traced (Issues d q) (Ends d q) h (record cache key response).run := by
  rcases key with _ | key
  · trivial
  rcases response with _ | response
  · trivial
  have hkeyed := hkey key rfl
  have hset : Prog.Traced (Issues d q) (fun _ _ => True) h (cache.set key response) := by
    unfold IdempotencyCache.set
    dsimp only
    split
    · exact ⟨⟨key, hkeyed, rfl, hresponse⟩, fun _ => ⟨⟨hkeyed, Or.inl (by simp [hresponse])⟩,
        fun _ => trivial⟩⟩
    · exact ⟨⟨hkeyed, Or.inl hresponse⟩, fun _ => trivial⟩
  have hlift : Prog.Traced (Issues d q) (fun _ _ => True) h (lift (cache.set key response)).run :=
    hset.bind fun _ _ _ => trivial
  exact hlift.bind_except (fun _ _ _ => trivial) fun _ _ _ => trivial

theorem idempotent_traced {cache : IdempotencyCache} {key : Option IdempotencyKey}
    {answer : CachedResponse → CachedResponse} {kept : Bool}
    (hkey : ∀ k, key = some k → q.Keyed d k)
    (h : Past) : Prog.Traced (Issues d q) (Ends d q) h
      (idempotent cache key q.body.operation answer kept).run := by
  have hlookup : Prog.Traced (Issues d q) (fun h r => ∀ found, r = .ok (some found) →
      ∃ k, q.Keyed d k ∧ Found k found h) h (lookup cache key).run := by
    cases key with
    | none => exact fun _ hfound => by cases hfound
    | some key =>
        refine (get_traced (hkey key rfl) cache h).bind fun h r hr => ?_
        intro found hfound
        obtain rfl : r = some found := Except.ok.inj hfound
        exact ⟨key, hkey key rfl, hr found rfl⟩
  refine hlookup.bind_except (fun _ _ _ => trivial) fun h cached hcached => ?_
  cases cached with
  | some found => exact hcached found rfl
  | none =>
      refine ⟨trivial, fun r => ?_⟩
      cases r with
      | error e => trivial
      | ok response =>
          refine record_traced (fun k hk => hkey k ?_) (by simp)
          exact (Option.filter_eq_some_iff.mp hk).1

/-- Whatever the request, it files and answers what `Issues` and `Ends` say. -/
theorem serve_traced (d : Deployment) (q : Request) :
    Prog.Traced (Issues d q) (Ends d q) [] (q.serve d) := by
  obtain ⟨replica, header, body⟩ := q
  cases body with
  | createNamespace namespc =>
      refine traced_after (check_meets validateNamespace_eq_ok.mp) (fun _ hns => ?_) []
      have hvalid : (Operation.createNamespace namespc).Valid d.u := ⟨hns.1, hns.2.2⟩
      exact traced_after (authorizeCreate_meets namespc) fun _ _ =>
        idempotent_traced fun _ hkey => ⟨hkey, hvalid⟩
  | createTable table location stageCreate =>
      refine traced_after (checkNamed_meets d.u table) (fun _ hvalid => ?_) []
      refine traced_after (confineGiven_meets table location) fun _ _ => ?_
      exact traced_after (authorize_meets ..) fun _ _ =>
        idempotent_traced fun _ hkey => ⟨hkey, hvalid⟩
  | registerTable table =>
      refine traced_after (checkNamed_meets d.u table) (fun _ hvalid => ?_) []
      refine traced_after (confine_meets table) fun _ _ => ?_
      exact traced_after (authorize_meets ..) fun _ _ =>
        idempotent_traced fun _ hkey => ⟨hkey, hvalid⟩
  | commitTable table identifier =>
      refine traced_after (checkPath_meets d.u table _) (fun _ hvalid => ?_) []
      refine traced_after (check_meets fun _ => trivial) fun _ _ => ?_
      exact traced_after (authorize_meets ..) fun _ _ =>
        idempotent_traced fun _ hkey => ⟨hkey, hvalid⟩
  | commitTransaction tableChanges =>
      refine traced_after (check_meets fun _ => trivial) (fun _ _ => ?_) []
      exact traced_after (collect_meets d.u [] tableChanges) fun _ hvalid =>
        idempotent_traced fun _ hkey => ⟨hkey, hvalid⟩
  | createView view =>
      refine traced_after (checkNamed_meets d.u view) (fun _ hvalid => ?_) []
      exact traced_after (authorize_meets ..) fun _ _ =>
        idempotent_traced fun _ hkey => ⟨hkey, hvalid⟩
  | commitView view identifier =>
      refine traced_after (checkPath_meets d.u view _) (fun _ hvalid => ?_) []
      refine traced_after (check_meets fun _ => trivial) fun _ _ => ?_
      exact traced_after (authorize_meets ..) fun _ _ =>
        idempotent_traced fun _ hkey => ⟨hkey, hvalid⟩

/-! ## Where a receipt comes from -/

variable {tr : List ReplayEvent} {cfg : ReplayConfig}

/-- Call `i` has executed its operation with `response`, under a key that is
stored as `storageKey`. -/
def RecordedBy (d : Deployment) (tr : List ReplayEvent) (cfg : ReplayConfig) (i : Nat) (q : Request)
    (storageKey : Text) (response : CachedResponse) : Prop :=
  (∃ rest, cfg.calls[i]? = some ⟨q, rest⟩) ∧ (∃ key, q.Keyed d key ∧ key.storageKey = storageKey) ∧
    (⟨.execute q.body.operation, .ok (some response)⟩ : Σ e : Effect, e.Answer) ∈ actsOf i tr

def Recorded (d : Deployment) (tr : List ReplayEvent) (cfg : ReplayConfig) (storageKey : Text)
    (response : CachedResponse) : Prop := ∃ i q, RecordedBy d tr cfg i q storageKey response

/-- Every receipt kept, and every receipt seen, was recorded under its storage key. -/
structure Filed (d : Deployment) (tr : List ReplayEvent) (cfg : ReplayConfig) : Prop where
  cached : ∀ replica key response, cfg.state.cached replica key = some response →
    Recorded d tr cfg key.storageKey response
  shared : ∀ storageKey response, cfg.state.shared storageKey = some response →
    Recorded d tr cfg storageKey response
  found : ∀ i key response, Found key response (actsOf i tr) →
    Recorded d tr cfg key.storageKey response

theorem Recorded.step {cfg' : ReplayConfig} {l : Label Effect Effect.Answer Request}
    (hs : Step (Request.serve d) Sem Forgets cfg l cfg') {storageKey : Text}
    {response : CachedResponse} (h : Recorded d tr cfg storageKey response) :
    Recorded d (tr ++ [⟨cfg.state, l, cfg'.state⟩]) cfg' storageKey response := by
  obtain ⟨i, q, ⟨rest, hi⟩, hkey, hexecute⟩ := h
  obtain ⟨⟨q', rest'⟩, hi', rfl⟩ := hs.request hi
  refine ⟨i, _, ⟨rest', hi'⟩, hkey, ?_⟩
  rw [actsOf_append]
  exact List.mem_append_left _ hexecute

/-- What a call files was recorded: by itself, or where it has found it. -/
theorem Filed.of_issues (hfiled : Filed d tr cfg) {j : Nat} {rest : Prog Effect Effect.Answer _}
    (hj : cfg.calls[j]? = some ⟨q, rest⟩) {replica : Nat} {key : IdempotencyKey}
    {response : CachedResponse} (h : Issues d q (actsOf j tr) (.insert replica key response)) :
    Recorded d tr cfg key.storageKey response := by
  obtain ⟨hkeyed, hexecute | hselect⟩ := h
  · exact ⟨j, q, ⟨rest, hj⟩, ⟨key, hkeyed, rfl⟩, hexecute⟩
  · exact hfiled.found j key response (Or.inr hselect)

theorem Filed.seen (hfiled : Filed d tr cfg) {cfg' : ReplayConfig}
    {l : Label Effect Effect.Answer Request} (hs : Step (Request.serve d) Sem Forgets cfg l cfg')
    {i : Nat} {key : IdempotencyKey} {response : CachedResponse}
    (h : Found key response (actsOf i (tr ++ [⟨cfg.state, l, cfg'.state⟩]))) :
    Recorded d tr cfg key.storageKey response := by
  rcases h with ⟨replica, hmem⟩ | hmem
  · rw [actsOf_append] at hmem
    rcases List.mem_append.mp hmem with hold | hnew
    · exact hfiled.found i key response (Or.inl ⟨replica, hold⟩)
    · obtain ⟨ev, hev, hlabel⟩ := exists_of_mem_actsOf hnew
      obtain rfl := List.mem_singleton.mp hev
      obtain rfl : l = .act i (.lookup replica key) (some response) := hlabel
      exact hfiled.cached replica key response hs.effect.1.symm
  · rw [actsOf_append] at hmem
    rcases List.mem_append.mp hmem with hold | hnew
    · exact hfiled.found i key response (Or.inr hold)
    · obtain ⟨ev, hev, hlabel⟩ := exists_of_mem_actsOf hnew
      obtain rfl := List.mem_singleton.mp hev
      obtain rfl : l = .act i (.select key.storageKey) (.ok (some response)) := hlabel
      rcases hs.effect.1 with hshared | ⟨e, he⟩
      · exact hfiled.shared _ response (Except.ok.inj hshared).symm
      · cases he

theorem ReplayRun.filed (hrun : ReplayRun d tr cfg) : Filed d tr cfg := by
  induction hrun with
  | nil =>
      refine ⟨fun _ _ _ h => (by cases h), fun _ _ h => (by cases h), fun _ _ _ h => ?_⟩
      rcases h with ⟨_, h⟩ | h <;> cases h
  | @snoc tr cfg cfg' l hr hs ih =>
      refine ⟨fun replica key response h => .step hs ?_, fun storageKey response h => .step hs ?_,
        fun i key response h => .step hs (ih.seen hs h)⟩
      · cases hs with
        | start q => exact ih.cached replica key response h
        | env s' hs => exact ih.cached replica key response (hs.1 _ _ _ h)
        | act j q e k r s' hj hs =>
            cases e with
            | insert replica' key' response' =>
                obtain rfl := hs
                dsimp only [Receipts.insert] at h
                split at h
                · next heq =>
                    obtain ⟨rfl, rfl⟩ := heq
                    cases h
                    exact ih.of_issues hj (hr.traced hj (serve_traced d q)).1
                · exact ih.cached replica key response h
            | put storageKey response' =>
                rcases hs with rfl | rfl
                · exact ih.cached replica key response h
                · exact ih.cached replica key response h
            | lookup replica' key' => exact ih.cached replica key response (hs.2 ▸ h)
            | select storageKey => exact ih.cached replica key response (hs.2 ▸ h)
            | confine table => exact ih.cached replica key response (hs ▸ h)
            | authorize namespc target action => exact ih.cached replica key response (hs ▸ h)
            | execute operation => exact ih.cached replica key response (hs ▸ h)
      · cases hs with
        | start q => exact ih.shared storageKey response h
        | env s' hs => exact ih.shared storageKey response (hs.2 _ _ h)
        | act j q e k r s' hj hs =>
            cases e with
            | insert replica' key' response' =>
                obtain rfl := hs
                exact ih.shared storageKey response h
            | put storageKey' response' =>
                rcases hs with rfl | rfl
                · exact ih.shared storageKey response h
                · dsimp only [Receipts.put] at h
                  split at h
                  · next heq =>
                      subst heq
                      cases h
                      obtain ⟨key, hkeyed, rfl, hexecute⟩ := (hr.traced hj (serve_traced d q)).1
                      exact ⟨j, q, ⟨_, hj⟩, ⟨key, hkeyed, rfl⟩, hexecute⟩
                  · exact ih.shared storageKey response h
            | lookup replica' key' => exact ih.shared storageKey response (hs.2 ▸ h)
            | select storageKey' => exact ih.shared storageKey response (hs.2 ▸ h)
            | confine table => exact ih.shared storageKey response (hs ▸ h)
            | authorize namespc target action => exact ih.shared storageKey response (hs ▸ h)
            | execute operation => exact ih.shared storageKey response (hs ▸ h)

/-- A replay answers with what was recorded under its own storage key. -/
theorem ReplayRun.replayed (hrun : ReplayRun d tr cfg) {j : Nat} {found answer : CachedResponse}
    (hj : cfg.calls[j]? = some ⟨q, .done (.ok (.replayed found answer))⟩) :
    ∃ key, q.Keyed d key ∧ Recorded d tr cfg key.storageKey found := by
  obtain ⟨key, hkeyed, hfound⟩ : Ends d q (actsOf j tr) _ := hrun.traced hj (serve_traced d q)
  exact ⟨key, hkeyed, hrun.filed.found j key found hfound⟩

/-- No two requests with one and the same key are for different things on one path. -/
def KeysApart (d : Deployment) (cfg : ReplayConfig) : Prop :=
  ∀ call ∈ cfg.calls, ∀ call' ∈ cfg.calls, ∀ key key' : IdempotencyKey,
    call.request.Keyed d key → call'.request.Keyed d key' →
      call.request.header = call'.request.header →
        ¬ Confusable call.request.body.operation call'.request.body.operation

theorem Request.Keyed.same_or_confusable {q' : Request} {key key' : IdempotencyKey}
    (h : q.Keyed d key) (h' : q'.Keyed d key') (heq : key.storageKey = key'.storageKey) :
    q.header = q'.header ∧ (q.body.operation.Same q'.body.operation ∨
      Confusable q.body.operation q'.body.operation ∨
        Confusable q'.body.operation q.body.operation) := by
  obtain ⟨k, hk, hnew⟩ := Option.bind_eq_some_iff.mp h.1
  obtain ⟨k', hk', hnew'⟩ := Option.bind_eq_some_iff.mp h'.1
  obtain ⟨hpath, rfl⟩ := (IdempotencyKey.storageKey_eq_iff_of_principal hnew hnew').mp heq
  exact ⟨hk.trans hk'.symm, (endpointPath_eq_iff h.2 h'.2).mp hpath⟩

/-- In a run whose keys are apart, a replay answers the operation it was recorded
for: some request recorded the response under its key, and every request that
did was for the same operation on the same things. -/
theorem replay_answers_same (d : Deployment) (tr : List ReplayEvent) (cfg : ReplayConfig)
    (hrun : ReplayRun d tr cfg) (hapart : KeysApart d cfg) (j : Nat) (q : Request)
    (found answer : CachedResponse)
    (hj : cfg.calls[j]? = some ⟨q, .done (.ok (.replayed found answer))⟩) :
    ∃ key, q.Keyed d key ∧ Recorded d tr cfg key.storageKey found ∧
      ∀ i q', RecordedBy d tr cfg i q' key.storageKey found →
        q'.body.operation.Same q.body.operation := by
  obtain ⟨key, hkeyed, hrecorded⟩ := hrun.replayed hj
  refine ⟨key, hkeyed, hrecorded, ?_⟩
  rintro i q' ⟨⟨rest, hi⟩, ⟨key', hkeyed', heq⟩, -⟩
  have hmem := List.mem_of_getElem? hi
  have hmem' := List.mem_of_getElem? hj
  obtain ⟨hheader, hsame | hconf | hconf⟩ := hkeyed'.same_or_confusable hkeyed heq
  · exact hsame
  · exact absurd hconf (hapart _ hmem _ hmem' _ _ hkeyed' hkeyed hheader)
  · exact absurd hconf (hapart _ hmem' _ hmem _ _ hkeyed hkeyed' hheader.symm)

/-! ### One request, twice -/

/-- Every effect succeeds. -/
def Receipts.handle : (e : Effect) → Receipts → e.Answer × Receipts
  | .confine _, s => (.ok (), s)
  | .authorize .., s => (.ok (), s)
  | .execute _, s =>
      (.ok (some ⟨⟨200, StatusCode.ok_valid⟩, [], some "application/json".toList⟩), s)
  | .lookup replica key, s => (s.cached replica key, s)
  | .insert replica key response, s => ((), s.insert replica key response)
  | .select storageKey, s => (.ok (s.shared storageKey), s)
  | .put storageKey response, s => (.ok (), s.put storageKey response)

theorem Receipts.handle_sem (e : Effect) (s : Receipts) :
    Sem e s (s.handle e).1 (s.handle e).2 := by
  cases e with
  | lookup replica key => exact ⟨rfl, rfl⟩
  | select storageKey => exact ⟨Or.inl rfl, rfl⟩
  | put storageKey response => exact Or.inr rfl
  | _ => rfl

/-- One replica, and a user. -/
def alone : Deployment := ⟨.plain, etlUser, false⟩

def runFrom (ms : List (Move Request)) : List ReplayEvent × ReplayConfig :=
  Config.moves (Request.serve alone) (fun e s => Receipts.handle e s) ⟨Receipts.none, []⟩ ms

theorem runFrom_run (ms : List (Move Request)) : ReplayRun alone (runFrom ms).1 (runFrom ms).2 :=
  Run.moves Receipts.handle_sem .nil ms

/-- How call `i` was answered. -/
def answered (cfg : ReplayConfig) (i : Nat) : Option Reply :=
  match cfg.calls[i]? with
  | some ⟨_, .done (.ok reply)⟩ => some reply
  | _ => none

theorem answered_eq_some {i : Nat} {reply : Reply} (h : answered cfg i = some reply) :
    ∃ q, cfg.calls[i]? = some ⟨q, .done (.ok reply)⟩ := by
  unfold answered at h
  split at h
  · next q reply' hi =>
      cases h
      exact ⟨q, hi⟩
  · cases h

def committing (table : TableIdent) : Request := ⟨0, some "k-1".toList, .commitTable table none⟩

/-- Two commits, one after the other. -/
def commits (table table' : TableIdent) : List ReplayEvent × ReplayConfig :=
  runFrom [.start (committing table), .step 0, .step 0, .step 0, .step 0,
    .start (committing table'), .step 1, .step 1]

def committed : CachedResponse := ⟨⟨200, StatusCode.ok_valid⟩, [], some "application/json".toList⟩

theorem commits_calls (table table' : TableIdent) :
    (commits table table').2.calls.map (·.request) = [committing table, committing table'] :=
  Config.moves_requests ..

theorem commits_run (table table' : TableIdent) :
    ReplayRun alone (commits table table').1 (commits table table').2 := runFrom_run _

/-- The second commit has been answered from a receipt. -/
theorem commits_replayed {table table' : TableIdent}
    (h : answered (commits table table').2 1 = some (.replayed committed committed)) :
    (commits table table').2.calls[1]? =
      some ⟨committing table', .done (.ok (.replayed committed committed))⟩ := by
  obtain ⟨q, hq⟩ := answered_eq_some h
  have hrequest := congrArg (·[1]?) (commits_calls table table')
  simp only [List.getElem?_map, hq] at hrequest
  cases hrequest
  exact hq

def dbT : TableIdent := ⟨["db".toList], "t".toList⟩

theorem dbT_replayed : answered (commits dbT dbT).2 1 = some (.replayed committed committed) := by
  decide

theorem dbT_apart : KeysApart alone (commits dbT dbT).2 := by
  have hall : ∀ call ∈ (commits dbT dbT).2.calls, call.request = committing dbT := by
    intro call hcall
    have hmem := List.mem_map_of_mem (f := (fun c => c.request)) hcall
    rw [commits_calls] at hmem
    simpa using hmem
  intro call hcall call' hcall' key key' _ _ _ hconf
  rw [hall call hcall, hall call' hcall'] at hconf
  exact hconf.not_same (.refl _)

theorem replay_answers_same_dbT :
    ∃ key, (committing dbT).Keyed alone key ∧
      Recorded alone (commits dbT dbT).1 (commits dbT dbT).2 key.storageKey committed ∧
        ∀ i q', RecordedBy alone (commits dbT dbT).1 (commits dbT dbT).2 i q' key.storageKey
          committed → q'.body.operation.Same (committing dbT).body.operation :=
  replay_answers_same alone _ _ (commits_run dbT dbT) dbT_apart 1 (committing dbT)
    committed committed
    (commits_replayed dbT_replayed)

/-! ### A colon in a name

Table `b:c` of namespace `a`, and table `c` of namespace `a:b`. -/

def colonTable : TableIdent := ⟨["a".toList], "b:c".toList⟩

def colonNamespace : TableIdent := ⟨["a:b".toList], "c".toList⟩

theorem colon_replayed :
    answered (commits colonTable colonNamespace).2 1 = some (.replayed committed committed) := by
  decide

/-- Call `i` has executed something. -/
def executes (i : Nat) (tr : List ReplayEvent) : Bool :=
  (actsOf i tr).any fun x => match x.1 with
    | .execute _ => true
    | _ => false

theorem executes_of_recordedBy {i : Nat} {storageKey : Text} {response : CachedResponse}
    (h : RecordedBy d tr cfg i q storageKey response) : executes i tr = true :=
  List.any_eq_true.mpr ⟨_, h.2.2, rfl⟩

theorem colon_executes : executes 1 (commits colonTable colonNamespace).1 = false := by
  decide

/-- The commit to `c` is answered with the receipt of the commit to `b:c`. -/
theorem replay_answers_other :
    ¬ ∀ (d : Deployment) (tr : List ReplayEvent) (cfg : ReplayConfig), ReplayRun d tr cfg →
      ∀ (j : Nat) (q : Request) (found answer : CachedResponse),
        cfg.calls[j]? = some ⟨q, .done (.ok (.replayed found answer))⟩ →
          ∃ i q' storageKey, RecordedBy d tr cfg i q' storageKey found ∧
            q'.body.operation.Same q.body.operation := by
  intro hall
  obtain ⟨i, q', storageKey, hrecorded, hsame⟩ := hall alone _ _
    (commits_run colonTable colonNamespace) 1 (committing colonNamespace) committed committed
    (commits_replayed colon_replayed)
  have hexecutes := executes_of_recordedBy hrecorded
  obtain ⟨⟨rest, hi⟩, -⟩ := hrecorded
  have hrequest := congrArg (·[i]?) (commits_calls colonTable colonNamespace)
  simp only [List.getElem?_map, hi] at hrequest
  match i, hrequest with
  | 0, hrequest =>
      cases hrequest
      exact absurd (Operation.commitTable.inj hsame) (by decide)
  | 1, hrequest =>
      rw [colon_executes] at hexecutes
      cases hexecutes
  | i + 2, hrequest => cases hrequest

end Rustberg.Idempotency.Replay
