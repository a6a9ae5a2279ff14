import Rustberg.Auth.Principals
import Rustberg.Base.Index

/-!
# The API key store

`InMemoryApiKeyStore` of `auth/store.rs`: four maps, of which two are
indexes over fields of the stored keys. `store` pushes the id without
looking whether it is stored, and `update` replaces the key without
looking at the indexes; `delete` takes the id out of the lists under the
values the key has when it is deleted.

`Indexed` is the invariant, and `Indexed.step_iff` says which calls keep
it: exactly those after which the answers are still those of the stored
keys. `answers_exact_iff` is the statement over every run, and
`replaced_twice` the replacement that is answered twice.
-/

namespace Rustberg.Auth

/-- Every field of an `ApiKey`: those a principal is made from, and the rest.
A time is the number of its instant. -/
structure StoredApiKey extends ApiKey where
  id : Text
  keyPrefix : Text
  keyHash : Text
  enabled : Bool
  createdAt : Int
  expiresAt : Option Int
  lastUsedAt : Option Int
  usageCount : UInt64
  description : Option Text
  deriving DecidableEq

structure InMemoryApiKeyStore where
  keysById : Relation StoredApiKey
  keysByPrefix : Index
  keysByTenant : Index
  usageCounters : Relation UInt64

def keyNotFound : Text := "API key not found".toList

namespace InMemoryApiKeyStore

def new : InMemoryApiKeyStore := ⟨∅, ∅, ∅, ∅⟩

variable (s : InMemoryApiKeyStore)

def storeSync (key : StoredApiKey) : InMemoryApiKeyStore where
  keysById := s.keysById.insert key.id key
  keysByPrefix := s.keysByPrefix.push key.keyPrefix key.id
  keysByTenant := s.keysByTenant.push key.tenantId key.id
  usageCounters := s.usageCounters.insert key.id 0

def withKeys (keys : List StoredApiKey) : InMemoryApiKeyStore := keys.foldl storeSync new

def getByPrefix (keyPrefix : Text) : List StoredApiKey :=
  Index.answer s.keysById s.keysByPrefix keyPrefix

def getById (id : Text) : Option StoredApiKey := s.keysById[id]?

def listForTenant (tenantId : Text) : List StoredApiKey :=
  Index.answer s.keysById s.keysByTenant tenantId

/-! ## The calls

Each is refused before it has changed anything, or succeeds. -/

def store (key : StoredApiKey) : Except Text InMemoryApiKeyStore := .ok (s.storeSync key)

def update (key : StoredApiKey) : Except Text InMemoryApiKeyStore :=
  match s.keysById[key.id]? with
  | none => .error keyNotFound
  | some _ => .ok { s with keysById := s.keysById.insert key.id key }

def delete (id : Text) : Except Text InMemoryApiKeyStore :=
  match s.keysById[id]? with
  | none => .error keyNotFound
  | some key =>
      .ok {
        keysById := s.keysById.erase id
        keysByPrefix := s.keysByPrefix.withdraw key.keyPrefix id
        keysByTenant := s.keysByTenant.withdraw key.tenantId id
        usageCounters := s.usageCounters.erase id }

/-- The counter wraps; the key is touched only where there is one. -/
def recordUsage (now : Int) (id : Text) : Except Text InMemoryApiKeyStore :=
  match s.usageCounters[id]? with
  | none => .error keyNotFound
  | some counter =>
      let usageCounters := s.usageCounters.insert id (counter + 1)
      match s.keysById[id]? with
      | none => .ok { s with usageCounters }
      | some key =>
          let key := { key with lastUsedAt := some now, usageCount := counter + 1 }
          .ok { s with keysById := s.keysById.insert id key, usageCounters }

/-- What `disable` and `enable` do, with the flag they set. -/
def setEnabled (enabled : Bool) (id : Text) : Except Text InMemoryApiKeyStore :=
  match s.keysById[id]? with
  | none => .error keyNotFound
  | some key => .ok { s with keysById := s.keysById.insert id { key with enabled } }

def disable (id : Text) : Except Text InMemoryApiKeyStore := s.setEnabled false id

def enable (id : Text) : Except Text InMemoryApiKeyStore := s.setEnabled true id

inductive Call where
  | store (key : StoredApiKey)
  | update (key : StoredApiKey)
  | delete (id : Text)
  | recordUsage (now : Int) (id : Text)
  | disable (id : Text)
  | enable (id : Text)

def Call.answer : Call → Except Text InMemoryApiKeyStore
  | .store key => s.store key
  | .update key => s.update key
  | .delete id => s.delete id
  | .recordUsage now id => s.recordUsage now id
  | .disable id => s.disable id
  | .enable id => s.enable id

/-- The store after a call: as it was, where the call is refused. -/
def step (call : Call) : InMemoryApiKeyStore :=
  match call.answer s with
  | .ok s' => s'
  | .error _ => s

/-- The store after a run of calls, from an empty one. -/
def run (calls : List Call) : InMemoryApiKeyStore := calls.foldl step new

theorem run_snoc (calls : List Call) (call : Call) :
    run (calls ++ [call]) = (run calls).step call := by
  simp [run]

theorem withKeys_eq_run (keys : List StoredApiKey) : withKeys keys = run (keys.map .store) := by
  unfold withKeys run
  rw [List.foldl_map]
  rfl

/-! ## What a call does to the keys and their indexes -/

/-- The calls that keep the indexes exact: a stored key's id is new, and an
updated key has the prefix and the tenant it is indexed under. -/
def Call.Keeps (s : InMemoryApiKeyStore) : Call → Prop
  | .store key => s.getById key.id = none
  | .update key => ∀ old, s.getById key.id = some old →
      key.keyPrefix = old.keyPrefix ∧ key.tenantId = old.tenantId
  | _ => True

/-- The ways a call changes the keys and their indexes. -/
inductive Moved : Call → InMemoryApiKeyStore → Prop
  | same {call : Call} (usageCounters : Relation UInt64) (hkeeps : call.Keeps s) :
      Moved call { s with usageCounters }
  | stored (key : StoredApiKey) : Moved (.store key) (s.storeSync key)
  | updated {key old : StoredApiKey} (hold : s.keysById[key.id]? = some old) :
      Moved (.update key) { s with keysById := s.keysById.insert key.id key }
  | touched {call : Call} {id : Text} {old key : StoredApiKey} (usageCounters : Relation UInt64)
      (hkeeps : call.Keeps s) (hold : s.keysById[id]? = some old) (hid : key.id = old.id)
      (hlookup : key.keyPrefix = old.keyPrefix) (htenant : key.tenantId = old.tenantId) :
      Moved call { s with keysById := s.keysById.insert id key, usageCounters }
  | deleted {id : Text} {key : StoredApiKey} (hkey : s.keysById[id]? = some key) :
      Moved (.delete id) {
        keysById := s.keysById.erase id
        keysByPrefix := s.keysByPrefix.withdraw key.keyPrefix id
        keysByTenant := s.keysByTenant.withdraw key.tenantId id
        usageCounters := s.usageCounters.erase id }

theorem moved_setEnabled (enabled : Bool) (id : Text) {call : Call} (hkeeps : call.Keeps s)
    (hcall : call.answer s = s.setEnabled enabled id) : Moved s call (s.step call) := by
  simp only [step, hcall, setEnabled]
  cases hkey : s.keysById[id]? with
  | none => exact .same s.usageCounters hkeeps
  | some old => exact .touched s.usageCounters hkeeps hkey rfl rfl rfl

theorem moved_step (call : Call) : Moved s call (s.step call) := by
  cases call with
  | store key => exact .stored key
  | update key =>
      simp only [step, Call.answer, update]
      cases hkey : s.keysById[key.id]? with
      | none =>
          have hvacuous : (Call.update key).Keeps s := fun old hold => by
            rw [getById, hkey] at hold
            cases hold
          exact .same s.usageCounters hvacuous
      | some old => exact .updated hkey
  | delete id =>
      have hkeeps : (Call.delete id).Keeps s := trivial
      simp only [step, Call.answer, delete]
      cases hkey : s.keysById[id]? with
      | none => exact .same s.usageCounters hkeeps
      | some key => exact .deleted hkey
  | recordUsage now id =>
      have hkeeps : (Call.recordUsage now id).Keeps s := trivial
      simp only [step, Call.answer, recordUsage]
      cases s.usageCounters[id]? with
      | none => exact .same s.usageCounters hkeeps
      | some counter =>
          cases hkey : s.keysById[id]? with
          | none => exact .same _ hkeeps
          | some old => exact .touched _ hkeeps hkey rfl rfl rfl
  | disable id => exact moved_setEnabled s false id trivial rfl
  | enable id => exact moved_setEnabled s true id trivial rfl

variable {s}

/-- An id without a key stays so under every call but a store of it. -/
theorem keysById_step_none {call : Call} {id : Text} (hnone : s.keysById[id]? = none)
    (hstore : ∀ key, call = .store key → key.id ≠ id) : (s.step call).keysById[id]? = none := by
  generalize hs' : s.step call = s'
  have hmoved : Moved s call s' := hs' ▸ moved_step s call
  have hne {a : Text} {old : StoredApiKey} (hold : s.keysById[a]? = some old) : a ≠ id := by
    rintro rfl
    rw [hnone] at hold
    cases hold
  cases hmoved with
  | same => exact hnone
  | stored key =>
      show (s.keysById.insert key.id key)[id]? = none
      rw [Relation.getElem?_insert, if_neg (hstore key rfl), hnone]
  | updated hold => rw [Relation.getElem?_insert, if_neg (hne hold), hnone]
  | touched _ _ hold => rw [Relation.getElem?_insert, if_neg (hne hold), hnone]
  | deleted hkey => rw [Relation.getElem?_erase, if_neg (hne hkey), hnone]

/-- Each key is stored under its own id, whatever the calls. -/
theorem keyed_step (call : Call) (h : Index.Keyed s.keysById (·.id)) :
    Index.Keyed (s.step call).keysById (·.id) := by
  generalize hs' : s.step call = s'
  have hmoved : Moved s call s' := hs' ▸ moved_step s call
  cases hmoved with
  | same => exact h
  | stored key => exact h.insert key
  | @updated key _ _ => exact h.insert key
  | @touched _ id old key _ _ hold hid _ _ =>
      obtain rfl : key.id = id := hid.trans (h id old hold)
      exact h.insert key
  | deleted => exact h.erase _

/-! ## The invariant -/

structure Indexed (s : InMemoryApiKeyStore) : Prop where
  keyed : Index.Keyed s.keysById (·.id)
  byPrefix : Index.IndexOf s.keysById (·.keyPrefix) s.keysByPrefix
  byTenant : Index.IndexOf s.keysById (·.tenantId) s.keysByTenant

/-- Both lookups answer exactly the stored keys that have the value, each once. -/
structure AnswersExact (s : InMemoryApiKeyStore) : Prop where
  byPrefix : ∀ keyPrefix, (s.getByPrefix keyPrefix).Nodup ∧ ∀ key,
    key ∈ s.getByPrefix keyPrefix ↔ (∃ id, s.getById id = some key) ∧ key.keyPrefix = keyPrefix
  byTenant : ∀ tenantId, (s.listForTenant tenantId).Nodup ∧ ∀ key,
    key ∈ s.listForTenant tenantId ↔ (∃ id, s.getById id = some key) ∧ key.tenantId = tenantId

namespace Indexed

theorem new : Indexed new where
  keyed id key hkey := by simp [InMemoryApiKeyStore.new] at hkey
  byPrefix := .empty _
  byTenant := .empty _

theorem answersExact (h : Indexed s) : AnswersExact s where
  byPrefix := h.byPrefix.exact h.keyed
  byTenant := h.byTenant.exact h.keyed

theorem step (h : Indexed s) {call : Call} (hkeeps : call.Keeps s) : Indexed (s.step call) := by
  have hkeyed := keyed_step call h.keyed
  generalize hs' : s.step call = s' at hkeyed ⊢
  have hmoved : Moved s call s' := hs' ▸ moved_step s call
  cases hmoved with
  | same => exact ⟨hkeyed, h.byPrefix, h.byTenant⟩
  | stored key =>
      exact ⟨hkeyed, h.byPrefix.insert_new key hkeeps, h.byTenant.insert_new key hkeeps⟩
  | @updated key old hold =>
      obtain ⟨hlookup, htenant⟩ := hkeeps old hold
      exact ⟨hkeyed, h.byPrefix.replace key hold hlookup, h.byTenant.replace key hold htenant⟩
  | @touched _ _ _ key _ _ hold _ hlookup htenant =>
      exact ⟨hkeyed, h.byPrefix.replace key hold hlookup, h.byTenant.replace key hold htenant⟩
  | deleted hkey => exact ⟨hkeyed, h.byPrefix.erase hkey, h.byTenant.erase hkey⟩

/-- The answers stay exact under the calls that keep them, and under no other. -/
theorem step_iff (h : Indexed s) (call : Call) :
    AnswersExact (s.step call) ↔ call.Keeps s := by
  refine ⟨fun hexact => ?_, fun hkeeps => (h.step hkeeps).answersExact⟩
  generalize hs' : s.step call = s' at hexact
  have hmoved : Moved s call s' := hs' ▸ moved_step s call
  cases hmoved with
  | same _ hkeeps => exact hkeeps
  | stored key => exact h.byPrefix.new_id hexact.byPrefix
  | @updated key old hold =>
      intro other hother
      obtain rfl : old = other := Option.some.inj (hold.symm.trans hother)
      exact ⟨h.byPrefix.field_eq hold (List.Subset.refl _) hexact.byPrefix,
        h.byTenant.field_eq hold (List.Subset.refl _) hexact.byTenant⟩
  | touched _ hkeeps => exact hkeeps
  | deleted => trivial

end Indexed

/-! ## Runs -/

theorem keyed_run (calls : List Call) : Index.Keyed (run calls).keysById (·.id) := by
  induction calls using List.reverseRecOn with
  | nil => exact Indexed.new.keyed
  | append_singleton calls call ih =>
      rw [run_snoc]
      exact keyed_step call ih

/-- `id` was deleted, and not stored again since. -/
def Deleted (calls : List Call) (id : Text) : Prop :=
  ∃ before after, calls = before ++ .delete id :: after ∧ ∀ key, .store key ∈ after → key.id ≠ id

theorem keysById_delete (s : InMemoryApiKeyStore) (id : Text) :
    (s.step (.delete id)).keysById[id]? = none := by
  simp only [step, Call.answer, delete]
  cases hkey : s.keysById[id]? with
  | none => exact hkey
  | some key =>
      show (s.keysById.erase id)[id]? = none
      rw [Relation.getElem?_erase, if_pos rfl]

theorem keysById_deleted {calls : List Call} {id : Text} (h : Deleted calls id) :
    (run calls).keysById[id]? = none := by
  obtain ⟨before, after, rfl, hafter⟩ := h
  induction after using List.reverseRecOn with
  | nil =>
      rw [run_snoc]
      exact keysById_delete _ id
  | append_singleton after call ih =>
      rw [← List.cons_append, ← List.append_assoc, run_snoc]
      refine keysById_step_none (ih fun key hkey => hafter key (List.mem_append_left _ hkey)) ?_
      rintro key rfl
      exact hafter key (by simp)

/-- A deleted id is in no answer. -/
theorem deleted_unanswered {calls : List Call} {id : Text} (h : Deleted calls id) (value : Text) :
    (∀ key ∈ (run calls).getByPrefix value, key.id ≠ id)
      ∧ ∀ key ∈ (run calls).listForTenant value, key.id ≠ id := by
  have hne {index : Index} {key : StoredApiKey}
      (hkey : key ∈ Index.answer (run calls).keysById index value) : key.id ≠ id := by
    obtain ⟨other, _, hother⟩ := Index.mem_answer.mp hkey
    have hid : key.id = other := keyed_run calls other key hother
    rintro rfl
    rw [← hid, keysById_deleted h] at hother
    cases hother
  exact ⟨fun key hkey => hne hkey, fun key hkey => hne hkey⟩

/-- In every state of a run the lookups answer exactly the stored keys that have the
value, each once, and no deleted one, if and only if no call stored a stored id again or
updated a key's prefix or tenant. -/
theorem answers_exact_iff (calls : List Call) :
    (∀ before, before <+: calls → AnswersExact (run before) ∧ ∀ id, Deleted before id → ∀ value,
        (∀ key ∈ (run before).getByPrefix value, key.id ≠ id)
          ∧ ∀ key ∈ (run before).listForTenant value, key.id ≠ id)
      ↔ ∀ before call, before ++ [call] <+: calls → call.Keeps (run before) := by
  constructor
  · intro hexact before call hbefore
    have hindexed : Indexed (run before) := by
      have hearlier : before <+: calls := (List.prefix_append _ _).trans hbefore
      clear hbefore
      induction before using List.reverseRecOn with
      | nil => exact .new
      | append_singleton before earlier ih =>
          have hindexed := ih ((List.prefix_append _ _).trans hearlier)
          have hstep := (hexact _ hearlier).1
          rw [run_snoc] at hstep ⊢
          exact hindexed.step ((hindexed.step_iff earlier).mp hstep)
    have hstep := (hexact _ hbefore).1
    rw [run_snoc] at hstep
    exact (hindexed.step_iff call).mp hstep
  · intro hkeeps before hbefore
    refine ⟨?_, fun id hid value => deleted_unanswered hid value⟩
    have hindexed : Indexed (run before) := by
      induction before using List.reverseRecOn with
      | nil => exact .new
      | append_singleton before call ih =>
          rw [run_snoc]
          exact (ih ((List.prefix_append _ _).trans hbefore)).step (hkeeps before call hbefore)
    exact hindexed.answersExact

/-! ## A key stored twice, and one that moved -/

def salesKey : StoredApiKey where
  name := "reader".toList
  tenantId := "sales".toList
  roles := []
  id := "7c1d".toList
  keyPrefix := "abcd1234".toList
  keyHash := "hash".toList
  enabled := true
  createdAt := 0
  expiresAt := none
  lastUsedAt := none
  usageCount := 0
  description := none

def movedKey : StoredApiKey := { salesKey with tenantId := "audit".toList }

/-- A key stored again is answered twice, and one whose tenant was updated is
listed for the tenant it had. -/
theorem replaced_twice :
    ¬ AnswersExact (run [.store salesKey, .store salesKey])
      ∧ (run [.store salesKey, .store salesKey]).getByPrefix salesKey.keyPrefix
        = [salesKey, salesKey]
      ∧ (run [.store salesKey, .update movedKey]).listForTenant salesKey.tenantId = [movedKey]
      ∧ movedKey.tenantId ≠ salesKey.tenantId := by
  have htwice : (run [.store salesKey, .store salesKey]).getByPrefix salesKey.keyPrefix
      = [salesKey, salesKey] := by
    show Index.answer (((∅ : Relation StoredApiKey).insert salesKey.id salesKey).insert
      salesKey.id salesKey) ((Index.push ∅ salesKey.keyPrefix salesKey.id).push
        salesKey.keyPrefix salesKey.id) salesKey.keyPrefix = _
    simp [Index.answer_eq, Index.listed_push, Relation.getElem?_insert]
  have hfound : (run [.store salesKey]).keysById[movedKey.id]? = some salesKey := by
    show ((∅ : Relation StoredApiKey).insert salesKey.id salesKey)[salesKey.id]? = _
    rw [Relation.getElem?_insert, if_pos rfl]
  have hmoved : run [.store salesKey, .update movedKey]
      = { run [.store salesKey] with
          keysById := (run [.store salesKey]).keysById.insert movedKey.id movedKey } := by
    show (run [.store salesKey]).step (.update movedKey) = _
    simp only [step, Call.answer, update, hfound]
  refine ⟨fun hexact => ?_, htwice, ?_, by decide⟩
  · have hnodup := (hexact.byPrefix salesKey.keyPrefix).1
    rw [htwice] at hnodup
    simp at hnodup
  · rw [hmoved]
    show Index.answer (((∅ : Relation StoredApiKey).insert salesKey.id salesKey).insert
      salesKey.id movedKey) (Index.push ∅ salesKey.tenantId salesKey.id) salesKey.tenantId = _
    simp [Index.answer_eq, Index.listed_push, Relation.getElem?_insert]

end InMemoryApiKeyStore

end Rustberg.Auth
