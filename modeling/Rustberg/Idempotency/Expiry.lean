import Rustberg.Idempotency.Replay

/-!
# How long a receipt is replayed

`get` and `set` of `IdempotencyCache`, at any times and on any replicas. A
replica keeps what it inserts for one lifetime from then on, whether a `set` has
just recorded it or a `get` has read it through from the shared store. So a
receipt that is read through near its end outlives its row
(`receipt_outlives`); where no read finds it after its row has expired, none
is older than one lifetime (`receipts_expire`).
-/

namespace Rustberg.Idempotency.Expiry

open Process Replay

/-- What a replica's cache holds for a key. -/
structure Held where
  response : CachedResponse
  insertedAt : Int
  deriving DecidableEq

/-- The shared store with its clock, and the cache of every replica. -/
structure Caches where
  store : Store
  held : Nat → IdempotencyKey → Option Held

namespace Caches

def now (s : Caches) : Int := s.store.clock.millis

/-- `moka` with `time_to_live`: an entry is found for `ttl` from its insertion on. -/
def live (s : Caches) (ttl : Nat) (replica : Nat) (key : IdempotencyKey) : Option Held :=
  (s.held replica key).filter fun held => s.now < held.insertedAt + ttl

def insert (s : Caches) (replica : Nat) (key : IdempotencyKey) (response : CachedResponse) :
    Caches :=
  { s with held := fun i k =>
      if i = replica ∧ k = key then some ⟨response, s.now⟩ else s.held i k }

@[simp] theorem insert_store (s : Caches) (replica : Nat) (key : IdempotencyKey)
    (response : CachedResponse) : (s.insert replica key response).store = s.store := rfl

@[simp] theorem insert_held (s : Caches) (replica i : Nat) (key k : IdempotencyKey)
    (response : CachedResponse) : (s.insert replica key response).held i k =
      if i = replica ∧ k = key then some ⟨response, s.now⟩ else s.held i k := rfl

end Caches

/-- One effect of the cache. The calls of the shared store are the programs of its own. -/
def Sem (ttl : Nat) : (e : Replay.Effect) → Caches → e.Answer → Caches → Prop
  | .lookup replica key, s, r, s' => r = (s.live ttl replica key).map Held.response ∧ s' = s
  | .insert replica key response, s, _, s' => s' = s.insert replica key response
  | .select storageKey, s, r, s' =>
      Prog.Exec Idempotency.Sem (Idempotency.get storageKey) s.store r s'.store ∧ s'.held = s.held
  | .put storageKey response, s, r, s' => ∃ result,
      Prog.Exec Idempotency.Sem (Idempotency.put storageKey response ttl) s.store result s'.store ∧
        r = result.map (fun _ => ()) ∧ s'.held = s.held
  | _, s, _, s' => s' = s

inductive Call where
  | get (cache : IdempotencyCache) (key : IdempotencyKey)
  | set (cache : IdempotencyCache) (key : IdempotencyKey) (response : CachedResponse)

/-- A call, what it was answered, and the state before and after it. -/
structure CacheEvent where
  pre : Caches
  call : Call
  answer : Option CachedResponse
  post : Caches

/-- Time passes, and a cache evicts what it likes. -/
structure Passes (s s' : Caches) : Prop where
  store : Idempotency.Passes s.store s'.store
  held : ∀ replica key held, s'.held replica key = some held → s.held replica key = some held

/-- Calls at any times, from empty caches and an empty store. -/
inductive CacheRun (ttl : Nat) : List CacheEvent → Caches → Prop
  | start (clock : Instant) : CacheRun ttl [] ⟨⟨∅, clock⟩, fun _ _ => none⟩
  | get {tr : List CacheEvent} {s s' : Caches} {cache : IdempotencyCache} {key : IdempotencyKey}
      {answer : Option CachedResponse} (hr : CacheRun ttl tr s)
      (hexec : Prog.Exec (Sem ttl) (cache.get key) s answer s') :
      CacheRun ttl (tr ++ [⟨s, .get cache key, answer, s'⟩]) s'
  | set {tr : List CacheEvent} {s s' : Caches} {cache : IdempotencyCache} {key : IdempotencyKey}
      {response : CachedResponse} (hr : CacheRun ttl tr s)
      (hexec : Prog.Exec (Sem ttl) (cache.set key response) s () s') :
      CacheRun ttl (tr ++ [⟨s, .set cache key response, none, s'⟩]) s'
  | passes {tr : List CacheEvent} {s s' : Caches} (hr : CacheRun ttl tr s) (hpass : Passes s s') :
      CacheRun ttl tr s'

/-! ## The shared store -/

section

variable {s s' : Store} {storageKey : Text} {ttl : Nat}

/-- A select finds a row that has not expired. -/
theorem get_exec {r : Result} (h : Prog.Exec Idempotency.Sem (Idempotency.get storageKey) s r s') :
    s' = s ∧ ∀ response, r = .ok (some response) → ∃ row, s.rows[storageKey]? = some row ∧
      s.clock.millis < row.expiresAtMs ∧ row.response = .ok response := by
  obtain ⟨now, mid, ⟨rfl, rfl⟩, h⟩ := Prog.exec_perform.mp h
  obtain ⟨found, last, ⟨hfound, rfl⟩, h⟩ := Prog.exec_perform.mp h
  rcases hfound with rfl | ⟨e, rfl⟩
  · cases hselect : last.select storageKey last.clock.millis with
    | none =>
        rw [hselect] at h
        obtain ⟨rfl, rfl⟩ := Prog.exec_done.mp h
        exact ⟨rfl, fun response heq => by cases heq⟩
    | some row =>
        rw [hselect] at h
        obtain ⟨rfl, rfl⟩ := Prog.exec_done.mp h
        obtain ⟨hrow, hfresh⟩ := Option.filter_eq_some_iff.mp hselect
        refine ⟨rfl, fun response heq => ⟨row, hrow, of_decide_eq_true hfresh, ?_⟩⟩
        cases hread : row.response with
        | error e => rw [hread] at heq; cases heq
        | ok response' => rw [hread] at heq; cases heq; rfl
  · obtain ⟨rfl, rfl⟩ := Prog.exec_done.mp h
    exact ⟨rfl, fun response heq => by cases heq⟩

theorem insert_rows {row : Row} {key : Text} {found : Row}
    (h : (s.insert storageKey row).rows[key]? = some found) :
    s.rows[key]? = some found ∨ key = storageKey ∧ found = row := by
  unfold Store.insert at h
  simp only at h
  split at h
  · exact Or.inl h
  · rw [Relation.getElem?_insert] at h
    split at h
    · next heq => exact Or.inr ⟨heq.symm, (Option.some.inj h).symm⟩
    · exact Or.inl h

theorem erase_rows {keys : List Text} {rows : Relation Row} {key : Text} {found : Row}
    (h : (keys.foldl (fun rows key => rows.erase key) rows)[key]? = some found) :
    rows[key]? = some found := by
  induction keys generalizing rows with
  | nil => exact h
  | cons erased keys ih =>
      have hmid := ih h
      rw [Relation.getElem?_erase] at hmid
      split at hmid
      · cases hmid
      · exact hmid

/-- A put adds at most its own row. -/
theorem put_exec {response : CachedResponse} {r : Result}
    (h : Prog.Exec Idempotency.Sem (Idempotency.put storageKey response ttl) s r s') :
    s'.clock = s.clock ∧ ∀ (key : Text) row, s'.rows[key]? = some row → s.rows[key]? = some row ∨
      key = storageKey ∧ row = response.row (expiresAt s.clock.millis ttl) := by
  obtain ⟨now, start, ⟨rfl, rfl⟩, h⟩ := Prog.exec_perform.mp h
  obtain ⟨inserted, mid, hinsert, h⟩ := Prog.exec_perform.mp h
  have hmid : mid.clock = start.clock ∧ ∀ (key : Text) row, mid.rows[key]? = some row →
      start.rows[key]? = some row ∨
        key = storageKey ∧ row = response.row (expiresAt start.clock.millis ttl) := by
    refine ⟨Sem.clock hinsert, fun key row hrow => ?_⟩
    rcases hinsert with ⟨-, rfl⟩ | ⟨-, rfl | rfl⟩
    · exact insert_rows hrow
    · exact Or.inl hrow
    · exact insert_rows hrow
  cases inserted with
  | error e =>
      obtain ⟨-, rfl⟩ := Prog.exec_done.mp h
      exact hmid
  | ok v =>
      obtain ⟨pruned, last, hprune, h⟩ := Prog.exec_perform.mp h
      obtain ⟨-, rfl⟩ := Prog.exec_done.mp h
      refine ⟨(Sem.clock hprune).trans hmid.1, fun key row hrow => hmid.2 key row ?_⟩
      rcases hprune with ⟨-, rfl⟩ | ⟨keys, -, -, rfl⟩
      · exact hrow
      · exact erase_rows hrow

end

/-! ## The two levels -/

section

variable {s s' : Caches} {ttl : Nat} {cache : IdempotencyCache} {key : IdempotencyKey}

/-- A get answers from its replica's cache, or reads a row through that has not expired. -/
theorem cacheGet_exec {answer : Option CachedResponse}
    (h : Prog.Exec (Sem ttl) (cache.get key) s answer s') :
    (∃ held, s.live ttl cache.replica key = some held ∧ answer = some held.response ∧ s' = s) ∨
      s.live ttl cache.replica key = none ∧ ((answer = none ∧ s' = s) ∨
        ∃ row response, s.store.rows[key.storageKey]? = some row ∧ s.now < row.expiresAtMs ∧
          row.response = .ok response ∧ answer = some response ∧
            s' = s.insert cache.replica key response) := by
  obtain ⟨found, mid, ⟨rfl, rfl⟩, h⟩ := Prog.exec_perform.mp h
  cases hlive : mid.live ttl cache.replica key with
  | some held =>
      rw [hlive] at h
      obtain ⟨rfl, rfl⟩ := Prog.exec_done.mp h
      exact Or.inl ⟨held, rfl, rfl, rfl⟩
  | none =>
      rw [hlive] at h
      refine Or.inr ⟨rfl, ?_⟩
      simp only [Option.map_none] at h
      split at h
      · obtain ⟨r, last, ⟨hselect, hheld⟩, h⟩ := Prog.exec_perform.mp h
        obtain ⟨hstore, hrow⟩ := get_exec hselect
        obtain rfl : last = mid := by
          obtain ⟨store, held⟩ := last
          obtain rfl : store = mid.store := hstore
          obtain rfl : held = mid.held := hheld
          rfl
        rcases r with e | _ | response
        · obtain ⟨rfl, rfl⟩ := Prog.exec_done.mp h
          exact Or.inl ⟨rfl, rfl⟩
        · obtain ⟨rfl, rfl⟩ := Prog.exec_done.mp h
          exact Or.inl ⟨rfl, rfl⟩
        · obtain ⟨_, _, rfl, h⟩ := Prog.exec_perform.mp h
          obtain ⟨rfl, rfl⟩ := Prog.exec_done.mp h
          obtain ⟨row, hrow, hfresh, hread⟩ := hrow response rfl
          exact Or.inr ⟨row, response, hrow, hfresh, hread, rfl, rfl⟩
      · obtain ⟨rfl, rfl⟩ := Prog.exec_done.mp h
        exact Or.inl ⟨rfl, rfl⟩

/-- A set adds at most its own row, and its response to its replica's cache. -/
theorem cacheSet_exec {response : CachedResponse}
    (h : Prog.Exec (Sem ttl) (cache.set key response) s () s') :
    s'.store.clock = s.store.clock ∧ (∀ (k : Text) row, s'.store.rows[k]? = some row →
      s.store.rows[k]? = some row ∨
        k = key.storageKey ∧ row = response.row (expiresAt s.now ttl)) ∧
      s'.held = (s.insert cache.replica key response).held := by
  unfold IdempotencyCache.set at h
  simp only at h
  split at h
  · obtain ⟨r, mid, ⟨result, hput, -, hheld⟩, h⟩ := Prog.exec_perform.mp h
    obtain ⟨_, _, rfl, h⟩ := Prog.exec_perform.mp h
    obtain ⟨-, rfl⟩ := Prog.exec_done.mp h
    obtain ⟨hclock, hrows⟩ := put_exec hput
    refine ⟨hclock, hrows, ?_⟩
    simp only [Caches.insert, Caches.now, hclock, hheld]
  · obtain ⟨_, _, rfl, h⟩ := Prog.exec_perform.mp h
    obtain ⟨-, rfl⟩ := Prog.exec_done.mp h
    exact ⟨rfl, fun k row hrow => Or.inl hrow, rfl⟩

end

/-! ## Where a response comes from -/

/-- A set has recorded the response at `time`. -/
def RecordedAt (tr : List CacheEvent) (storageKey : Text) (response : CachedResponse) (time : Int) :
    Prop :=
  ∃ ev ∈ tr, ∃ cache key, ev.call = .set cache key response ∧ key.storageKey = storageKey ∧
    ev.pre.now = time

/-- The get read the entry through from `row`. -/
def ReadThrough (ev : CacheEvent) (ttl : Nat) (replica : Nat) (key : IdempotencyKey) (held : Held)
    (row : Row) : Prop :=
  (∃ cache, ev.call = .get cache key ∧ cache.replica = replica) ∧
    ev.pre.live ttl replica key = none ∧ ev.post.held replica key = some held ∧
      ev.pre.store.rows[key.storageKey]? = some row

/-- A get that finds what its replica has read through comes before the row it was read
from expires. -/
def ReadsInTime (ttl : Nat) (tr : List CacheEvent) : Prop :=
  ∀ tr₁ ev tr₂, tr = tr₁ ++ ev :: tr₂ → ∀ cache key, ev.call = .get cache key →
    ∀ held, ev.pre.live ttl cache.replica key = some held →
      ∀ reader ∈ tr₁, ∀ row, ReadThrough reader ttl cache.replica key held row →
        ev.pre.now < row.expiresAtMs

/-- Every row was put, and every entry set or read through. -/
structure Sourced (ttl : Nat) (tr : List CacheEvent) (s : Caches) : Prop where
  row : ∀ (key : Text) row, s.store.rows[key]? = some row → ∃ response time,
    RecordedAt tr key response time ∧ row = response.row (expiresAt time ttl)
  held : ∀ replica key held, s.held replica key = some held →
    RecordedAt tr key.storageKey held.response held.insertedAt ∨
      ∃ ev ∈ tr, ∃ row time, ReadThrough ev ttl replica key held row ∧
        RecordedAt tr key.storageKey held.response time ∧ row.expiresAtMs = expiresAt time ttl

theorem RecordedAt.append {tr tr' : List CacheEvent} {storageKey : Text} {response : CachedResponse}
    {time : Int} (h : RecordedAt tr storageKey response time) :
    RecordedAt (tr ++ tr') storageKey response time := by
  obtain ⟨ev, hev, hrest⟩ := h
  exact ⟨ev, List.mem_append_left _ hev, hrest⟩

theorem expiresAt_le {now : Int} (ttl : Nat) : expiresAt now ttl ≤ now + ttl := by
  unfold expiresAt saturatingAdd
  omega

section

variable {ttl : Nat} {tr : List CacheEvent} {s : Caches}

theorem Sourced.append (h : Sourced ttl tr s) (tr' : List CacheEvent) :
    Sourced ttl (tr ++ tr') s where
  row key row hrow := by
    obtain ⟨response, time, hrecorded, heq⟩ := h.row key row hrow
    exact ⟨response, time, hrecorded.append, heq⟩
  held replica key held hheld := by
    rcases h.held replica key held hheld with hset | ⟨ev, hev, row, time, hread, hrecorded, hrow⟩
    · exact Or.inl hset.append
    · exact Or.inr ⟨ev, List.mem_append_left _ hev, row, time, hread, hrecorded.append, hrow⟩

theorem CacheRun.sourced (hrun : CacheRun ttl tr s) : Sourced ttl tr s := by
  induction hrun with
  | start clock =>
      exact ⟨fun key row hrow => by simp at hrow, fun _ _ _ hheld => by cases hheld⟩
  | @get tr s s' cache key answer hr hexec ih =>
      rcases cacheGet_exec hexec with
        ⟨-, -, -, rfl⟩ | ⟨hlive, ⟨-, rfl⟩ | ⟨row, response, hrow, -, hread, rfl, rfl⟩⟩
      · exact ih.append _
      · exact ih.append _
      · refine ⟨(ih.append _).row, fun replica k held hheld => ?_⟩
        by_cases hsame : replica = cache.replica ∧ k = key
        · obtain ⟨rfl, rfl⟩ := hsame
          obtain ⟨recorded, time, hrecorded, rfl⟩ := ih.row _ row hrow
          rw [row_response] at hread
          cases hread
          have hpost : (s.insert cache.replica k response).held cache.replica k =
              some ⟨response, s.now⟩ := if_pos ⟨rfl, rfl⟩
          obtain rfl := Option.some.inj (hpost.symm.trans hheld)
          exact Or.inr ⟨_, List.mem_append_right _ (List.mem_singleton_self _), _, time,
            ⟨⟨cache, rfl, rfl⟩, hlive, hpost, hrow⟩, hrecorded.append, rfl⟩
        · exact (ih.append _).held replica k held
            (by rwa [Caches.insert_held, if_neg hsame] at hheld)
  | @set tr s s' cache key response hr hexec ih =>
      obtain ⟨-, hrows, hheld'⟩ := cacheSet_exec hexec
      have hself : RecordedAt (tr ++ [⟨s, .set cache key response, none, s'⟩]) key.storageKey
          response s.now :=
        ⟨_, List.mem_append_right _ (List.mem_singleton_self _), cache, key, rfl, rfl, rfl⟩
      refine ⟨fun k row hrow => ?_, fun replica k held hheld => ?_⟩
      · rcases hrows k row hrow with hold | ⟨rfl, rfl⟩
        · exact (ih.append _).row k row hold
        · exact ⟨response, s.now, hself, rfl⟩
      · rw [hheld'] at hheld
        by_cases hsame : replica = cache.replica ∧ k = key
        · obtain ⟨rfl, rfl⟩ := hsame
          rw [Caches.insert_held, if_pos ⟨rfl, rfl⟩] at hheld
          obtain rfl := Option.some.inj hheld
          exact Or.inl hself
        · exact (ih.append _).held replica k held
            (by rwa [Caches.insert_held, if_neg hsame] at hheld)
  | @passes tr s s' hr hpass ih =>
      refine ⟨fun key row hrow => ih.row key row ?_, fun replica key held hheld =>
        ih.held replica key held (hpass.held _ _ _ hheld)⟩
      rwa [hpass.store.1] at hrow

/-- The events of a run are its calls, each on what the calls before it have left. -/
theorem CacheRun.event {tr₁ tr₂ : List CacheEvent} {ev : CacheEvent}
    (hrun : CacheRun ttl (tr₁ ++ ev :: tr₂) s) :
    CacheRun ttl tr₁ ev.pre ∧ ∀ cache key, ev.call = .get cache key →
      Prog.Exec (Sem ttl) (cache.get key) ev.pre ev.answer ev.post := by
  generalize htr : tr₁ ++ ev :: tr₂ = tr at hrun
  induction hrun generalizing tr₂ with
  | start clock => simp at htr
  | @get tr s s' cache key answer hr hexec ih =>
      rcases List.eq_nil_or_concat' tr₂ with rfl | ⟨tr₂, last, rfl⟩
      · obtain ⟨rfl, hev⟩ := List.append_inj' htr rfl
        obtain rfl := List.singleton_inj.mp hev
        exact ⟨hr, fun cache' key' heq => by cases heq; exact hexec⟩
      · rw [← List.cons_append, ← List.append_assoc] at htr
        exact ih (List.append_inj' htr rfl).1
  | @set tr s s' cache key response hr hexec ih =>
      rcases List.eq_nil_or_concat' tr₂ with rfl | ⟨tr₂, last, rfl⟩
      · obtain ⟨rfl, hev⟩ := List.append_inj' htr rfl
        obtain rfl := List.singleton_inj.mp hev
        exact ⟨hr, fun cache' key' heq => by cases heq⟩
      · rw [← List.cons_append, ← List.append_assoc] at htr
        exact ih (List.append_inj' htr rfl).1
  | passes hr hpass ih => exact ih htr

end

/-- While what is read through is found only before its row expires: no get returns a
response recorded more than one lifetime earlier. -/
theorem receipts_expire (ttl : Nat) (tr₁ tr₂ : List CacheEvent) (ev : CacheEvent) (s : Caches)
    (hrun : CacheRun ttl (tr₁ ++ ev :: tr₂) s) (hreads : ReadsInTime ttl (tr₁ ++ ev :: tr₂))
    (cache : IdempotencyCache) (key : IdempotencyKey) (hget : ev.call = .get cache key)
    (response : CachedResponse) (hanswer : ev.answer = some response) :
    ∃ time, RecordedAt tr₁ key.storageKey response time ∧ ev.pre.now ≤ time + ttl := by
  obtain ⟨hbefore, hexec⟩ := hrun.event
  have hsourced := hbefore.sourced
  rcases cacheGet_exec (hexec cache key hget) with
    ⟨held, hlive, hheld, -⟩ | ⟨-, ⟨hnone, -⟩ | ⟨row, read, hrow, hfresh, hread, hresponse, -⟩⟩
  · obtain rfl : response = held.response := Option.some.inj (hanswer.symm.trans hheld)
    obtain ⟨hentry, hyoung⟩ := Option.filter_eq_some_iff.mp hlive
    rcases hsourced.held _ _ _ hentry with hset | ⟨reader, hmem, row, time, hread, hrecorded, hrow⟩
    · exact ⟨held.insertedAt, hset, le_of_lt (of_decide_eq_true hyoung)⟩
    · have hbefore := hreads tr₁ ev tr₂ rfl cache key hget held hlive reader hmem row hread
      rw [hrow] at hbefore
      exact ⟨time, hrecorded, (le_of_lt hbefore).trans (expiresAt_le ttl)⟩
  · rw [hanswer] at hnone
    cases hnone
  · obtain rfl : response = read := Option.some.inj (hanswer.symm.trans hresponse)
    obtain ⟨recorded, time, hrecorded, rfl⟩ := hsourced.row _ row hrow
    rw [row_response] at hread
    cases hread
    exact ⟨time, hrecorded, (le_of_lt hfresh).trans (expiresAt_le ttl)⟩

/-! ### A receipt read through near its end -/

/-- Nothing fails, and nothing is evicted. -/
def Caches.handle (ttl : Nat) : (e : Replay.Effect) → Caches → e.Answer × Caches
  | .lookup replica key, s => ((s.live ttl replica key).map Held.response, s)
  | .insert replica key response, s => ((), s.insert replica key response)
  | .select storageKey, s =>
      let (r, store) := (Idempotency.get storageKey).run (fun e s => Store.handle e s) s.store
      (r, { s with store })
  | .put storageKey response, s =>
      let (r, store) :=
        (Idempotency.put storageKey response ttl).run (fun e s => Store.handle e s) s.store
      (r.map fun _ => (), { s with store })
  | .confine _, s => (.ok (), s)
  | .authorize .., s => (.ok (), s)
  | .execute _, s => (.ok none, s)

theorem Caches.handle_sem (ttl : Nat) (e : Replay.Effect) (s : Caches) :
    Sem ttl e s (s.handle ttl e).1 (s.handle ttl e).2 := by
  cases e with
  | lookup replica key => exact ⟨rfl, rfl⟩
  | select storageKey => exact ⟨Prog.exec_run Store.handle_sem _ _, rfl⟩
  | put storageKey response => exact ⟨_, Prog.exec_run Store.handle_sem _ _, rfl, rfl⟩
  | _ => rfl

/-- A cache of one of two replicas, and a key. -/
def replica (i : Nat) : IdempotencyCache := ⟨i, true⟩

def commitKey : IdempotencyKey := ⟨"k".toList, "etl".toList⟩

def at₉ : Instant := ⟨9, by decide⟩

def at₁₅ : Instant := ⟨15, by decide⟩

def emptyCaches : Caches := ⟨⟨∅, at₀⟩, fun _ _ => none⟩

/-- Replica 0 records a response at 0 for ten milliseconds. -/
def recorded : Caches :=
  (((replica 0).set commitKey created).run (fun e s => Caches.handle 10 e s) emptyCaches).2

def Caches.later (s : Caches) (clock : Instant) : Caches :=
    { s with store := { s.store with clock } }

/-- Replica 1 has it at 9. -/
def readAt₉ : Option CachedResponse × Caches :=
  ((replica 1).get commitKey).run (fun e s => Caches.handle 10 e s) (recorded.later at₉)

/-- And again at 15. -/
def readAt₁₅ : Option CachedResponse × Caches :=
  ((replica 1).get commitKey).run (fun e s => Caches.handle 10 e s) (readAt₉.2.later at₁₅)

def setEvent : CacheEvent := ⟨emptyCaches, .set (replica 0) commitKey created, none, recorded⟩

def getEvent (s : Caches) (read : Option CachedResponse × Caches) : CacheEvent :=
  ⟨s, .get (replica 1) commitKey, read.1, read.2⟩

theorem recorded_run : CacheRun 10 [setEvent] recorded :=
  CacheRun.set (.start at₀) (Prog.exec_run (Caches.handle_sem 10) _ _)

theorem later_passes {s : Caches} {clock : Instant} (h : s.store.clock.millis ≤ clock.millis) :
    Passes s (s.later clock) := ⟨⟨rfl, h⟩, fun _ _ _ hheld => hheld⟩

theorem readAt₉_run :
    CacheRun 10 ([setEvent] ++ [getEvent (recorded.later at₉) readAt₉]) readAt₉.2 :=
  (recorded_run.passes (later_passes (by decide))).get (Prog.exec_run (Caches.handle_sem 10) _ _)

theorem readAt₁₅_run : CacheRun 10 ([setEvent] ++ [getEvent (recorded.later at₉) readAt₉] ++
    [getEvent (readAt₉.2.later at₁₅) readAt₁₅]) readAt₁₅.2 :=
  (readAt₉_run.passes (later_passes (by decide))).get (Prog.exec_run (Caches.handle_sem 10) _ _)

theorem readAt₉_found : readAt₉.1 = some created := by decide +kernel

theorem readAt₁₅_found : readAt₁₅.1 = some created := by decide +kernel

def at₅ : Instant := ⟨5, by decide⟩

/-- Replica 1 reads it through at 5. -/
def readAt₅ : Option CachedResponse × Caches :=
  ((replica 1).get commitKey).run (fun e s => Caches.handle 10 e s) (recorded.later at₅)

/-- And finds it in its own cache at 9. -/
def foundAt₉ : Option CachedResponse × Caches :=
  ((replica 1).get commitKey).run (fun e s => Caches.handle 10 e s) (readAt₅.2.later at₉)

def readEvent : CacheEvent := getEvent (recorded.later at₅) readAt₅

def foundEvent : CacheEvent := getEvent (readAt₅.2.later at₉) foundAt₉

theorem readAt₅_run : CacheRun 10 ([setEvent] ++ [readEvent]) readAt₅.2 :=
  (recorded_run.passes (later_passes (by decide))).get (Prog.exec_run (Caches.handle_sem 10) _ _)

theorem foundAt₉_run : CacheRun 10 ([setEvent] ++ [readEvent] ++ [foundEvent]) foundAt₉.2 :=
  (readAt₅_run.passes (later_passes (by decide))).get (Prog.exec_run (Caches.handle_sem 10) _ _)

theorem foundAt₉_found : foundAt₉.1 = some created := by decide +kernel

theorem recorded_none : (recorded.later at₅).live 10 1 commitKey = none := by decide +kernel

theorem readAt₅_live : (readAt₅.2.later at₉).live 10 1 commitKey ≠ none := by decide +kernel

theorem recorded_expires : (recorded.later at₅).store.rows[commitKey.storageKey]?.map
    Row.expiresAtMs = some 10 := by decide +kernel

/-- The first get finds nothing in the cache, and the second comes a millisecond before the
row it was read from expires. -/
theorem foundAt₉_readsInTime : ReadsInTime 10 ([setEvent] ++ [readEvent] ++ [foundEvent]) := by
  intro tr₁ ev tr₂ htr cache key hget held hlive reader hreader row hread
  have hmem : ∀ ev' ∈ tr₁ ++ ev :: tr₂, ev' = setEvent ∨ ev' = readEvent ∨ ev' = foundEvent := by
    rw [← htr]
    simp
  obtain ⟨⟨cache', hcall, hreplica⟩, hnone, -, hrow⟩ := hread
  rcases hmem reader (List.mem_append_left _ hreader) with rfl | rfl | rfl
  · cases hcall
  · cases hcall
    have hexpires := recorded_expires
    rw [show (recorded.later at₅).store.rows[commitKey.storageKey]? = some row from hrow,
      Option.map_some, Option.some.injEq] at hexpires
    rcases hmem ev (by simp) with rfl | rfl | rfl
    · cases hget
    · cases hget
      cases recorded_none.symm.trans hlive
    · rw [hexpires]
      decide
  · cases hcall
    rw [← hreplica] at hnone
    exact absurd hnone readAt₅_live

theorem receipts_expire_found : (readAt₅.2.later at₉).live 10 1 commitKey ≠ none ∧
    ∃ time, RecordedAt ([setEvent] ++ [readEvent]) commitKey.storageKey created time ∧
      foundEvent.pre.now ≤ time + 10 :=
  ⟨readAt₅_live, receipts_expire 10 _ [] foundEvent foundAt₉.2 foundAt₉_run foundAt₉_readsInTime
    (replica 1) commitKey rfl created foundAt₉_found⟩

/-- What was recorded at 0 for ten milliseconds is replayed at 15. -/
theorem receipt_outlives :
    ¬ ∀ (ttl : Nat) (tr₁ tr₂ : List CacheEvent) (ev : CacheEvent) (s : Caches),
      CacheRun ttl (tr₁ ++ ev :: tr₂) s → ∀ cache key, ev.call = .get cache key →
        ∀ response, ev.answer = some response →
          ∃ time, RecordedAt tr₁ key.storageKey response time ∧ ev.pre.now ≤ time + ttl := by
  intro hall
  obtain ⟨time, ⟨ev, hev, cache, key, hset, -, rfl⟩, hyoung⟩ := hall 10 _ [] _ _ readAt₁₅_run
    (replica 1) commitKey rfl created readAt₁₅_found
  rcases List.mem_append.mp hev with hev | hev
  · obtain rfl := List.mem_singleton.mp hev
    exact absurd hyoung (by decide)
  · obtain rfl := List.mem_singleton.mp hev
    cases hset

end Rustberg.Idempotency.Expiry
