import Rustberg.Base.Process
import Rustberg.Base.Relation

/-!
# Idempotency receipts in Postgres

`put` and `get` of the shared idempotency store (`catalog/postgres.rs`), as
programs over the clock and one table that any number of replicas share. A
row is inserted where its key has none, read while it has not expired, and
pruned some time after.

`receipt_returned` is when a receipt is durable: its key had no row at all
when it was inserted. A row that has expired and is still there keeps the new
receipt out and is then pruned (`receipt_lost`).
-/

namespace Rustberg.Idempotency

open Process

/-- `axum::http::StatusCode` -/
structure StatusCode where
  code : Nat
  valid : 100 ≤ code ∧ code < 1000
  deriving DecidableEq

theorem StatusCode.ok_valid : 100 ≤ 200 ∧ 200 < 1000 := by decide

/-- `StatusCode::from_u16` -/
def StatusCode.fromU16 (code : Nat) : Option StatusCode :=
  if h : 100 ≤ code ∧ code < 1000 then some ⟨code, h⟩ else none

/-- When it was cached is not recorded. -/
structure CachedResponse where
  status : StatusCode
  body : List UInt8
  contentType : Option Text
  deriving DecidableEq

/-! ## Time -/

def i64Max : Int := 2 ^ 63 - 1

/-- `i64::saturating_add` on what is not negative. -/
def saturatingAdd (a b : Int) : Int := min (a + b) i64Max

/-- Milliseconds since the epoch, as an `i64` holds them. -/
structure Instant where
  millis : Int
  inRange : 0 ≤ millis ∧ millis ≤ i64Max
  deriving DecidableEq

/-- When a receipt put at `now` expires; `ttl` is in milliseconds. -/
def expiresAt (now : Int) (ttl : Nat) : Int := saturatingAdd now (min (ttl : Int) i64Max)

/-! ## The table -/

/-- A row of `rustberg_idempotency`. -/
structure Row where
  status : Int
  contentType : Option Text
  body : List UInt8
  expiresAtMs : Int
  deriving DecidableEq

def CachedResponse.row (response : CachedResponse) (expiresAtMs : Int) : Row :=
  ⟨response.status.code, response.contentType, response.body, expiresAtMs⟩

/-- A row as `get` reads it. -/
def Row.response (row : Row) : Except Text CachedResponse :=
  match StatusCode.fromU16 (row.status % 2 ^ 16).toNat with
  | some status => .ok ⟨status, row.body, row.contentType⟩
  | none =>
      .error ("recorded status ".toList ++ Text.integer row.status ++
        " is not a status code".toList)

/-- A clock reading, and the three statements. -/
inductive Sql where
  | now
  | select (key : Text) (now : Int)
  | insert (key : Text) (row : Row)
  | prune (now : Int)

abbrev Sql.Answer : Sql → Type
  | .now => Instant
  | .select .. => Except Text (Option Row)
  | .insert .. => Except Text Unit
  | .prune _ => Except Text Unit

abbrev Past := Prog.History Sql Sql.Answer

/-- What a call ends with. -/
abbrev Result := Except Text (Option CachedResponse)

def get (key : Text) : Prog Sql Sql.Answer Result :=
  .perform .now fun now => .perform (.select key now.millis) fun
    | .error e => .done (.error e)
    | .ok none => .done (.ok none)
    | .ok (some row) => .done (row.response.map some)

def put (key : Text) (response : CachedResponse) (ttl : Nat) : Prog Sql Sql.Answer Result :=
  .perform .now fun now =>
    .perform (.insert key (response.row (expiresAt now.millis ttl))) fun
      | .error e => .done (.error e)
      -- Pruning is opportunistic: whether it succeeds is not looked at.
      | .ok () => .perform (.prune now.millis) fun _ => .done (.ok none)

/-! ## Replicas -/

structure Store where
  rows : Relation Row
  clock : Instant

/-- Most rows one `put` prunes. -/
def pruneLimit : Nat := 100

/-- `INSERT … ON CONFLICT (key) DO NOTHING` -/
def Store.insert (store : Store) (key : Text) (row : Row) : Store :=
  { store with rows := if key ∈ store.rows then store.rows else store.rows.insert key row }

/-- The rows `key` has for `get` at `now`. -/
def Store.select (store : Store) (key : Text) (now : Int) : Option Row :=
  store.rows[key]?.filter fun row => now < row.expiresAtMs

/-- One statement on the shared table. A statement that fails may have been
carried out all the same; which of the expired rows are pruned is Postgres' choice. -/
def Sem : (e : Sql) → Store → e.Answer → Store → Prop
  | .now, s, r, s' => r = s.clock ∧ s' = s
  | .select key now, s, r, s' => (r = .ok (s.select key now) ∨ ∃ e, r = .error e) ∧ s' = s
  | .insert key row, s, r, s' =>
      (r = .ok () ∧ s' = s.insert key row) ∨ (∃ e, r = .error e) ∧ (s' = s ∨ s' = s.insert key row)
  | .prune now, s, r, s' =>
      ((∃ e, r = .error e) ∧ s' = s) ∨ ∃ keys : List Text, keys.length ≤ pruneLimit ∧
        (∀ key ∈ keys, ∃ row, s.rows[key]? = some row ∧ row.expiresAtMs ≤ now) ∧
          s' = { s with rows := keys.foldl (fun rows key => rows.erase key) s.rows }

/-- One statement that does not fail. -/
def Store.handle : (e : Sql) → Store → e.Answer × Store
  | .now, s => (s.clock, s)
  | .select key now, s => (.ok (s.select key now), s)
  | .insert key row, s => (.ok (), s.insert key row)
  | .prune now, s =>
      let expired := s.rows.toList.filter fun (_, row) => row.expiresAtMs ≤ now
      (.ok (), { s with
        rows :=
          ((expired.map Prod.fst).take pruneLimit).foldl (fun rows key => rows.erase key) s.rows })

theorem Store.handle_sem (e : Sql) (s : Store) : Sem e s (s.handle e).1 (s.handle e).2 := by
  cases e with
  | now => exact ⟨rfl, rfl⟩
  | select key now => exact ⟨Or.inl rfl, rfl⟩
  | insert key row => exact Or.inl ⟨rfl, rfl⟩
  | prune now =>
      refine Or.inr ⟨_, List.length_take_le .., fun key hkey => ?_, rfl⟩
      obtain ⟨⟨key, row⟩, hrow, rfl⟩ := List.mem_map.mp (List.mem_of_mem_take hkey)
      obtain ⟨hmem, hexpired⟩ := List.mem_filter.mp hrow
      exact ⟨row, Std.ExtTreeMap.mem_toList_iff_getElem?_eq_some.mp hmem,
        of_decide_eq_true hexpired⟩

/-- Time passes. -/
def Passes (s s' : Store) : Prop := s'.rows = s.rows ∧ s.clock.millis ≤ s'.clock.millis

inductive Request where
  | get (key : Text)
  | put (key : Text) (response : CachedResponse) (ttl : Nat)

def Request.serve : Request → Prog Sql Sql.Answer Result
  | .get key => Idempotency.get key
  | .put key response ttl => Idempotency.put key response ttl

abbrev StoreConfig := Config Sql Sql.Answer Result Store Request

abbrev StoreEvent := Event Sql Sql.Answer Store Request

/-- Any number of calls from any number of replicas on one table. -/
abbrev StoreRun (start : StoreConfig) (tr : List StoreEvent) (cfg : StoreConfig) : Prop :=
  Run Request.serve Sem Passes start tr cfg

/-! ## A row, once there -/

theorem StatusCode.fromU16_code (status : StatusCode) :
    StatusCode.fromU16 status.code = some status := dif_pos status.valid

theorem row_response (response : CachedResponse) (expiresAtMs : Int) :
    (response.row expiresAtMs).response = .ok response := by
  have hcode : ((response.status.code : Int) % 2 ^ 16).toNat = response.status.code := by
    have hvalid := response.status.valid
    omega
  rw [Row.response, CachedResponse.row, hcode, StatusCode.fromU16_code]

/-- A call acts on the time it has read. -/
def Issues (h : Past) : Sql → Prop
  | .now => h = []
  | .select _ now => ∃ reading : Instant, h = [⟨.now, reading⟩] ∧ now = reading.millis
  | .insert .. => ∃ reading : Instant, h = [⟨.now, reading⟩]
  | .prune now => ∃ reading : Instant, (⟨.now, reading⟩ : Σ e : Sql, e.Answer) ∈ h ∧
      now = reading.millis

theorem serve_traced (q : Request) : Prog.Traced Issues (fun _ _ => True) [] q.serve := by
  cases q with
  | get key =>
      refine ⟨rfl, fun now => ⟨⟨now, rfl, rfl⟩, fun r => ?_⟩⟩
      rcases r with e | _ | row <;> trivial
  | put key response ttl =>
      refine ⟨rfl, fun now => ⟨⟨now, rfl⟩, fun r => ?_⟩⟩
      rcases r with e | u
      · trivial
      · exact ⟨⟨now, by simp, rfl⟩, fun _ => trivial⟩

section

variable {start : Store} {tr : List StoreEvent} {cfg : StoreConfig}

/-- No statement turns the clock back. -/
theorem Sem.clock {e : Sql} {s s' : Store} {r : e.Answer} (h : Sem e s r s') :
    s'.clock = s.clock := by
  cases e with
  | now => rw [h.2]
  | select key now => rw [h.2]
  | insert key row => rcases h with ⟨-, rfl⟩ | ⟨-, rfl | rfl⟩ <;> rfl
  | prune now => rcases h with ⟨-, rfl⟩ | ⟨_, -, -, rfl⟩ <;> rfl

/-- The clock a call has read is not ahead. -/
theorem StoreRun.reading_le (hrun : StoreRun ⟨start, []⟩ tr cfg) {i : Nat} {reading : Instant}
    (hmem : (⟨.now, reading⟩ : Σ e : Sql, e.Answer) ∈ actsOf i tr) :
    reading.millis ≤ cfg.state.clock.millis := by
  obtain ⟨ev, hev, hlabel⟩ := exists_of_mem_actsOf hmem
  induction hrun with
  | nil => cases hev
  | @snoc tr cfg cfg' l hr hs ih =>
      have hstep : cfg.state.clock.millis ≤ cfg'.state.clock.millis := by
        cases hs with
        | start q => exact le_rfl
        | env s' hs => exact hs.2
        | act j q e k r s' hj hs => rw [Sem.clock hs]
      rcases List.mem_append.mp hev with hold | hlast
      · exact (ih (mem_actsOf hold hlabel) hold).trans hstep
      · obtain rfl := List.mem_singleton.mp hlast
        cases hs with
        | start q => cases hlabel
        | env s' hs => cases hlabel
        | act j q e k r s' hj hs =>
            cases hlabel
            exact le_of_eq_of_le (congrArg Instant.millis hs.1) hstep

/-- A row that was inserted where its key had none stays until it expires. -/
theorem StoreRun.stays (hrun : StoreRun ⟨start, []⟩ tr cfg) {i : Nat} {key : Text} {row : Row}
    {ev : StoreEvent} (hev : ev ∈ tr) (hlabel : ev.label = .act i (.insert key row) (.ok ()))
    (hnew : key ∉ ev.pre.rows) (hfresh : cfg.state.clock.millis < row.expiresAtMs) :
    cfg.state.rows[key]? = some row := by
  induction hrun with
  | nil => cases hev
  | @snoc tr cfg cfg' l hr hs ih =>
      rcases List.mem_append.mp hev with hold | hlast
      · clear hev
        cases hs with
        | start q => exact ih hold hfresh
        | env s' hs =>
            change s'.rows[key]? = some row
            rw [hs.1]
            exact ih hold (lt_of_le_of_lt hs.2 hfresh)
        | act j q e k r s' hj hs =>
            have hpre := ih hold (by rwa [← Sem.clock hs])
            have hmem := Relation.mem_of_getElem? hpre
            cases e with
            | now => rwa [hs.2]
            | select key' now => rwa [hs.2]
            | insert key' row' =>
                have hinsert : (cfg.state.insert key' row').rows[key]? = some row := by
                  rw [Store.insert]
                  split
                  · exact hpre
                  · next hnew' =>
                      have hne : key' ≠ key := fun heq => hnew' (heq ▸ hmem)
                      rw [Relation.getElem?_insert, if_neg hne, hpre]
                rcases hs with ⟨-, rfl⟩ | ⟨-, rfl | rfl⟩
                · exact hinsert
                · exact hpre
                · exact hinsert
            | prune now =>
                rcases hs with ⟨-, rfl⟩ | ⟨keys, -, hexpired, rfl⟩
                · exact hpre
                · -- Whoever prunes has read a clock that is not ahead.
                  obtain ⟨reading, hreading, rfl⟩ := (hr.traced hj (serve_traced q)).1
                  have hle := StoreRun.reading_le hr hreading
                  rw [Relation.getElem?_foldl_erase, if_neg, hpre]
                  intro hkey
                  obtain ⟨row', hrow', hexpires⟩ := hexpired key hkey
                  obtain rfl := Option.some.inj (hpre.symm.trans hrow')
                  change cfg.state.clock.millis < row.expiresAtMs at hfresh
                  omega
      · obtain rfl := List.mem_singleton.mp hlast
        cases hs with
        | start q => cases hlabel
        | env s' hs => cases hlabel
        | act j q e k r s' hj hs =>
            cases hlabel
            rcases hs with ⟨-, rfl⟩ | ⟨⟨_, he⟩, -⟩
            · have hrows : key ∉ cfg.state.rows := hnew
              simp [Store.insert, hrows]
            · cases he

/-- A `put` that has succeeded read the clock, inserted its row and pruned. -/
theorem StoreRun.put_acts (hrun : StoreRun ⟨start, []⟩ tr cfg) {i : Nat} {key : Text}
    {response : CachedResponse} {ttl : Nat} {found : Option CachedResponse}
    (hput : cfg.calls[i]? = some ⟨.put key response ttl, .done (.ok found)⟩) :
    ∃ (now : Instant) (r : Except Text Unit), actsOf i tr =
      [⟨.now, now⟩, ⟨.insert key (response.row (expiresAt now.millis ttl)), .ok ()⟩,
        ⟨.prune now.millis, r⟩] := by
  have hfollows := hrun.follows hput
  generalize actsOf i tr = h at hfollows
  rcases h with _ | ⟨x, h⟩
  · cases (show _ = _ from hfollows)
  obtain ⟨now, rfl, hfollows⟩ := hfollows
  rcases h with _ | ⟨y, h⟩
  · cases (show _ = _ from hfollows)
  obtain ⟨inserted, rfl, hfollows⟩ := hfollows
  rcases inserted with e | u
  · cases (Prog.follows_done.mp hfollows).2
  rcases h with _ | ⟨z, h⟩
  · cases (show _ = _ from hfollows)
  obtain ⟨pruned, rfl, hfollows⟩ := hfollows
  obtain ⟨rfl, -⟩ := Prog.follows_done.mp hfollows
  exact ⟨now, pruned, rfl⟩

/-- A `get` that has succeeded read the clock and the row. -/
theorem StoreRun.get_acts (hrun : StoreRun ⟨start, []⟩ tr cfg) {j : Nat} {key : Text}
    {found : Option CachedResponse} (hget : cfg.calls[j]? = some ⟨.get key, .done (.ok found)⟩) :
    ∃ (now : Instant) (row : Option Row), actsOf j tr =
      [⟨.now, now⟩, ⟨.select key now.millis, .ok row⟩] ∧
        ∀ expiresAtMs response, row = some (response.row expiresAtMs) → found = some response := by
  have hfollows := hrun.follows hget
  generalize actsOf j tr = h at hfollows
  rcases h with _ | ⟨x, h⟩
  · cases (show _ = _ from hfollows)
  obtain ⟨now, rfl, hfollows⟩ := hfollows
  rcases h with _ | ⟨y, h⟩
  · cases (show _ = _ from hfollows)
  obtain ⟨answer, rfl, hfollows⟩ := hfollows
  rcases answer with e | _ | row
  · cases (Prog.follows_done.mp hfollows).2
  · obtain ⟨rfl, -⟩ := Prog.follows_done.mp hfollows
    exact ⟨now, none, rfl, fun _ _ h => by cases h⟩
  · obtain ⟨rfl, hend⟩ := Prog.follows_done.mp hfollows
    refine ⟨now, some row, rfl, fun expiresAtMs response hrow => ?_⟩
    obtain rfl := Option.some.inj hrow
    rw [row_response] at hend
    cases hend
    rfl

end

/-- When `put` inserts its row, the key has none. -/
def InsertsNew (i : Nat) (key : Text) (tr : List StoreEvent) : Prop :=
  ∀ ev ∈ tr, ∀ row r, ev.label = .act i (.insert key row) r → key ∉ ev.pre.rows

/-- When `get` reads the row, the time is before `time`. -/
def SelectsBefore (j : Nat) (time : Int) (tr : List StoreEvent) : Prop :=
  ∀ ev ∈ tr, ∀ key now r, ev.label = .act j (.select key now) r → ev.pre.clock.millis < time

/-- A receipt put where its key had no row is what every later `get` reads
before it expires. -/
theorem receipt_returned (start : Store) (tr₁ tr₂ : List StoreEvent) (cfg₁ cfg : StoreConfig)
    (hrun₁ : StoreRun ⟨start, []⟩ tr₁ cfg₁) (hrun₂ : StoreRun cfg₁ tr₂ cfg) (i j : Nat) (key : Text)
    (response : CachedResponse) (ttl : Nat) (found found' : Option CachedResponse)
    (hput : cfg₁.calls[i]? = some ⟨.put key response ttl, .done (.ok found')⟩)
    (hstarts : cfg₁.calls.length ≤ j)
    (hget : cfg.calls[j]? = some ⟨.get key, .done (.ok found)⟩) (hnew : InsertsNew i key tr₁)
    (hearly : ∀ now : Instant, (⟨.now, now⟩ : Σ e : Sql, e.Answer) ∈ actsOf i tr₁ →
      SelectsBefore j (expiresAt now.millis ttl) tr₂) :
    found = some response := by
  have hrun := hrun₁.append hrun₂
  obtain ⟨now, r, hacts⟩ := StoreRun.put_acts hrun₁ hput
  obtain ⟨now', row, hacts', hfound⟩ := StoreRun.get_acts hrun hget
  rw [actsOf_append, hrun₁.actsOf_nil hstarts, List.nil_append] at hacts'
  have hinsert : (⟨.insert key (response.row (expiresAt now.millis ttl)), .ok ()⟩ :
      Σ e : Sql, e.Answer) ∈ actsOf i tr₁ := by
    rw [hacts]
    simp
  have hselect : (⟨.select key now'.millis, .ok row⟩ : Σ e : Sql, e.Answer) ∈ actsOf j tr₂ := by
    rw [hacts']
    simp
  obtain ⟨evi, hevi, hlabeli⟩ := exists_of_mem_actsOf hinsert
  obtain ⟨ev, hev, hlabel⟩ := exists_of_mem_actsOf hselect
  have hbefore := hearly now (by rw [hacts]; simp) ev hev _ _ _ hlabel
  obtain ⟨tr₀, tr₃, rfl⟩ := List.append_of_mem hev
  obtain ⟨mid, mid', hmid, hstep, hpre, -⟩ := hrun₂.reaches
  rw [hpre] at hbefore
  have hrows := StoreRun.stays (hrun₁.append hmid) (List.mem_append_left tr₀ hevi) hlabeli
    (hnew evi hevi _ _ hlabeli) hbefore
  rw [hlabel] at hstep
  obtain ⟨hrow | ⟨_, he⟩, -⟩ : Sem (.select key now'.millis) _ _ _ := hstep.effect
  · obtain ⟨reading, hreading, hmillis⟩ := Run.issues (hrun₁.append hmid) serve_traced hstep
    have hle : now'.millis ≤ mid.state.clock.millis := by
      rw [hmillis]
      exact StoreRun.reading_le (hrun₁.append hmid) (i := j) (by rw [hreading]; simp)
    have hselected : mid.state.select key now'.millis =
        some (response.row (expiresAt now.millis ttl)) := by
      rw [Store.select, hrows, Option.filter_some, if_pos]
      exact decide_eq_true (lt_of_le_of_lt hle hbefore)
    exact hfound _ response ((Except.ok.inj hrow).trans hselected)
  · cases he

/-! ## One receipt -/

def at₁₀ : Instant := ⟨10, by decide⟩

def created : CachedResponse := ⟨⟨200, by decide⟩, "created".toUTF8.toList, none⟩

def received : Request := .put "k".toList created 1000

/-- The moves of a `put` and of a `get`, and the run of them. -/
def runFrom (cfg : StoreConfig) (ms : List (Move Request)) : List StoreEvent × StoreConfig :=
  cfg.moves Request.serve (fun e s => s.handle e) ms

theorem runFrom_run {start cfg : StoreConfig} {tr : List StoreEvent} (hrun : StoreRun start tr cfg)
    (ms : List (Move Request)) : StoreRun start (tr ++ (runFrom cfg ms).1) (runFrom cfg ms).2 :=
  hrun.moves Store.handle_sem ms

theorem runFrom_self (cfg : StoreConfig) (ms : List (Move Request)) :
    StoreRun cfg (runFrom cfg ms).1 (runFrom cfg ms).2 :=
  Run.moves Store.handle_sem .nil ms

def oncePut : List StoreEvent × StoreConfig :=
  runFrom ⟨⟨∅, at₁₀⟩, []⟩ [.start received, .step 0, .step 0, .step 0]

def onceGot : List StoreEvent × StoreConfig :=
  runFrom oncePut.2 [.start (.get "k".toList), .step 1, .step 1]

theorem oncePut_new : InsertsNew 0 "k".toList oncePut.1 := by
  obtain ⟨s₁, row, hevents⟩ : ∃ s₁ row, oncePut.1 =
      [⟨⟨∅, at₁₀⟩, .start received, ⟨∅, at₁₀⟩⟩, ⟨⟨∅, at₁₀⟩, .act 0 .now at₁₀, ⟨∅, at₁₀⟩⟩,
        ⟨⟨∅, at₁₀⟩, .act 0 (.insert "k".toList row) (.ok ()), s₁⟩,
        ⟨s₁, .act 0 (.prune 10) (.ok ()), oncePut.2.state⟩] := ⟨_, _, rfl⟩
  intro ev hev row' r hlabel
  rw [hevents] at hev
  simp only [List.mem_cons, List.not_mem_nil, or_false] at hev
  rcases hev with rfl | rfl | rfl | rfl <;> cases hlabel
  exact Std.ExtTreeMap.not_mem_empty

theorem onceGot_early : SelectsBefore 1 1010 onceGot.1 := by
  obtain ⟨s, found, hclock, hevents⟩ : ∃ s : Store, ∃ found, s.clock = at₁₀ ∧ onceGot.1 =
      [⟨s, .start (.get "k".toList), s⟩, ⟨s, .act 1 .now at₁₀, s⟩,
        ⟨s, .act 1 (.select "k".toList 10) found, s⟩] := ⟨_, _, rfl, rfl⟩
  intro ev hev key now r hlabel
  rw [hevents] at hev
  simp only [List.mem_cons, List.not_mem_nil, or_false] at hev
  rcases hev with rfl | rfl | rfl <;> cases hlabel
  rw [hclock]
  decide

theorem oncePut_run : StoreRun ⟨⟨∅, at₁₀⟩, []⟩ oncePut.1 oncePut.2 := runFrom_self _ _

theorem onceGot_run : StoreRun oncePut.2 onceGot.1 onceGot.2 := runFrom_self _ _

/-- What a call has found. -/
def foundBy (cfg : StoreConfig) (j : Nat) : Option CachedResponse :=
  match cfg.calls[j]? with
  | some ⟨_, .done (.ok found)⟩ => found
  | _ => none

theorem receipt_returned_once : foundBy onceGot.2 1 = some created := by
  refine receipt_returned ⟨∅, at₁₀⟩ oncePut.1 onceGot.1 oncePut.2 onceGot.2 oncePut_run onceGot_run
    0 1 "k".toList created 1000 _ none rfl (by decide) rfl oncePut_new fun now hnow => ?_
  have hacts : actsOf 0 oncePut.1 = [⟨.now, at₁₀⟩,
    ⟨.insert "k".toList (created.row (expiresAt 10 1000)), .ok ()⟩, ⟨.prune 10, .ok ()⟩] := rfl
  rw [hacts] at hnow
  simp only [List.mem_cons, List.not_mem_nil, or_false] at hnow
  rcases hnow with h | h | h <;> cases h
  exact onceGot_early

/-! ## An expired row in the way

A receipt is put to last 5 ms. It has expired, and nothing has pruned it, when
a new receipt is put under its key. -/

def at₀ : Instant := ⟨0, by decide⟩

def older : CachedResponse := ⟨⟨200, by decide⟩, "older".toUTF8.toList, none⟩

def olderPut : List StoreEvent × StoreConfig :=
  runFrom ⟨⟨∅, at₀⟩, []⟩ [.start (.put "k".toList older 5), .step 0, .step 0, .step 0]

/-- The older receipt's row, ten milliseconds on. -/
def tenLater : Store := { olderPut.2.state with clock := at₁₀ }

def latePut : List StoreEvent × StoreConfig :=
  runFrom { olderPut.2 with state := tenLater } [.start received, .step 1, .step 1, .step 1]

def lateGot : List StoreEvent × StoreConfig :=
  runFrom latePut.2 [.start (.get "k".toList), .step 2, .step 2]

def latePutTrace : List StoreEvent :=
  olderPut.1 ++ [⟨olderPut.2.state, .env, tenLater⟩] ++ latePut.1

theorem latePut_run : StoreRun ⟨⟨∅, at₀⟩, []⟩ latePutTrace latePut.2 := by
  have hrun : StoreRun ⟨⟨∅, at₀⟩, []⟩ olderPut.1 olderPut.2 := runFrom_self _ _
  have hpasses : Passes olderPut.2.state tenLater := ⟨rfl, by decide⟩
  exact runFrom_run (hrun.snoc (.env olderPut.2 tenLater hpasses)) _

theorem lateGot_run : StoreRun latePut.2 lateGot.1 lateGot.2 := runFrom_self _ _

/-- No receipt under the key is unexpired when the new one is put. -/
def NoneUnexpired (i : Nat) (key : Text) (tr : List StoreEvent) : Prop :=
  ∀ ev ∈ tr, ∀ row r, ev.label = .act i (.insert key row) r →
    ev.pre.select key ev.pre.clock.millis = none

theorem latePut_noneUnexpired : NoneUnexpired 1 "k".toList latePutTrace := by
  obtain ⟨s₁, s₂, row₁, row₂, hevents⟩ : ∃ s₁ s₂ row₁ row₂, latePutTrace =
      [⟨⟨∅, at₀⟩, .start (.put "k".toList older 5), ⟨∅, at₀⟩⟩,
        ⟨⟨∅, at₀⟩, .act 0 .now at₀, ⟨∅, at₀⟩⟩,
        ⟨⟨∅, at₀⟩, .act 0 (.insert "k".toList row₁) (.ok ()), s₁⟩,
        ⟨s₁, .act 0 (.prune 0) (.ok ()), olderPut.2.state⟩, ⟨olderPut.2.state, .env, tenLater⟩,
        ⟨tenLater, .start received, tenLater⟩, ⟨tenLater, .act 1 .now at₁₀, tenLater⟩,
        ⟨tenLater, .act 1 (.insert "k".toList row₂) (.ok ()), s₂⟩,
        ⟨s₂, .act 1 (.prune 10) (.ok ()), latePut.2.state⟩] := ⟨_, _, _, _, rfl⟩
  intro ev hev row r hlabel
  rw [hevents] at hev
  simp only [List.mem_cons, List.not_mem_nil, or_false] at hev
  rcases hev with rfl | rfl | rfl | rfl | rfl | rfl | rfl | rfl | rfl <;> cases hlabel
  exact show tenLater.select "k".toList tenLater.clock.millis = none by decide

theorem receipt_lost :
    ¬ ∀ (start : Store) (tr₁ tr₂ : List StoreEvent) (cfg₁ cfg : StoreConfig), start.rows = ∅ →
      StoreRun ⟨start, []⟩ tr₁ cfg₁ → StoreRun cfg₁ tr₂ cfg →
        ∀ (i j : Nat) (key : Text) (response : CachedResponse) (ttl : Nat)
          (found found' : Option CachedResponse),
          cfg₁.calls[i]? = some ⟨.put key response ttl, .done (.ok found')⟩ →
            NoneUnexpired i key tr₁ → cfg₁.calls.length ≤ j →
              cfg.calls[j]? = some ⟨.get key, .done (.ok found)⟩ →
                cfg.state.clock.millis < cfg₁.state.clock.millis + ttl → found = some response := by
  intro hall
  have hfound := hall _ _ _ _ _ rfl latePut_run lateGot_run 1 2 "k".toList created 1000
    (foundBy lateGot.2 2) none rfl latePut_noneUnexpired (by decide) rfl (by decide)
  have hnone : foundBy lateGot.2 2 = none := by decide
  rw [hnone] at hfound
  cases hfound

end Rustberg.Idempotency
