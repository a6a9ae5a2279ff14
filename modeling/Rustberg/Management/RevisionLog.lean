import Rustberg.Base.Relation
import Rustberg.Management.Policies

/-!
# The policy log in redb

The revisions of the policy set as redb holds them (`catalog/redb.rs`): one
table whose keys are sequence numbers padded to twenty digits, the newest
revision read off its last key. redb runs one write transaction at a time and
a read sees what was last committed, so each call is one step, and any number
of them interleave.

`log_gapless` is the log: revisions `1..n`, each under its own key, of which
none changes, and every read answered from them. It holds while fewer than
`2 ^ 64` revisions are appended: the next sequence is a `u64` that wraps
(`log_wraps`). `sem_refines` says that until then the calls of a run do what
`Management.Sem` says of a policy store.
-/

namespace Rustberg.Management.RevisionLog

open Process

/-- `PolicyRevision`, with the counters as they are stored. -/
structure Stored where
  sequence : UInt64
  version : Text
  source : Text
  author : Text
  /-- Milliseconds since the Unix epoch. -/
  createdAtMs : UInt64
  note : Option Text
  deriving DecidableEq

structure PolicyRevisionSummary where
  sequence : UInt64
  version : Text
  author : Text
  createdAtMs : UInt64
  note : Option Text
  sourceBytes : Nat
  deriving DecidableEq

def Stored.summary (revision : Stored) : PolicyRevisionSummary :=
  ⟨revision.sequence, revision.version, revision.author, revision.createdAtMs, revision.note,
    revision.source.len⟩

/-! ## The table -/

/-- `POLICIES`, its values decoded. -/
abbrev Policies := Relation Stored

/-- Zero-padded, so that the order of the keys is the order of the log. -/
def policyKey (sequence : UInt64) : Text := Text.padded 20 sequence.toNat

/-- `table.last()` -/
def newest (table : Policies) : Option Stored := table.toList.getLast?.map (·.2)

/-- One past the newest revision. A `u64` of the release build wraps. -/
def nextSequence (table : Policies) : UInt64 :=
  match newest table with
  | some previous => previous.sequence + 1
  | none => 1

/-- What a call of `PolicyStore` asks for. -/
inductive Request where
  | current
  | append (source author : Text) (note : Option Text)
  | history (limit : Nat)
  | get (sequence : UInt64)

abbrev Request.Answer : Request → Type
  | .current => Except AppError (Option Stored)
  | .append .. => Except AppError Stored
  | .history _ => Except AppError (List PolicyRevisionSummary)
  | .get _ => Except AppError (Option Stored)

variable (cedar : Cedar)

/-- The revision an append writes, at a reading of the clock. -/
def revisionOf (table : Policies) (source author : Text) (note : Option Text) (now : UInt64) :
    Stored :=
  ⟨nextSequence table, cedar.versionOf source, source, author, now, note⟩

def appended (table : Policies) (revision : Stored) : Policies :=
  table.insert (policyKey revision.sequence) revision

/-- Newest first. -/
def historyOf (table : Policies) (limit : Nat) : List PolicyRevisionSummary :=
  (table.toList.reverse.take limit).map fun entry => entry.2.summary

/-! ## Runs -/

/-- One transaction. A call may fail, an append then carried out or not. -/
def Transact : (e : Request) → Policies → e.Answer → Policies → Prop
  | .current, t, r, t' => (r = .ok (newest t) ∨ ∃ e, r = .error e) ∧ t' = t
  | .append source author note, t, r, t' =>
      ∃ now, let revision := revisionOf cedar t source author note now
      (r = .ok revision ∧ t' = appended t revision) ∨
        (∃ e, r = .error e) ∧ (t' = t ∨ t' = appended t revision)
  | .history limit, t, r, t' => (r = .ok (historyOf t limit) ∨ ∃ e, r = .error e) ∧ t' = t
  | .get sequence, t, r, t' => (r = .ok t[policyKey sequence]? ∨ ∃ e, r = .error e) ∧ t' = t

/-- A call and what it was answered. -/
abbrev Answered := Σ e : Request, e.Answer

def serve (e : Request) : Prog Request Request.Answer Answered := .perform e fun r => .done ⟨e, r⟩

abbrev LogEvent := Event Request Request.Answer Policies Request

/-- Any number of calls on a log that starts empty. -/
abbrev LogRun (tr : List LogEvent) (cfg : Config Request Request.Answer Answered Policies Request) :
    Prop :=
  Run serve (Transact cedar) (fun t t' => t' = t) ⟨∅, []⟩ tr cfg

/-- The event is an append's transaction, carried out or not. -/
def isAppend (ev : LogEvent) : Bool :=
  match ev.label with
  | .act _ (.append ..) _ => true
  | _ => false

/-! ## Keys -/

theorem toNat_lt_width (a : UInt64) : a.toNat < 10 ^ 20 := a.toNat_lt.trans (by decide)

theorem policyKey_lt {a b : UInt64} : policyKey a < policyKey b ↔ a < b :=
  Text.padded_lt_padded (by decide) (toNat_lt_width a) (toNat_lt_width b)

theorem policyKey_inj {a b : UInt64} (h : policyKey a = policyKey b) : a = b :=
  UInt64.toNat_inj.mp (Text.padded_inj h)

/-! ## The log of a table -/

/-- The revisions in key order. -/
def revisions (table : Policies) : List Stored := table.toList.map (·.2)

/-- The revisions are numbered from 1, each stored under its own key. -/
structure Gapless (table : Policies) : Prop where
  keyed : ∀ entry ∈ table.toList, entry.1 = policyKey entry.2.sequence
  numbered : (revisions table).map (·.sequence.toNat) = List.range' 1 (revisions table).length

theorem newest_eq (table : Policies) : newest table = (revisions table).getLast? := by
  rw [newest, revisions, List.getLast?_map]

theorem historyOf_eq (table : Policies) (limit : Nat) :
    historyOf table limit = ((revisions table).reverse.take limit).map Stored.summary := by
  rw [historyOf, revisions, ← List.map_reverse, ← List.map_take, List.map_map]
  rfl

theorem gapless_empty : Gapless ∅ where
  keyed := fun entry hmem => by
    rw [Std.ExtTreeMap.mem_toList_iff_getElem?_eq_some] at hmem
    simp at hmem
  numbered := by
    have hnil : revisions ∅ = [] := rfl
    rw [hnil]
    rfl

namespace Gapless

variable {cedar} {table : Policies}

/-- The sequences of a gapless log are the numbers from 1 to its length. -/
theorem sequence_mem (h : Gapless table) {revision : Stored} (hmem : revision ∈ revisions table) :
    1 ≤ revision.sequence.toNat ∧ revision.sequence.toNat ≤ (revisions table).length := by
  have hseq := List.mem_map_of_mem (f := (·.sequence.toNat)) hmem
  rw [h.numbered, List.mem_range'_1] at hseq
  omega

theorem newest_sequence (h : Gapless table) {revision : Stored}
    (hnewest : newest table = some revision) :
    revision.sequence.toNat = (revisions table).length := by
  have hlast := congrArg List.getLast? h.numbered
  rw [newest_eq] at hnewest
  rw [List.getLast?_map, hnewest, List.getLast?_range'] at hlast
  have hpos : (revisions table).length ≠ 0 := fun hzero => by
    rw [List.length_eq_zero_iff.mp hzero] at hnewest
    cases hnewest
  simp only [Option.map_some, hpos, if_false, Option.some.injEq] at hlast
  omega

/-- While there is room, the next sequence is one more than there are revisions. -/
theorem nextSequence_toNat (h : Gapless table) (hroom : (revisions table).length + 1 < 2 ^ 64) :
    (nextSequence table).toNat = (revisions table).length + 1 := by
  unfold nextSequence
  cases hnewest : newest table with
  | none =>
      rw [newest_eq, List.getLast?_eq_none_iff] at hnewest
      rw [hnewest]
      rfl
  | some previous =>
      have hseq := h.newest_sequence hnewest
      have hone : (1 : UInt64).toNat = 1 := rfl
      dsimp only
      rw [UInt64.toNat_add, hseq, hone]
      exact Nat.mod_eq_of_lt hroom

/-- An append puts its revision after all others. -/
theorem revisions_appended (h : Gapless table) {revision : Stored}
    (hseq : revision.sequence.toNat = (revisions table).length + 1) :
    (appended table revision).toList = table.toList ++ [(policyKey revision.sequence, revision)] ∧
      revisions (appended table revision) = revisions table ++ [revision] := by
  have hlast : (appended table revision).toList =
      table.toList ++ [(policyKey revision.sequence, revision)] := by
    refine Relation.toList_insert_last table revision fun key hkey => ?_
    obtain ⟨stored, hstored⟩ :=
      Option.isSome_iff_exists.mp (Std.ExtTreeMap.mem_iff_isSome_getElem?.mp hkey)
    have hentry : (key, stored) ∈ table.toList :=
      Std.ExtTreeMap.mem_toList_iff_getElem?_eq_some.mpr hstored
    have hle := (h.sequence_mem (List.mem_map_of_mem (f := (·.2)) hentry)).2
    obtain rfl : key = policyKey stored.sequence := h.keyed _ hentry
    rw [policyKey_lt, UInt64.lt_iff_toNat_lt, hseq]
    exact Nat.lt_succ_of_le hle
  exact ⟨hlast, by rw [revisions, hlast, List.map_append]; rfl⟩

theorem appended (h : Gapless table) {revision : Stored}
    (hseq : revision.sequence.toNat = (revisions table).length + 1) :
    Gapless (appended table revision) := by
  obtain ⟨hlist, hrevs⟩ := h.revisions_appended hseq
  constructor
  · intro entry hmem
    rw [hlist, List.mem_append, List.mem_singleton] at hmem
    rcases hmem with hmem | rfl
    · exact h.keyed entry hmem
    · rfl
  · rw [hrevs, List.map_append, List.map_singleton, List.length_append, List.length_singleton,
      h.numbered, hseq, List.range'_concat]
    congr 2
    omega

/-- A key names the revision of its number. -/
theorem getElem?_eq_some (h : Gapless table) {sequence : UInt64} {revision : Stored} :
    table[policyKey sequence]? = some revision ↔
      revision ∈ revisions table ∧ revision.sequence = sequence := by
  constructor
  · intro hget
    have hentry := Std.ExtTreeMap.mem_toList_iff_getElem?_eq_some.mpr hget
    exact ⟨List.mem_map_of_mem (f := (·.2)) hentry, (policyKey_inj (h.keyed _ hentry)).symm⟩
  · rintro ⟨hmem, rfl⟩
    obtain ⟨⟨key, stored⟩, hentry, rfl⟩ := List.mem_map.mp hmem
    obtain rfl : key = policyKey stored.sequence := h.keyed _ hentry
    exact Std.ExtTreeMap.mem_toList_iff_getElem?_eq_some.mp hentry

end Gapless

/-! ## One transaction -/

section

variable {cedar} {table table' : Policies}

def Request.appends : Request → Bool
  | .append .. => true
  | _ => false

/-- What an answer says of the log it was read from, and of the log it leaves. -/
def Reads : (e : Request) → Policies → e.Answer → Policies → Prop
  | .current, t, .ok found, _ => found = (revisions t).getLast? ∧
      ∀ revision, found = some revision → revision.sequence.toNat = (revisions t).length
  | .append source author note, t, .ok revision, t' =>
      revisions t' = revisions t ++ [revision] ∧ revision.source = source ∧
        revision.author = author ∧ revision.note = note
  | .history limit, t, .ok summaries, _ =>
      summaries = ((revisions t).reverse.take limit).map Stored.summary
  | .get sequence, t, .ok found, _ =>
      ∀ revision, found = some revision ↔ revision ∈ revisions t ∧ revision.sequence = sequence
  | .current, _, .error _, _ | .append .., _, .error _, _ | .history _, _, .error _, _
  | .get _, _, .error _, _ => True

/-- A transaction keeps the log and what is in it, and adds a revision at most
where it appends. -/
theorem Transact.keeps {e : Request} {r : e.Answer} (h : Transact cedar e table r table')
    (hlog : Gapless table) (hroom : e.appends = true → (revisions table).length + 1 < 2 ^ 64) :
    Gapless table' ∧ Reads e table r table' ∧
      ∃ new, revisions table' = revisions table ++ new ∧ new.length ≤ e.appends.toNat := by
  cases e with
  | current =>
      obtain ⟨hr, rfl⟩ := h
      refine ⟨hlog, ?_, [], (List.append_nil _).symm, Nat.zero_le _⟩
      rcases hr with rfl | ⟨_, rfl⟩
      · exact ⟨newest_eq _, fun revision hfound => hlog.newest_sequence hfound⟩
      · trivial
  | append source author note =>
      obtain ⟨now, h⟩ := h
      have hseq : (revisionOf cedar table source author note now).sequence.toNat =
          (revisions table).length + 1 := hlog.nextSequence_toNat (hroom rfl)
      have happended : Gapless (appended table _) := hlog.appended hseq
      have hrevs := (hlog.revisions_appended hseq).2
      rcases h with ⟨rfl, rfl⟩ | ⟨⟨_, rfl⟩, rfl | rfl⟩
      · exact ⟨happended, ⟨hrevs, rfl, rfl, rfl⟩, _, hrevs, Nat.le_refl _⟩
      · exact ⟨hlog, trivial, [], (List.append_nil _).symm, Nat.zero_le _⟩
      · exact ⟨happended, trivial, _, hrevs, Nat.le_refl _⟩
  | history limit =>
      obtain ⟨hr, rfl⟩ := h
      refine ⟨hlog, ?_, [], (List.append_nil _).symm, Nat.zero_le _⟩
      rcases hr with rfl | ⟨_, rfl⟩
      · exact historyOf_eq _ limit
      · trivial
  | get sequence =>
      obtain ⟨hr, rfl⟩ := h
      refine ⟨hlog, ?_, [], (List.append_nil _).symm, Nat.zero_le _⟩
      rcases hr with rfl | ⟨_, rfl⟩
      · exact fun revision => hlog.getElem?_eq_some
      · trivial

end

/-! ## The policy store it implements -/

section

variable {cedar} {table table' : Policies} {s : System cedar}

/-- The revision as the callers of the policy store see it. -/
def Stored.revision (stored : Stored) : PolicyRevision :=
  ⟨stored.sequence.toNat, stored.version, stored.source, stored.author, stored.note⟩

/-- The log of a policy store that holds `table`. -/
def logOf (table : Policies) : List PolicyRevision := (revisions table).map Stored.revision

theorem newest_refines : (logOf table).getLast? = (newest table).map Stored.revision := by
  rw [logOf, List.getLast?_map, newest_eq]

theorem revisionOf_refines (hlog : Gapless table) (hs : s.log = logOf table)
    (hroom : (revisions table).length + 1 < 2 ^ 64) (source author : Text) (note : Option Text)
    (now : UInt64) :
    (revisionOf cedar table source author note now).revision = s.next source author note := by
  have hnewest : s.newest = (revisions table).length := by
    rw [System.newest, hs, newest_refines]
    cases hnewest : newest table with
    | none =>
        rw [newest_eq, List.getLast?_eq_none_iff] at hnewest
        rw [hnewest]
        rfl
    | some previous => exact hlog.newest_sequence hnewest
  rw [Stored.revision, System.next, hnewest, revisionOf, hlog.nextSequence_toNat hroom]

/-- What `Management.Sem` says of a call. Nothing there asks for the history. -/
def StoreSem : (e : Request) → System cedar → e.Answer → System cedar → Prop
  | .current, s, r, s' => Sem .current s (r.map (Option.map Stored.revision)) s'
  | .append source author note, s, r, s' =>
      Sem (.append source author note) s (r.map Stored.revision) s'
  | .history _, s, _, s' => s' = s
  | .get sequence, s, r, s' => Sem (.get sequence.toNat) s (r.map (Option.map Stored.revision)) s'

theorem current_refines {r : Request.current.Answer}
    (h : Transact cedar .current table r table') (hs : s.log = logOf table) :
    Sem .current s (r.map (Option.map Stored.revision)) s := by
  rcases h.1 with rfl | ⟨e, rfl⟩
  · refine ⟨Or.inl ?_, rfl⟩
    rw [hs, newest_refines]
    rfl
  · exact ⟨Or.inr ⟨e, rfl⟩, rfl⟩

/-- An append is the policy store's. -/
theorem append_refines (hlog : Gapless table) (hroom : (revisions table).length + 1 < 2 ^ 64)
    {source author : Text} {note : Option Text} {r : (Request.append source author note).Answer}
    (h : Transact cedar (.append source author note) table r table') (hs : s.log = logOf table) :
    Sem (.append source author note) s (r.map Stored.revision) { s with log := logOf table' } := by
  obtain ⟨now, h⟩ := h
  have hnext := revisionOf_refines hlog hs hroom source author note now
  have hseq : (revisionOf cedar table source author note now).sequence.toNat =
      (revisions table).length + 1 := hlog.nextSequence_toNat hroom
  have hrevs := (hlog.revisions_appended hseq).2
  have hafter : logOf (appended table (revisionOf cedar table source author note now)) =
      s.log ++ [s.next source author note] := by
    rw [logOf, hrevs, List.map_append, List.map_singleton, hnext, hs]
    rfl
  rcases h with ⟨rfl, rfl⟩ | ⟨⟨e, rfl⟩, rfl | rfl⟩
  · refine Or.inl ⟨?_, by rw [hafter]⟩
    rw [← hnext]
    rfl
  · exact Or.inr ⟨⟨e, rfl⟩, Or.inl (by rw [← hs])⟩
  · exact Or.inr ⟨⟨e, rfl⟩, Or.inr (by rw [hafter])⟩

theorem get_refines (hlog : Gapless table) {sequence : UInt64}
    {r : (Request.get sequence).Answer} (h : Transact cedar (.get sequence) table r table')
    (hs : s.log = logOf table) :
    Sem (.get sequence.toNat) s (r.map (Option.map Stored.revision)) s := by
  rcases h.1 with rfl | ⟨e, rfl⟩
  · refine ⟨Or.inl ?_, rfl⟩
    have hfind : table[policyKey sequence]? =
        (revisions table).find? (·.sequence.toNat = sequence.toNat) := by
      have hfound {stored : Stored}
          (hstored : (revisions table).find? (·.sequence.toNat = sequence.toNat) = some stored) :
          table[policyKey sequence]? = some stored :=
        hlog.getElem?_eq_some.mpr ⟨List.mem_of_find?_eq_some hstored,
          UInt64.toNat_inj.mp (by simpa using List.find?_some hstored)⟩
      cases hfind : (revisions table).find? (·.sequence.toNat = sequence.toNat) with
      | some stored => exact hfound hfind
      | none =>
          refine Option.eq_none_iff_forall_ne_some.mpr fun stored hstored => ?_
          obtain ⟨hmem, hseq⟩ := hlog.getElem?_eq_some.mp hstored
          exact List.find?_eq_none.mp hfind stored hmem (decide_eq_true (congrArg _ hseq))
    rw [hs, hfind, logOf, List.find?_map]
    rfl
  · exact ⟨Or.inr ⟨e, rfl⟩, rfl⟩

/-- A policy store over the log of `table`. -/
def onLog (s : System cedar) (table : Policies) : System cedar := { s with log := logOf table }

theorem Transact.refines {e : Request} {r : e.Answer} (h : Transact cedar e table r table')
    (hlog : Gapless table) (hroom : e.appends = true → (revisions table).length + 1 < 2 ^ 64) :
    StoreSem e (onLog s table) r (onLog s table') := by
  cases e with
  | current =>
      obtain rfl := h.2
      exact current_refines h rfl
  | append source author note => exact append_refines hlog (hroom rfl) h rfl
  | history limit =>
      obtain rfl := h.2
      rfl
  | get sequence =>
      obtain rfl := h.2
      exact get_refines hlog h rfl

end

/-! ## Every run -/

section

variable {cedar} {tr : List LogEvent}
    {cfg : Config Request Request.Answer Answered Policies Request}

/-- How many appends a run has performed, carried out or not. -/
def appendsIn (tr : List LogEvent) : Nat := tr.countP isAppend

theorem appendsIn_act {ev : LogEvent} {i : Nat} {e : Request} {r : e.Answer}
    (hlabel : ev.label = .act i e r) : appendsIn [ev] = e.appends.toNat := by
  rw [appendsIn, List.countP_singleton, isAppend, hlabel]
  cases e <;> rfl

/-- The log is gapless, holds no more revisions than were appended, and goes on
from what every event of the run read and left. -/
theorem LogRun.log (hrun : LogRun cedar tr cfg) (hroom : appendsIn tr < 2 ^ 64) :
    Gapless cfg.state ∧ (revisions cfg.state).length ≤ appendsIn tr ∧
      ∀ ev ∈ tr, revisions ev.pre <+: revisions ev.post ∧
        revisions ev.post <+: revisions cfg.state ∧
        ∀ i e r, ev.label = .act i e r → Reads e ev.pre r ev.post := by
  induction hrun with
  | nil => exact ⟨gapless_empty, Nat.zero_le _, fun ev hev => by cases hev⟩
  | @snoc tr c c' l hr hs ih =>
      have hcount : appendsIn (tr ++ [⟨c.state, l, c'.state⟩]) =
          appendsIn tr + appendsIn [(⟨c.state, l, c'.state⟩ : LogEvent)] := List.countP_append
      rw [hcount] at hroom ⊢
      obtain ⟨hlog, hlen, hpast⟩ := ih (by omega)
      obtain ⟨hlog', new, hnew, hcarried, hreads⟩ :
          Gapless c'.state ∧ ∃ new, revisions c'.state = revisions c.state ++ new ∧
            new.length ≤ appendsIn [(⟨c.state, l, c'.state⟩ : LogEvent)] ∧
            ∀ i e r, l = .act i e r → Reads e c.state r c'.state := by
        cases hs with
        | start q =>
            exact ⟨hlog, [], (List.append_nil _).symm, Nat.zero_le _, fun i e r hl => by cases hl⟩
        | act i q e k r s' hi hsem =>
            have hone : appendsIn [⟨c.state, .act i e r, s'⟩] = e.appends.toNat := appendsIn_act rfl
            obtain ⟨hlog', hreads, new, hnew, hle⟩ := hsem.keeps hlog fun happends => by
              rw [hone, happends, Bool.toNat_true] at hroom
              omega
            refine ⟨hlog', new, hnew, hone ▸ hle, fun i' e' r' hl => ?_⟩
            cases hl
            exact hreads
        | env s' hs =>
            obtain rfl := hs
            exact ⟨hlog, [], (List.append_nil _).symm, Nat.zero_le _, fun i e r hl => by cases hl⟩
      refine ⟨hlog', by rw [hnew, List.length_append]; omega, fun ev hev => ?_⟩
      have hgrows : revisions c.state <+: revisions c'.state := ⟨new, hnew.symm⟩
      rcases List.mem_append.mp hev with hold | hlast
      · obtain ⟨hpre, hpost, hread⟩ := hpast ev hold
        exact ⟨hpre, hpost.trans hgrows, hread⟩
      · obtain rfl := List.mem_singleton.mp hlast
        exact ⟨hgrows, List.prefix_rfl, hreads⟩

/-- Each call of a run is a step of the policy store, on the log that the table holds. -/
theorem sem_refines (hrun : LogRun cedar tr cfg) (hroom : appendsIn tr < 2 ^ 64)
    (s : System cedar) {ev : LogEvent} (hev : ev ∈ tr) {i : Nat} {e : Request} {r : e.Answer}
    (hlabel : ev.label = .act i e r) : StoreSem e (onLog s ev.pre) r (onLog s ev.post) := by
  induction hrun with
  | nil => cases hev
  | @snoc tr c c' l hr hs ih =>
      have hcount : appendsIn (tr ++ [⟨c.state, l, c'.state⟩]) =
          appendsIn tr + appendsIn [(⟨c.state, l, c'.state⟩ : LogEvent)] := List.countP_append
      rw [hcount] at hroom
      rcases List.mem_append.mp hev with hold | hlast
      · exact ih (by omega) hold
      · obtain rfl := List.mem_singleton.mp hlast
        rw [appendsIn_act hlabel] at hroom
        obtain ⟨hlog, hlen, -⟩ := LogRun.log hr (by omega)
        obtain rfl : l = .act i e r := hlabel
        refine Transact.refines hs.effect hlog fun happends => ?_
        rw [happends, Bool.toNat_true] at hroom
        exact lt_of_le_of_lt (Nat.add_le_add_right hlen 1) hroom

end

/-- While fewer than `2 ^ 64` revisions are appended the log holds revisions
`1..n`, of which none changes once it is there, the newest is the one numbered
`n`, every read is answered from them, and the keys stand in the order of the
numbers, whatever these are. -/
theorem log_gapless (tr : List LogEvent)
    (cfg : Config Request Request.Answer Answered Policies Request) (hrun : LogRun cedar tr cfg)
    (hroom : appendsIn tr < 2 ^ 64) :
    (revisions cfg.state).map (·.sequence.toNat) =
        List.range' 1 (revisions cfg.state).length ∧
      (∀ revision, newest cfg.state = some revision →
        revision.sequence.toNat = (revisions cfg.state).length) ∧
      (∀ ev ∈ tr, revisions ev.pre <+: revisions ev.post ∧
        revisions ev.post <+: revisions cfg.state ∧
        ∀ i e r, ev.label = .act i e r → Reads e ev.pre r ev.post) ∧
      ∀ a b : UInt64, policyKey a < policyKey b ↔ a < b := by
  obtain ⟨hlog, -, hpast⟩ := hrun.log hroom
  exact ⟨hlog.numbered, fun _ hnewest => hlog.newest_sequence hnewest, hpast, fun _ _ =>
    policyKey_lt⟩

/-- A transaction that succeeds, at a reading of the clock. -/
def transact (now : UInt64) : (e : Request) → Policies → e.Answer × Policies
  | .current, t => (.ok (newest t), t)
  | .append source author note, t =>
      let revision := revisionOf cedar t source author note now
      (.ok revision, appended t revision)
  | .history limit, t => (.ok (historyOf t limit), t)
  | .get sequence, t => (.ok t[policyKey sequence]?, t)

theorem transact_transact (now : UInt64) (e : Request) (t : Policies) :
    Transact cedar e t (transact cedar now e t).1 (transact cedar now e t).2 := by
  cases e with
  | append source author note => exact ⟨now, Or.inl ⟨rfl, rfl⟩⟩
  | _ => exact ⟨Or.inl rfl, rfl⟩

/-- Policies that do not compile, and a hash that forgets its input. -/
def mute : Cedar := ⟨fun _ => .error [], fun _ => []⟩

/-- Two appends that both start before either is carried out, and the history. -/
def twoAppends : List (Move Request) :=
  [.start (.append "permit".toList "ann".toList none),
    .start (.append "forbid".toList "bob".toList none), .step 1, .start (.history 5),
    .step 0, .step 2]

/-- The run of a schedule on an empty log, the clock at one time. -/
def scheduled (moves : List (Move Request)) :
    List LogEvent × Config Request Request.Answer Answered Policies Request :=
  Config.moves serve (transact mute 1000) ⟨∅, []⟩ moves

theorem scheduled_run (moves : List (Move Request)) :
    LogRun mute (scheduled moves).1 (scheduled moves).2 :=
  Run.moves (transact_transact mute 1000) (.nil : LogRun mute [] _) moves

theorem twoAppends_gapless :
    (revisions (scheduled twoAppends).2.state).map (·.author) = ["bob".toList, "ann".toList] ∧
      (revisions (scheduled twoAppends).2.state).map (·.sequence.toNat) =
        List.range' 1 (revisions (scheduled twoAppends).2.state).length :=
  ⟨by decide +kernel, (log_gapless mute _ _ (scheduled_run twoAppends) (by decide +kernel)).1⟩

/-! ## Where it ends -/

/-- A call that is started and answered at once. -/
theorem LogRun.call {tr : List LogEvent}
    {cfg : Config Request Request.Answer Answered Policies Request} (hrun : LogRun cedar tr cfg)
    {e : Request} {r : e.Answer} {table : Policies} (h : Transact cedar e cfg.state r table) :
    ∃ cfg' i, cfg'.state = table ∧ LogRun cedar
      (tr ++ [⟨cfg.state, .start e, cfg.state⟩] ++ [⟨cfg.state, .act i e r, table⟩]) cfg' := by
  have hstart := hrun.snoc (.start cfg e)
  have hi : (cfg.calls ++ [⟨e, serve e⟩])[cfg.calls.length]? = some ⟨e, serve e⟩ :=
    List.getElem?_concat_length
  exact ⟨_, cfg.calls.length, rfl, hstart.snoc (.act _ _ e e _ r table hi h)⟩

/-- The revision that an append of nothing writes, at the epoch. -/
def blank (table : Policies) : Stored := revisionOf mute table [] [] none 0

theorem LogRun.append {tr : List LogEvent}
    {cfg : Config Request Request.Answer Answered Policies Request} (hrun : LogRun mute tr cfg) :
    ∃ tr' cfg', LogRun mute tr' cfg' ∧ appendsIn tr' = appendsIn tr + 1 ∧
      cfg'.state = appended cfg.state (blank cfg.state) := by
  have hstep : Transact mute (.append [] [] none) cfg.state (.ok (blank cfg.state))
      (appended cfg.state (blank cfg.state)) := ⟨0, Or.inl ⟨rfl, rfl⟩⟩
  obtain ⟨cfg', i, hstate, hrun'⟩ := LogRun.call mute hrun hstep
  refine ⟨_, cfg', hrun', ?_, hstate⟩
  rw [appendsIn, List.countP_append, List.countP_append]
  rfl

/-- There is a run to a log of any length a `u64` can count. -/
theorem exists_log (n : Nat) (hn : n < 2 ^ 64) : ∃ tr cfg, LogRun mute tr cfg ∧ appendsIn tr = n ∧
    (revisions cfg.state).length = n := by
  induction n with
  | zero => exact ⟨[], _, .nil, rfl, rfl⟩
  | succ n ih =>
      obtain ⟨tr, cfg, hrun, hcount, hlen⟩ := ih (by omega)
      obtain ⟨tr', cfg', hrun', hcount', hstate⟩ := hrun.append
      have hlog := (hrun.log (by omega)).1
      have hseq : (blank cfg.state).sequence.toNat = (revisions cfg.state).length + 1 :=
        hlog.nextSequence_toNat (by omega)
      refine ⟨tr', cfg', hrun', by omega, ?_⟩
      rw [hstate, (hlog.revisions_appended hseq).2, List.length_append, List.length_singleton, hlen]

/-- After the last `u64` the next revision is numbered 0, and stands first. -/
theorem log_wraps : ¬ ∀ tr cfg, LogRun mute tr cfg →
    ∃ n, (revisions cfg.state).map (·.sequence.toNat) = List.range' 1 n := by
  intro hall
  obtain ⟨tr, cfg, hrun, hcount, hlen⟩ := exists_log (2 ^ 64 - 1) (by decide)
  obtain ⟨tr', cfg', hrun', -, hstate⟩ := hrun.append
  have hlog := (hrun.log (by omega)).1
  have hzero : (blank cfg.state).sequence.toNat = 0 := by
    have hpos : (revisions cfg.state) ≠ [] := fun hnil => by
      rw [hnil] at hlen
      cases hlen
    obtain ⟨previous, hprevious⟩ : ∃ previous, newest cfg.state = some previous := by
      rw [newest_eq]
      exact ⟨_, List.getLast?_eq_some_getLast hpos⟩
    have hseq := hlog.newest_sequence hprevious
    have hnext : (blank cfg.state).sequence = previous.sequence + 1 := by
      rw [blank, revisionOf, nextSequence, hprevious]
    rw [hnext, UInt64.toNat_add, hseq, hlen]
    rfl
  obtain ⟨n, hn⟩ := hall tr' cfg' hrun'
  have hentry : (policyKey (blank cfg.state).sequence, blank cfg.state) ∈ cfg'.state.toList := by
    rw [hstate, appended, Std.ExtTreeMap.mem_toList_iff_getElem?_eq_some,
      Std.ExtTreeMap.getElem?_insert_self]
  have hmem : 0 ∈ (revisions cfg'.state).map (·.sequence.toNat) :=
    List.mem_map.mpr ⟨_, List.mem_map_of_mem (f := (·.2)) hentry, hzero⟩
  rw [hn, List.mem_range'_1] at hmem
  omega

end Rustberg.Management.RevisionLog
