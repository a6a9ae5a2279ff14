import Rustberg.Catalog.Commit
import Rustberg.Catalog.Integrity

/-!
# No lost update

Over every interleaving of any calls on one registry:

- a commit either has changed nothing, or has landed one swap and
  reported success (`CommitOutcome`); when each of its tables had its turn
  inside the swap transaction, the record in place was the one its new
  metadata was computed from, or, for a table it creates, there was none
  (`Replaces`);
- the metadata locations a table record goes through, renames included,
  form a chain, each computed from the one before (`Trails`).

Staging reserves nothing, so what a commit creates may come from a staging
that another one has overwritten since (`staged_commit_replaces_another`).
-/

namespace Rustberg

open Process

variable {ib : Iceberg}

/-! ## What a landed swap replaced -/

/-- The record a table's new metadata was computed from is in place, by
version and location, and the new record replaces it; for a table that is
created there is no record, and its staging goes. -/
inductive Replaces (reg : Registry) (base : TabularRecord) (p : Redb.Prepared ib) :
    Registry → Prop
  | updated {current : TabularRecord} (hexpected : p.expected = some base)
      (hcurrent : reg.tables[tableKey p.ident]? = some current)
      (hversion : current.version = base.version)
      (hlocation : current.metadataLocation = base.metadataLocation) :
      Replaces reg base p
        { reg with tables := reg.tables.insert (tableKey p.ident) p.swap.next }
  | created (hexpected : p.expected = none)
      (hns : namespaceKey p.ident.namespc ∈ reg.namespaces)
      (hview : tableKey p.ident ∉ reg.views) (htable : tableKey p.ident ∉ reg.tables) :
      Replaces reg base p
        { reg with tables := reg.tables.insert (tableKey p.ident) p.swap.next
                   staged := reg.staged.erase (tableKey p.ident) }

/-- The tables of a commit, one after the other inside one transaction. -/
inductive ReplacesAll :
    Registry → List (TabularRecord × Redb.Prepared ib) → Registry → Prop
  | nil {reg : Registry} : ReplacesAll reg [] reg
  | cons {reg mid reg' : Registry} {base : TabularRecord} {p : Redb.Prepared ib}
      {computed : List (TabularRecord × Redb.Prepared ib)} (hone : Replaces reg base p mid)
      (hrest : ReplacesAll mid computed reg') : ReplacesAll reg ((base, p) :: computed) reg'

/-- A table that is updated was computed from the record its swap expects. -/
theorem Computed.expected {c : Catalog} {change : ib.TableChange} {h : Path ib}
    {base : TabularRecord} {p : Redb.Prepared ib} (hc : Computed c change h base p) :
    p.expected = none ∨ p.expected = some base := by
  cases hc with
  | update hcompute hname => exact Or.inr rfl
  | create hcreating hcompute hname => exact Or.inl rfl

theorem swapTx_replaces {c : Catalog} {changes : List ib.TableChange} {h : Path ib}
    {computed : List (TabularRecord × Redb.Prepared ib)} (hall : ComputedAll c changes h computed)
    {reg reg' : Registry} (happly : swapTx (swapsOf computed) reg = .ok reg') :
    ReplacesAll reg computed reg' := by
  induction hall generalizing reg with
  | nil =>
      obtain rfl : reg = reg' := by simpa [swapTx, swapsOf, pure, Except.pure] using happly
      exact .nil
  | @cons change changes h hs base p computed hone hrest ih =>
      rw [swapTx, swapsOf, List.map_cons, List.foldlM_cons] at happly
      cases hswap : swapOne reg p.swap with
      | error e => rw [hswap] at happly; cases happly
      | ok mid =>
          rw [hswap] at happly
          refine .cons ?_ (ih happly)
          rcases swapOne_eq_ok.mp hswap with
            ⟨expected, current, hexp, hcur, hversion, hlocation, rfl⟩ |
              ⟨hexp, hns, hview, htable, rfl⟩
          · have hbase : p.expected = some base := hone.expected.resolve_left fun hnone => by
              have : p.expected = some expected := hexp
              rw [hnone] at this
              cases this
            obtain rfl : base = expected := Option.some.inj (hbase.symm.trans hexp)
            exact .updated hbase hcur hversion hlocation
          · exact .created hexp hns hview htable

/-! ## What became of a commit -/

/-- The event is an effect of call `i`. -/
def EventBy (i : Nat) (ev : RedbEvent ib) : Prop := ∃ e r, ev.label = .act i e r

/-- Call `i`, a commit of `changes`: it has changed nothing and reports no
success, or it has reported success and changed the registry in one event,
which replaced what it last computed from. -/
inductive CommitOutcome (c : Catalog) (changes : List ib.TableChange) (i : Nat) :
    List (RedbEvent ib) → Rest ib (Reply ib) → Prop
  | unchanged {tr : List (RedbEvent ib)} {rest : Rest ib (Reply ib)}
      (hsame : ∀ ev ∈ tr, EventBy i ev → ev.post = ev.pre)
      (hrest : changes ≠ [] → ∀ reply, rest ≠ .done (.ok reply)) :
      CommitOutcome c changes i tr rest
  | landed {tr₁ tr₂ : List (RedbEvent ib)} {ev : RedbEvent ib} {h₁ h₂ : Path ib}
      {computed : List (TabularRecord × Redb.Prepared ib)} {reply : Reply ib}
      (hlabel : ev.label = .act i (.write (.swap (swapsOf computed))) (.ok ()))
      (hacts : actsOf i tr₁ = h₁ ++ h₂) (hall : ComputedAll c changes h₂ computed)
      (hreplaces : ReplacesAll ev.pre computed ev.post)
      (hsame : ∀ ev' ∈ tr₁ ++ tr₂, EventBy i ev' → ev'.post = ev'.pre) :
      CommitOutcome c changes i (tr₁ ++ ev :: tr₂) (.done (.ok reply))

section

variable {c : Catalog} {start : Registry} {tr : List (RedbEvent ib)} {cfg : RedbConfig ib}

/-- An event of a quiet call changes nothing. -/
theorem RedbRun.unchanged_of_quiet (hrun : RedbRun c start tr cfg) {i : Nat} {h : Path ib}
    (hquiet : Quiet h) {ev : RedbEvent ib} (hev : ev ∈ tr) {e : Effect ib} {r : e.Answer}
    (hlabel : ev.label = .act i e r) (hmem : (⟨e, r⟩ : Σ e : Effect ib, e.Answer) ∈ h) :
    ev.post = ev.pre := by
  rcases hrun.event_cases hev with ⟨q, hstart, -⟩ | ⟨j, e', r', hact, hsem⟩ | ⟨-, hfalse⟩
  · rw [hlabel] at hstart
    cases hstart
  · rw [hlabel] at hact
    cases hact
    refine hsem.unchanged fun tx htx => ?_
    subst htx
    cases r with
    | ok v => exact absurd hmem (hquiet tx)
    | error err => exact ⟨err, HEq.rfl⟩
  · exact hfalse.elim

/-- A commit of no tables performs no effect. -/
theorem RedbRun.commit_nil (hrun : RedbRun c start tr cfg) {i : Nat}
    {call : Call (Effect ib) Effect.Answer (Except Error (Reply ib)) (Request ib)}
    (hcall : cfg.calls[i]? = some call) (hq : call.request.commits = some []) :
    actsOf i tr = [] := by
  have hf := hrun.follows hcall
  obtain ⟨q, rest⟩ := call
  cases q with
  | commitTablesAtomic changes =>
      obtain rfl := Option.some.inj hq
      exact (Prog.follows_done.mp hf).1
  | commitTable change => cases hq
  | _ => cases hq

theorem RedbRun.commit_outcome (hrun : RedbRun c start tr cfg) {i : Nat}
    {call : Call (Effect ib) Effect.Answer (Except Error (Reply ib)) (Request ib)}
    (hcall : cfg.calls[i]? = some call) {changes : List ib.TableChange}
    (hq : call.request.commits = some changes) : CommitOutcome c changes i tr call.rest := by
  by_cases hne : changes = []
  · subst hne
    have hnil := hrun.commit_nil hcall hq
    refine .unchanged (fun ev hev ⟨e, r, hlabel⟩ => ?_) fun h => absurd rfl h
    have hmem := mem_actsOf hev hlabel
    rw [hnil] at hmem
    cases hmem
  have hpath := serve_commit_path hq hne (hrun.follows hcall)
  generalize hh : actsOf i tr = h at hpath
  generalize call.rest = rest at hpath
  cases hpath with
  | quiet hquiet hend =>
      refine .unchanged (fun ev hev ⟨e, r, hlabel⟩ => ?_) fun _ => hend
      exact hrun.unchanged_of_quiet hquiet hev hlabel (hh ▸ mem_actsOf hev hlabel)
  | @landed h₁ h₂ computed reply hquiet hall hreply =>
      obtain ⟨tr₁, ev, tr₂, rfl, hacts, hlabel, hnone⟩ := actsOf_eq_snoc hh
      refine .landed hlabel hacts hall ?_ fun ev' hev' ⟨e, r, hlabel'⟩ => ?_
      · have hev : ev ∈ tr₁ ++ ev :: tr₂ := by simp
        rcases hrun.event_cases hev with
          ⟨q, hstart, -⟩ | ⟨j, e, r, hact, hsem⟩ | ⟨-, hfalse⟩
        · rw [hlabel] at hstart
          cases hstart
        · rw [hlabel] at hact
          cases hact
          have hcommits : Commits (.swap (swapsOf computed)) ev.pre (.ok ()) ev.post := hsem
          cases hcommits with
          | committed happly => exact swapTx_replaces hall happly
        · exact hfalse.elim
      · rcases List.mem_append.mp hev' with hmem | hmem
        · have hin := mem_actsOf hmem hlabel'
          rw [hacts] at hin
          exact hrun.unchanged_of_quiet hquiet (List.mem_append_left _ hmem) hlabel' hin
        · have hin := mem_actsOf hmem hlabel'
          rw [hnone] at hin
          cases hin

end

/-! ## The locations a record goes through -/

/-- The locations of the records under each key, newest first, after a
transaction: a rename moves them, a drop forgets them. -/
def Transaction.trail : Transaction → (Text → List Text) → Text → List Text
  | .create .table ident location _, trail =>
      Function.update trail (tableKey ident) [location]
  | .drop .table ident, trail => Function.update trail (tableKey ident) []
  | .rename .table src dest, trail =>
      Function.update (Function.update trail (tableKey dest) (trail (tableKey src)))
        (tableKey src) []
  | .swap swaps, trail => swaps.foldl (fun trail swap =>
      Function.update trail (tableKey swap.ident)
        (swap.newLocation :: match swap.expected with
          | some _ => trail (tableKey swap.ident)
          | none => [])) trail
  | _, trail => trail

def eventTrail (trail : Text → List Text) (ev : RedbEvent ib) : Text → List Text :=
  match ev.label with
  | .act _ (.write tx) (.ok _) => tx.trail trail
  | _ => trail

/-- The locations of every table record over a whole run. -/
def trailOf (start : Registry) (tr : List (RedbEvent ib)) : Text → List Text :=
  tr.foldl eventTrail fun key => (start.tables[key]?.map TabularRecord.metadataLocation).toList

/-- The trail of every key ends at the record in place, and each location in
it stands in `R` to the one before. -/
structure Trails (R : Text → Text → Prop) (reg : Registry) (trail : Text → List Text) : Prop where
  head : ∀ key, (trail key).head? = reg.tables[key]?.map TabularRecord.metadataLocation
  chain : ∀ key, (trail key).IsChain R

namespace Trails

variable {R : Text → Text → Prop} {reg reg' : Registry} {trail : Text → List Text}

theorem init (R : Text → Text → Prop) (reg : Registry) :
    Trails R reg fun key => (reg.tables[key]?.map TabularRecord.metadataLocation).toList where
  head key := by cases reg.tables[key]? <;> rfl
  chain key := by cases reg.tables[key]? <;> simp

/-- Putting a record under a key, with its own trail. -/
theorem insert (h : Trails R reg trail) {key : Text} (record : TabularRecord) {older : List Text}
    (hchain : (record.metadataLocation :: older).IsChain R)
    (htables : reg'.tables = reg.tables.insert key record) :
    Trails R reg' (Function.update trail key (record.metadataLocation :: older)) where
  head key' := by
    rw [htables, Relation.getElem?_insert, Function.update_apply]
    by_cases hkey : key' = key
    · simp [hkey]
    · simp [hkey, Ne.symm hkey, h.head]
  chain key' := by
    rw [Function.update_apply]
    split
    · exact hchain
    · exact h.chain key'

theorem erase (h : Trails R reg trail) {key : Text}
    (htables : reg'.tables = reg.tables.erase key) :
    Trails R reg' (Function.update trail key []) where
  head key' := by
    rw [htables, Relation.getElem?_erase, Function.update_apply]
    by_cases hkey : key' = key
    · simp [hkey]
    · simp [hkey, Ne.symm hkey, h.head]
  chain key' := by
    rw [Function.update_apply]
    split
    · exact .nil
    · exact h.chain key'

theorem same (h : Trails R reg trail) (htables : reg'.tables = reg.tables) :
    Trails R reg' trail := ⟨fun key => by rw [htables]; exact h.head key, h.chain⟩

theorem cons_of_head {key location : Text}
    (h : Trails R reg trail) (hhead : reg.tables[key]?.map TabularRecord.metadataLocation =
      some location) : ∃ older, trail key = location :: older := by
  have hkey := h.head key
  rw [hhead] at hkey
  cases hold : trail key with
  | nil => rw [hold] at hkey; cases hkey
  | cons x older =>
      rw [hold] at hkey
      obtain rfl := Option.some.inj hkey
      exact ⟨older, rfl⟩

/-- One swap extends the trail of its key, or starts one. -/
theorem swapOne (h : Trails R reg trail) {swap : Swap} (happly : swapOne reg swap = .ok reg')
    (hR : ∀ expected, swap.expected = some expected →
      R swap.newLocation expected.metadataLocation) :
    Trails R reg' (Function.update trail (tableKey swap.ident)
        (swap.newLocation :: match swap.expected with
          | some _ => trail (tableKey swap.ident)
          | none => [])) := by
  rcases swapOne_eq_ok.mp happly with
    ⟨expected, current, hexp, hcur, -, hlocation, rfl⟩ | ⟨hexp, -, -, -, rfl⟩
  · have hhead : reg.tables[tableKey swap.ident]?.map TabularRecord.metadataLocation =
        some expected.metadataLocation := by rw [hcur, Option.map_some, hlocation]
    obtain ⟨older, hold⟩ := h.cons_of_head hhead
    have hchain := h.chain (tableKey swap.ident)
    rw [hold] at hchain
    simp only [hexp, hold]
    exact h.insert swap.next (hchain.cons_cons (hR expected hexp)) rfl
  · simp only [hexp]
    exact h.insert swap.next (by simp) rfl

theorem swapTx (h : Trails R reg trail) {swaps : List Swap} (happly : swapTx swaps reg = .ok reg')
    (hR : ∀ swap ∈ swaps, ∀ expected, swap.expected = some expected →
      R swap.newLocation expected.metadataLocation) :
    Trails R reg' ((Transaction.swap swaps).trail trail) := by
  induction swaps generalizing reg trail with
  | nil =>
      obtain rfl : reg = reg' := by simpa [Rustberg.swapTx, pure, Except.pure] using happly
      exact h
  | cons swap swaps ih =>
      rw [Rustberg.swapTx, List.foldlM_cons] at happly
      cases hone : Rustberg.swapOne reg swap with
      | error e => rw [hone] at happly; cases happly
      | ok mid =>
          rw [hone] at happly
          exact ih (h.swapOne hone (hR swap (List.mem_cons_self ..))) happly
            fun s hs => hR s (List.mem_cons_of_mem _ hs)

/-- A committed transaction extends the trails as `Transaction.trail` says. -/
theorem apply (h : Trails R reg trail) {tx : Transaction} (happly : tx.apply reg = .ok reg')
    (hR : ∀ swaps, tx = .swap swaps → ∀ swap ∈ swaps, ∀ expected, swap.expected = some expected →
      R swap.newLocation expected.metadataLocation) : Trails R reg' (tx.trail trail) := by
  cases tx with
  | createNamespace ns properties =>
      obtain ⟨-, -, rfl⟩ := createNamespaceTx_eq_ok.mp happly
      exact h.same rfl
  | updateNamespace ns properties =>
      obtain ⟨-, rfl⟩ := updateNamespaceTx_eq_ok.mp happly
      exact h.same rfl
  | dropNamespace ns =>
      obtain ⟨-, -, rfl⟩ := dropNamespaceTx_eq_ok.mp happly
      exact h.same rfl
  | stage ident location =>
      obtain rfl := Except.ok.inj happly
      exact h.same rfl
  | updateView view expected expectedLocation newLocation =>
      obtain ⟨live, -, -, -, rfl⟩ := updateViewTx_eq_ok.mp happly
      exact h.same rfl
  | swap swaps => exact h.swapTx happly (hR swaps rfl)
  | create kind ident location display =>
      obtain ⟨-, -, rfl⟩ := createTx_eq_ok.mp happly
      cases kind with
      | view => exact h.same rfl
      | table => exact h.insert ⟨_, _, location, 0⟩ (by simp) rfl
  | drop kind ident =>
      obtain ⟨-, rfl⟩ := dropTx_eq_ok.mp happly
      cases kind with
      | view => exact h.same rfl
      | table => exact h.erase rfl
  | rename kind src dest =>
      obtain ⟨record, hsrc, -, -, rfl⟩ := renameTx_eq_ok.mp happly
      cases kind with
      | view => exact h.same rfl
      | table =>
          -- The moved record keeps its location, so its trail goes with it.
          have hhead : reg.tables[tableKey src]?.map TabularRecord.metadataLocation =
              some record.metadataLocation := by
            rw [show reg.tables[tableKey src]? = some record from hsrc, Option.map_some]
          obtain ⟨older, hold⟩ := h.cons_of_head hhead
          have hchain := h.chain (tableKey src)
          simp only [Transaction.trail]
          rw [hold] at hchain ⊢
          have hmid : Trails R { reg with
              tables := reg.tables.insert (tableKey dest) (record.renamed dest) }
              (Function.update trail (tableKey dest) (record.metadataLocation :: older)) :=
            h.insert (record.renamed dest) hchain rfl
          exact hmid.erase rfl

end Trails

/-- Some commit of the run computed the metadata at `new` from what it read
at `old`. -/
def ComputedFrom (c : Catalog) (tr : List (RedbEvent ib)) (cfg : RedbConfig ib)
    (new old : Text) : Prop :=
  ∃ i call changes change base p h, cfg.calls[i]? = some call ∧
    call.request.commits = some changes ∧ change ∈ changes ∧ h <:+: actsOf i tr ∧
    Computed c change h base p ∧ p.newLocation = new ∧ base.metadataLocation = old

theorem ComputedAll.exists_of_mem {c : Catalog} {changes : List ib.TableChange} {h : Path ib}
    {computed : List (TabularRecord × Redb.Prepared ib)} (hall : ComputedAll c changes h computed)
    {x : TabularRecord × Redb.Prepared ib} (hx : x ∈ computed) :
    ∃ change ∈ changes, ∃ h', h' <:+: h ∧ Computed c change h' x.1 x.2 := by
  induction hall with
  | nil => cases hx
  | cons hone hrest ih =>
      rcases List.mem_cons.mp hx with rfl | hx
      · exact ⟨_, List.mem_cons_self .., _, (List.prefix_append ..).isInfix, hone⟩
      · obtain ⟨change, hchange, h', hinfix, hcomputed⟩ := ih hx
        exact ⟨change, List.mem_cons_of_mem _ hchange, h',
          hinfix.trans (List.suffix_append ..).isInfix, hcomputed⟩

section

variable {c : Catalog} {start : Registry} {tr : List (RedbEvent ib)} {cfg : RedbConfig ib}

/-- What a landed swap puts in place of a record was computed from it. -/
theorem RedbRun.computedFrom (hrun : RedbRun c start tr cfg) {ev : RedbEvent ib} (hev : ev ∈ tr)
    {i : Nat} {swaps : List Swap} (hlabel : ev.label = .act i (.write (.swap swaps)) (.ok ()))
    {swap : Swap} (hswap : swap ∈ swaps) {expected : TabularRecord}
    (hexpected : swap.expected = some expected) :
    ComputedFrom c tr cfg swap.newLocation expected.metadataLocation := by
  obtain ⟨call, hcall, hissues⟩ := hrun.issues hev hlabel
  obtain ⟨changes, hq⟩ : ∃ changes, call.request.commits = some changes := by
    obtain ⟨q, rest⟩ := call
    cases q with
    | commitTable change => exact ⟨_, rfl⟩
    | commitTablesAtomic changes => exact ⟨_, rfl⟩
    | createTable ns creation => obtain ⟨_, _, h⟩ := hissues; cases h
    | stageCreateTable ns creation => obtain ⟨_, h⟩ := hissues; cases h
    | registerTable table _ => obtain ⟨_, _, h⟩ := hissues; cases h
    | registerView view _ => obtain ⟨_, _, h⟩ := hissues; cases h
    | createView view _ => obtain ⟨_, _, h⟩ := hissues; cases h
    | updateView view _ _ => obtain ⟨_, _, _, h⟩ := hissues; cases h
    | _ => cases hissues
  have hmem : committed (.swap swaps) ∈ actsOf i tr := mem_actsOf hev hlabel
  have hne : changes ≠ [] := fun hnil => by
    subst hnil
    rw [hrun.commit_nil hcall hq] at hmem
    cases hmem
  have hpath := serve_commit_path hq hne (hrun.follows hcall)
  generalize hh : actsOf i tr = h at hpath hmem
  generalize call.rest = rest at hpath
  cases hpath with
  | quiet hquiet hend => exact absurd hmem (hquiet _)
  | @landed h₁ h₂ computed reply hquiet hall hreply =>
      obtain rfl : swaps = swapsOf computed := by
        rcases List.mem_append.mp hmem with hmem | hmem
        · exact absurd hmem (hquiet _)
        · cases List.mem_singleton.mp hmem
          rfl
      obtain ⟨⟨base, p⟩, hx, rfl⟩ := List.mem_map.mp hswap
      obtain ⟨change, hchange, h', hinfix, hcomputed⟩ := hall.exists_of_mem hx
      obtain rfl : base = expected := by
        rcases hcomputed.expected with hnone | hsome
        · cases hnone.symm.trans hexpected
        · exact Option.some.inj (hsome.symm.trans hexpected)
      refine ⟨i, call, changes, change, base, p, h', hcall, hq, hchange, ?_, hcomputed, rfl, rfl⟩
      rw [hh, List.append_assoc]
      exact hinfix.trans ((List.prefix_append ..).isInfix.trans (List.suffix_append ..).isInfix)

/-- The trails of a run whose landed swaps all stand in `R`. -/
theorem RedbRun.trails {R : Text → Text → Prop} (hrun : RedbRun c start tr cfg)
    (hR : ∀ ev ∈ tr, ∀ i swaps, ev.label = .act i (.write (.swap swaps)) (.ok ()) →
      ∀ swap ∈ swaps, ∀ expected, swap.expected = some expected →
        R swap.newLocation expected.metadataLocation) :
    Trails R cfg.state (trailOf start tr) := by
  induction hrun with
  | nil => exact .init R start
  | @snoc tr cfg cfg' l hr hs ih =>
      have hpre := ih fun ev hev => hR ev (List.mem_append_left _ hev)
      have hlast := hR _ (List.mem_append_right _ (List.mem_singleton_self _))
      rw [trailOf, List.foldl_append]
      cases hs with
      | start q => exact hpre
      | env s' hs => exact hs.elim
      | act i q e k r s' hi hs =>
          cases e with
          | write tx =>
              have hcommits : Commits tx cfg.state r s' := hs
              cases hcommits with
              | committed happly =>
                  exact hpre.apply happly fun swaps htx => hlast i swaps (by rw [htx])
              | aborted _ => exact hpre
              | failed _ => exact hpre
          | _ => exact hpre.same (congrArg Registry.tables hs.1)

/-- Commits lose no update: each changes nothing, or lands one swap and
reports success, having replaced exactly the records it computed from; an
attempt that fails commits nothing; and the locations a record goes through
are each computed from the one before. -/
theorem commits_lose_no_update (c : Catalog) (start : Registry) (tr : List (RedbEvent ib))
    (cfg : RedbConfig ib) (hrun : RedbRun c start tr cfg) :
    (∀ (i : Nat) (call : Call (Effect ib) Effect.Answer (Except Error (Reply ib)) (Request ib))
        (changes : List ib.TableChange), cfg.calls[i]? = some call →
        call.request.commits = some changes → CommitOutcome c changes i tr call.rest) ∧
      (∀ (changes : List ib.TableChange) (h : Path ib) (err : Error),
        Prog.Follows (Redb.tryCommitTablesAtomic c changes).run h (.done (.error err)) →
          Quiet h) ∧
      Trails (ComputedFrom c tr cfg) cfg.state (trailOf start tr) := by
  refine ⟨fun i call changes hcall hq => hrun.commit_outcome hcall hq, fun changes h err hf => ?_,
    hrun.trails fun ev hev i swaps hlabel swap hswap expected hexpected =>
      hrun.computedFrom hev hlabel hswap hexpected⟩
  cases tryCommit_path hf with
  | quiet hquiet hend => exact hquiet

end

/-! ## A staging overwritten under a commit

Two clients stage the same name, and the first commits what it staged after
the second has staged. -/

/-- The record a table's new metadata was computed from, a table's or a
staging, is in place. -/
def InPlace (reg : Registry) (base : TabularRecord) (p : Redb.Prepared ib) : Prop :=
  ∃ current, (match p.expected with
      | some _ => reg.tables[tableKey p.ident]?
      | none => reg.staged[tableKey p.ident]?) = some current ∧
    current.version = base.version ∧ current.metadataLocation = base.metadataLocation

/-- The metadata files a run has written. -/
def filesWritten (tr : List (RedbEvent ib)) : List Text :=
  tr.filterMap fun ev =>
    match ev.label with
    | .act _ (.writeMetadata _ location) (.ok _) => some location
    | _ => none

def metadataDirectory : Text := "/metadata/".toList

/-- Metadata files lie where the table's location says. -/
def Env.conventional : Env Iceberg.plain :=
  { Env.empty Iceberg.plain with
    readMetadata := fun location =>
      .ok ((Text.splitOnceStr metadataDirectory location).elim [] Prod.fst) }

def stagedIdent : TableIdent := ⟨["db".toList], "t".toList⟩

def stageAt (location : Text) : Request Iceberg.plain :=
  .stageCreateTable ["db".toList] ⟨"t".toList, some location, ()⟩

def stagedCommit : Iceberg.plain.TableChange := ⟨stagedIdent, [.notExist], []⟩

/-- The commit has computed from the first staging when the second comes. -/
def restageSchedule : List (Move (Request Iceberg.plain)) :=
  [.start (.createNamespace ["db".toList] ∅), .step 0,
    .start (stageAt "s3://bucket/wh/db/t/a".toList), .step 1, .step 1, .step 1, .step 1, .step 1,
    .start (.commitTable stagedCommit), .step 2, .step 2, .step 2, .step 2, .step 2,
    .start (stageAt "s3://bucket/wh/db/t/b".toList), .step 3, .step 3, .step 3, .step 3, .step 3]

def restaged : List (RedbEvent Iceberg.plain) × RedbConfig Iceberg.plain :=
  Config.moves (fun q => (Redb.serve bucket q).run) Env.conventional.onRegistry
    ⟨Registry.empty, []⟩ restageSchedule

/-- Then its swap comes. -/
def restagedSwap : List (RedbEvent Iceberg.plain) × RedbConfig Iceberg.plain :=
  restaged.2.move (fun q => (Redb.serve bucket q).run) Env.conventional.onRegistry (.step 2)

theorem restagedSwap_run :
    RedbRun bucket Registry.empty (restaged.1 ++ restagedSwap.1) restagedSwap.2 := by
  have hrun : RedbRun bucket Registry.empty restaged.1 restaged.2 :=
    Run.nil.moves Env.conventional.onRegistry_sem restageSchedule
  exact hrun.move Env.conventional.onRegistry_sem (.step 2)

def firstStaging : TabularRecord :=
  ⟨["db".toList], "t".toList, "s3://bucket/wh/db/t/a/metadata/00000-0.metadata.json".toList, 0⟩

def stagedTable : Redb.Prepared Iceberg.plain :=
  ⟨stagedIdent, none, "s3://bucket/wh/db/t/a".toList,
    "s3://bucket/wh/db/t/a/metadata/00001-0.metadata.json".toList⟩

/-- The commit computed its table from the first staging. -/
theorem restaged_computed :
    ComputedAll bucket [stagedCommit] (actsOf 2 restaged.1) [(firstStaging, stagedTable)] := by
  -- long texts are spelled out before the run is evaluated
  have hstaging : firstStaging = ⟨["db".toList], "t".toList, _, 0⟩ :=
    congrArg (TabularRecord.mk _ _ · 0) String.toList_ofList
  have htable : stagedTable = ⟨stagedIdent, none, stagedTable.metadata, _⟩ :=
    congrArg (Redb.Prepared.mk _ _ stagedTable.metadata) String.toList_ofList
  have hname : MetadataFile.nextTable Iceberg.plain "0".toList firstStaging.metadataLocation
      stagedTable.metadata = .ok stagedTable.newLocation := by
    rw [hstaging, htable]
    decide
  have hone := @Computed.create Iceberg.plain bucket stagedCommit firstStaging
    "s3://bucket/wh/db/t/a".toList stagedTable.metadata "0".toList stagedTable.newLocation
    rfl rfl hname
  have hacts : actsOf 2 restaged.1 =
      [⟨.getTabular .table (tableKey stagedIdent), .ok none⟩,
        ⟨.getStaged (tableKey stagedIdent), .ok (some firstStaging)⟩,
        ⟨.readMetadata firstStaging.metadataLocation, .ok "s3://bucket/wh/db/t/a".toList⟩,
        ⟨.newUuid, .ok "0".toList⟩,
        ⟨.writeMetadata stagedTable.metadata stagedTable.newLocation, .ok ()⟩] := by
    rw [hstaging, htable]
    rfl
  rw [hacts]
  exact .cons hone .nil

theorem restagedSwap_event : restagedSwap.1 =
    [⟨restaged.2.state,
      .act 2 (.write (.swap (swapsOf [(firstStaging, stagedTable)]))) (.ok ()),
      restagedSwap.2.state⟩] := by
  have hstaging : firstStaging = ⟨["db".toList], "t".toList, _, 0⟩ :=
    congrArg (TabularRecord.mk _ _ · 0) String.toList_ofList
  have htable : stagedTable = ⟨stagedIdent, none, stagedTable.metadata, _⟩ :=
    congrArg (Redb.Prepared.mk _ _ stagedTable.metadata) String.toList_ofList
  rw [hstaging, htable]
  rfl

theorem restaged_second : (restaged.2.state.staged[tableKey stagedIdent]?).map
    TabularRecord.metadataLocation =
      some "s3://bucket/wh/db/t/b/metadata/00000-0.metadata.json".toList := by
  rw [String.toList_ofList]
  decide

theorem staged_commit_replaces_another :
    ¬ ∀ (ib : Iceberg) (c : Catalog) (tr₁ tr₂ : List (RedbEvent ib)) (ev : RedbEvent ib)
      (cfg : RedbConfig ib), RedbRun c Registry.empty (tr₁ ++ ev :: tr₂) cfg →
        (filesWritten (tr₁ ++ ev :: tr₂)).Nodup →
        ∀ (i : Nat) (changes : List ib.TableChange) (h₁ h₂ : Path ib)
          (computed : List (TabularRecord × Redb.Prepared ib)),
          ev.label = .act i (.write (.swap (swapsOf computed))) (.ok ()) →
          actsOf i tr₁ = h₁ ++ h₂ → ComputedAll c changes h₂ computed →
          ∀ x ∈ computed, InPlace ev.pre x.1 x.2 := by
  intro hall
  have hrun := restagedSwap_run
  have hfresh : (filesWritten (restaged.1 ++ restagedSwap.1)).Nodup := by decide
  rw [restagedSwap_event] at hrun hfresh
  obtain ⟨current, hcurrent, -, hlocation⟩ := hall _ _ _ _ _ _ hrun hfresh 2 _ [] _ _ rfl
    (List.nil_append _).symm restaged_computed _ (List.mem_singleton_self _)
  have hsecond := restaged_second
  rw [show restaged.2.state.staged[tableKey stagedIdent]? = some current from hcurrent,
    Option.map_some, hlocation] at hsecond
  have hfirst : firstStaging.metadataLocation = _ := String.toList_ofList
  rw [hfirst, String.toList_ofList] at hsecond
  exact absurd hsecond (by decide)

/-! ## Two commits that race for one pointer

Both read the table that the staged commit made. The second finds the record
moved when its swap comes, and computes again from what the first has put
there. -/

def pointerCommit : Iceberg.plain.TableChange := ⟨stagedIdent, [], []⟩

/-- Four steps take a commit up to its swap, and a lost swap back to its pause. -/
def racedSchedule : List (Move (Request Iceberg.plain)) :=
  [.start (.commitTable pointerCommit), .step 4, .step 4, .step 4, .step 4,
    .start (.commitTable pointerCommit), .step 5, .step 5, .step 5, .step 5,
    .step 4, .step 5, .step 5, .step 5, .step 5, .step 5, .step 5, .step 5]

def raced : List (RedbEvent Iceberg.plain) × RedbConfig Iceberg.plain :=
  Config.moves (fun q => (Redb.serve bucket q).run) Env.conventional.onRegistry
    restagedSwap.2 racedSchedule

def racedTrace : List (RedbEvent Iceberg.plain) := restaged.1 ++ restagedSwap.1 ++ raced.1

theorem raced_run : RedbRun bucket Registry.empty racedTrace raced.2 :=
  restagedSwap_run.moves Env.conventional.onRegistry_sem racedSchedule

theorem raced_calls : ∃ first second : Reply Iceberg.plain,
    raced.2.calls[4]? = some ⟨.commitTable pointerCommit, .done (.ok first)⟩ ∧
      raced.2.calls[5]? = some ⟨.commitTable pointerCommit, .done (.ok second)⟩ :=
  ⟨_, _, rfl, rfl⟩

/-- The three locations the record has had. -/
theorem raced_trail : trailOf Registry.empty racedTrace (tableKey stagedIdent) =
    ["s3://bucket/wh/db/t/a/metadata/00003-0.metadata.json".toList,
      "s3://bucket/wh/db/t/a/metadata/00002-0.metadata.json".toList,
      "s3://bucket/wh/db/t/a/metadata/00001-0.metadata.json".toList] := by
  rw [String.toList_ofList, String.toList_ofList, String.toList_ofList]
  decide +kernel

theorem commits_lose_no_update_raced : ∃ first second : Reply Iceberg.plain,
    CommitOutcome bucket [pointerCommit] 4 racedTrace (.done (.ok first)) ∧
      CommitOutcome bucket [pointerCommit] 5 racedTrace (.done (.ok second)) ∧
      ∃ newest middle oldest, trailOf Registry.empty racedTrace (tableKey stagedIdent) =
          [newest, middle, oldest] ∧
        ComputedFrom bucket racedTrace raced.2 newest middle ∧
        ComputedFrom bucket racedTrace raced.2 middle oldest := by
  obtain ⟨houtcome, -, htrails⟩ :=
    commits_lose_no_update bucket Registry.empty racedTrace raced.2 raced_run
  obtain ⟨first, second, hfirst, hsecond⟩ := raced_calls
  have hchain := htrails.chain (tableKey stagedIdent)
  rw [raced_trail, List.isChain_cons_cons, List.isChain_cons_cons] at hchain
  exact ⟨first, second, houtcome 4 _ _ hfirst rfl, houtcome 5 _ _ hsecond rfl,
    _, _, _, raced_trail, hchain.1, hchain.2.1⟩

end Rustberg
