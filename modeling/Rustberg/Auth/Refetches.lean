import Rustberg.Auth.SigningKeys

/-!
# How often key sets are fetched

A lookup begins an upstream fetch at two places: where it finds no
unexpired key set cached, and where it claims the slot of a refetch that an
unknown key id forces (`awaits_fetch_iff`). The slot keeps the second kind
`minJwksRefetchInterval` apart whatever happens (`forced_apart`). Nothing
keeps the first kind apart but a stored key set: while a fetch is under way,
and after one has failed, every lookup begins its own
(`three_lookups_fetch`). `fetches_bounded` is the bound where that does not
happen.
-/

namespace Rustberg.Auth

open Process

variable {jt : Jsonwebtoken}

/-- Why a fetch begins: no unexpired key set, or an unknown key id. -/
inductive Cause where
  | expired
  | forced
  deriving DecidableEq

/-- The accesses after which a lookup fetches. -/
def begins : (Σ e : Access jt, e.Answer) → Option Cause
  | ⟨.cachedJwks, none⟩ => some .expired
  | ⟨.mayRefetch, true⟩ => some .forced
  | _ => none

/-! ## Where a fetch begins -/

/-- The last access of a call begins a fetch. -/
def FetchBegun (h : Seen jt) : Prop := ∃ h' x, h = h' ++ [x] ∧ (begins x).isSome

theorem fetchBegun_snoc (h : Seen jt) (x : Σ e : Access jt, e.Answer) :
    FetchBegun (h ++ [x]) ↔ (begins x).isSome := by
  constructor
  · rintro ⟨h', y, heq, hy⟩
    obtain ⟨-, hlast⟩ := List.append_inj' heq rfl
    rwa [List.singleton_inj.mp hlast]
  · intro hx
    exact ⟨h, x, rfl, hx⟩

/-- A call fetches exactly where its last access has begun a fetch. -/
def FetchIssues (h : Seen jt) (e : Access jt) : Prop := e = .fetch ↔ FetchBegun h

theorem fetchIssues_other {h : Seen jt} {e : Access jt} (hne : e ≠ .fetch) (h' : ¬ FetchBegun h) :
    FetchIssues h e := ⟨fun heq => absurd heq hne, fun hbegun => absurd hbegun h'⟩

theorem not_fetchBegun (h : Seen jt) {x : Σ e : Access jt, e.Answer} (hx : begins x = none) :
    ¬ FetchBegun (h ++ [x]) := by
  rw [fetchBegun_snoc, hx]
  simp

theorem refreshJwks_fetches {h : Seen jt} (hbegun : FetchBegun h) :
    Prog.Traced FetchIssues (fun h _ => ¬ FetchBegun h) h (refreshJwks : Lookup jt Jwks).run := by
  refine Prog.Traced.bind_except (Q := fun h _ => ¬ FetchBegun h)
    ⟨⟨fun _ => hbegun, fun _ => rfl⟩, fun r => ?_⟩ (fun _ _ hend => hend) fun h jwks hend => ?_
  · exact not_fetchBegun h (x := ⟨.fetch, r⟩) rfl
  · refine ⟨fetchIssues_other nofun hend, fun r => ⟨fetchIssues_other nofun ?_, fun r' => ?_⟩⟩
    · exact not_fetchBegun h (x := ⟨.purge, r⟩) rfl
    · exact not_fetchBegun _ (x := ⟨.store jwks, r'⟩) rfl

theorem getJwks_fetches {h : Seen jt} (hend : ¬ FetchBegun h) :
    Prog.Traced FetchIssues (fun h _ => ¬ FetchBegun h) h (getJwks false : Lookup jt Jwks).run := by
  refine ⟨fetchIssues_other nofun hend, fun r => ?_⟩
  cases r with
  | none => exact refreshJwks_fetches ⟨h, _, rfl, rfl⟩
  | some jwks => exact not_fetchBegun h (x := ⟨.cachedJwks, some jwks⟩) rfl

theorem rotated_fetches (kid : Text) (jwks : Jwks) {h : Seen jt} (hend : ¬ FetchBegun h) :
    Prog.Traced FetchIssues (fun h _ => ¬ FetchBegun h) h
      (rotated kid jwks : Lookup jt Jwks).run := by
  rw [rotated]
  split
  · exact hend
  · refine ⟨fetchIssues_other (fun h => by cases h) hend, fun r => ?_⟩
    cases r with
    | true => exact refreshJwks_fetches ⟨h, _, rfl, rfl⟩
    | false => exact not_fetchBegun h (x := ⟨.mayRefetch, false⟩) rfl

theorem getDecodingKey_fetches (kid : Text) :
    Prog.Traced FetchIssues (fun h _ => ¬ FetchBegun h) []
      (getDecodingKey kid : Lookup jt jt.DecodingKey).run := by
  have hnil : ¬ FetchBegun ([] : Seen jt) := by
    rintro ⟨h', x, heq, -⟩
    simp at heq
  refine ⟨fetchIssues_other nofun hnil, fun r => ?_⟩
  have hfirst : ¬ FetchBegun ([] ++ [(⟨.cachedKey kid, r⟩ : Σ e : Access jt, e.Answer)]) :=
    not_fetchBegun [] rfl
  cases r with
  | some key => exact hfirst
  | none =>
      refine Prog.Traced.bind_except (getJwks_fetches hfirst) (fun _ _ hend => hend)
        fun h jwks hend => ?_
      refine Prog.Traced.bind_except (rotated_fetches kid jwks hend) (fun _ _ hend => hend)
        fun h jwks hend => ?_
      refine Prog.Traced.bind_except (Q := fun h _ => ¬ FetchBegun h) hend (fun _ _ hend => hend)
        fun h key hend => ?_
      refine ⟨fetchIssues_other nofun hend, fun r => ?_⟩
      exact not_fetchBegun h (x := ⟨.remember kid key, r⟩) rfl

section

variable {ttl start : Nat} {tr : List (KeyEvent jt)} {cfg : KeyConfig jt}

/-- A call waits for an upstream fetch exactly where its last access begins one. -/
theorem awaits_fetch_iff (hrun : KeyRun ttl start tr cfg) {i : Nat} {kid : Text}
    {rest : Prog (Access jt) Access.Answer (Except AuthError jt.DecodingKey)}
    (hi : cfg.calls[i]? = some ⟨kid, rest⟩) :
    (∃ k, rest = .perform .fetch k) ↔ FetchBegun (actsOf i tr) := by
  have htraced := hrun.traced hi (getDecodingKey_fetches kid)
  cases rest with
  | done r => exact ⟨fun ⟨k, hk⟩ => (nomatch hk), fun hbegun => absurd hbegun htraced⟩
  | perform e k =>
      have hissues : e = .fetch ↔ FetchBegun (actsOf i tr) := htraced.1
      rw [← hissues]
      constructor
      · rintro ⟨k', hk⟩
        cases hk
        rfl
      · rintro rfl
        exact ⟨k, rfl⟩

/-! ## What keeps two fetches apart -/

/-- Why an event begins a fetch. -/
def cause (ev : KeyEvent jt) : Option Cause :=
  match ev.label with
  | .act _ e r => begins ⟨e, r⟩
  | _ => none

theorem begins_expired {x : Σ e : Access jt, e.Answer} (h : begins x = some .expired) :
    x = ⟨.cachedJwks, none⟩ := by
  unfold begins at h
  split at h
  · rfl
  · cases h
  · cases h

theorem begins_forced {x : Σ e : Access jt, e.Answer} (h : begins x = some .forced) :
    x = ⟨.mayRefetch, true⟩ := by
  unfold begins at h
  split at h
  · cases h
  · rfl
  · cases h

theorem label_of_cause {ev : KeyEvent jt} {c : Cause} (h : cause ev = some c) :
    ∃ i e r, ev.label = .act i e r ∧ begins ⟨e, r⟩ = some c := by
  unfold cause at h
  split at h
  next i e r hlabel => exact ⟨i, e, r, hlabel, h⟩
  next => cases h

theorem label_of_expired {ev : KeyEvent jt} (h : cause ev = some .expired) :
    ∃ i, ev.label = .act i .cachedJwks none := by
  obtain ⟨i, e, r, hlabel, hbegins⟩ := label_of_cause h
  cases begins_expired hbegins
  exact ⟨i, hlabel⟩

theorem label_of_forced {ev : KeyEvent jt} (h : cause ev = some .forced) :
    ∃ i, ev.label = .act i .mayRefetch true := by
  obtain ⟨i, e, r, hlabel, hbegins⟩ := label_of_cause h
  cases begins_forced hbegins
  exact ⟨i, hlabel⟩

/-- Time does not run back. -/
theorem KeyRun.clock_le (hrun : KeyRun ttl start tr cfg) {ev : KeyEvent jt} (hev : ev ∈ tr) :
    ev.pre.clock ≤ cfg.state.clock := by
  refine hrun.stays (K := fun s => ev.pre.clock ≤ s.clock) ?_ ?_ hev ?_
  · rintro e s r s' ⟨fetched, hsem⟩ hle
    rwa [(handle_grows hsem).1]
  · rintro s s' ⟨clock, hclock, rfl⟩ hle
    exact hle.trans hclock
  · rcases hrun.event_cases hev with ⟨q, -, hpost⟩ | ⟨i, e, r, -, fetched, hsem⟩ |
      ⟨-, clock, hclock, hpost⟩
    · rw [hpost]
    · rw [(handle_grows hsem).1]
    · rw [hpost]
      exact hclock

theorem KeyRun.handled (hrun : KeyRun ttl start tr cfg) {ev : KeyEvent jt} (hev : ev ∈ tr) {i : Nat}
    {e : Access jt} {r : e.Answer} (hlabel : ev.label = .act i e r) :
    ∃ fetched, (r, ev.post) = ev.pre.handle ttl fetched e := by
  rcases hrun.event_cases hev with ⟨q, hstart, -⟩ | ⟨j, e', r', hact, hsem⟩ | ⟨henv, -⟩
  · rw [hlabel] at hstart
    cases hstart
  · rw [hlabel] at hact
    cases hact
    exact hsem
  · rw [hlabel] at henv
    cases henv

/-- A stored key set stays cached for the TTL, by it or by one stored later. -/
theorem KeyRun.cached_of_store (hrun : KeyRun ttl start tr cfg) {ev : KeyEvent jt} (hev : ev ∈ tr)
    {i : Nat} {jwks : Jwks} (hlabel : ev.label = .act i (.store jwks) ()) :
    ∃ cached, cfg.state.jwksCache = some cached ∧ ev.pre.clock + ttl ≤ cached.expiresAt := by
  have hstays : ev.pre.clock ≤ cfg.state.clock ∧
      ∃ cached, cfg.state.jwksCache = some cached ∧ ev.pre.clock + ttl ≤ cached.expiresAt := by
    refine hrun.stays (K := fun s => ev.pre.clock ≤ s.clock ∧
      ∃ cached, s.jwksCache = some cached ∧ ev.pre.clock + ttl ≤ cached.expiresAt) ?_ ?_ hev ?_
    · rintro e s r s' ⟨fetched, hsem⟩ ⟨hle, cached, hcached, hexpires⟩
      obtain rfl := congrArg Prod.snd hsem
      cases e with
      | store jwks' => exact ⟨hle, _, rfl, Nat.add_le_add_right hle ttl⟩
      | mayRefetch =>
          simp only [Authenticator.handle]
          split
          · exact ⟨hle, cached, hcached, hexpires⟩
          · exact ⟨hle, cached, hcached, hexpires⟩
      | _ => exact ⟨hle, cached, hcached, hexpires⟩
    · rintro s s' ⟨clock, hclock, rfl⟩ ⟨hle, hcached⟩
      exact ⟨hle.trans hclock, hcached⟩
    · obtain ⟨fetched, hsem⟩ := hrun.handled hev hlabel
      obtain ⟨-, hpost⟩ := Prod.mk.inj hsem
      rw [hpost]
      exact ⟨Nat.le_refl _, _, rfl, Nat.le_refl _⟩
  exact hstays.2

/-- The slot remembers the last forced refetch. -/
theorem KeyRun.slot_of_forced (hrun : KeyRun ttl start tr cfg) {ev : KeyEvent jt} (hev : ev ∈ tr)
    {i : Nat} (hlabel : ev.label = .act i .mayRefetch true) :
    ∃ last, cfg.state.lastForcedRefetch = some last ∧ ev.pre.clock ≤ last := by
  have hstays : ev.pre.clock ≤ cfg.state.clock ∧
      ∃ last, cfg.state.lastForcedRefetch = some last ∧ ev.pre.clock ≤ last := by
    refine hrun.stays (K := fun s => ev.pre.clock ≤ s.clock ∧
      ∃ last, s.lastForcedRefetch = some last ∧ ev.pre.clock ≤ last) ?_ ?_ hev ?_
    · rintro e s r s' ⟨fetched, hsem⟩ ⟨hle, last, hlast, hafter⟩
      obtain rfl := congrArg Prod.snd hsem
      cases e with
      | mayRefetch =>
          simp only [Authenticator.handle]
          split
          · exact ⟨hle, _, rfl, hle⟩
          · exact ⟨hle, last, hlast, hafter⟩
      | _ => exact ⟨hle, last, hlast, hafter⟩
    · rintro s s' ⟨clock, hclock, rfl⟩ ⟨hle, hlast⟩
      exact ⟨hle.trans hclock, hlast⟩
    · obtain ⟨fetched, hsem⟩ := hrun.handled hev hlabel
      obtain ⟨hclaimed, hpost⟩ := Prod.mk.inj hsem
      rw [hpost, ← hclaimed]
      exact ⟨Nat.le_refl _, _, rfl, Nat.le_refl _⟩
  exact hstays.2

/-! ## Windows -/

/-- Times `d` apart leave at most one in a window shorter than `d`. -/
theorem length_le_one_of_apart {times : List Nat} {a b d : Nat}
    (hapart : times.Pairwise fun x y => x + d ≤ y) (hwithin : ∀ x ∈ times, a ≤ x ∧ x ≤ b)
    (hwindow : b < a + d) : times.length ≤ 1 := by
  match times, hapart, hwithin with
  | [], _, _ => simp
  | [x], _, _ => simp
  | x :: y :: _, hapart, hwithin =>
      have hxy : x + d ≤ y := (List.pairwise_cons.mp hapart).1 y List.mem_cons_self
      have hx := hwithin x List.mem_cons_self
      have hy := hwithin y (List.mem_cons_of_mem _ List.mem_cons_self)
      omega

def beginsIn (c : Cause) (a b : Nat) (ev : KeyEvent jt) : Bool :=
  decide (cause ev = some c ∧ a ≤ ev.pre.clock ∧ ev.pre.clock ≤ b)

/-- The fetches that begin for one reason from `a` up to `b`. -/
def fetchesFor (c : Cause) (a b : Nat) (tr : List (KeyEvent jt)) : List (KeyEvent jt) :=
  tr.filter (beginsIn c a b)

/-- The fetches that begin from `a` up to `b`. -/
def fetchesIn (a b : Nat) (tr : List (KeyEvent jt)) : List (KeyEvent jt) :=
  tr.filter fun ev => decide ((cause ev).isSome ∧ a ≤ ev.pre.clock ∧ ev.pre.clock ≤ b)

theorem length_fetchesIn (a b : Nat) (tr : List (KeyEvent jt)) :
    (fetchesIn a b tr).length =
      (fetchesFor .expired a b tr).length + (fetchesFor .forced a b tr).length := by
  induction tr with
  | nil => rfl
  | cons ev tr ih =>
      unfold fetchesIn fetchesFor beginsIn at *
      by_cases hin : a ≤ ev.pre.clock ∧ ev.pre.clock ≤ b
      · cases hcause : cause ev with
        | none => simpa [hcause] using ih
        | some c =>
            cases c with
            | expired =>
                simp only [List.filter_cons, hcause, hin, Option.isSome_some, and_self,
                  decide_true, if_true, List.length_cons, ih, reduceCtorEq, Option.some.injEq,
                  false_and, decide_false, Bool.false_eq_true, if_false]
                omega
            | forced =>
                simp only [List.filter_cons, hcause, hin, Option.isSome_some, and_self,
                  decide_true, if_true, List.length_cons, ih, reduceCtorEq, Option.some.injEq,
                  false_and, decide_false, Bool.false_eq_true, if_false]
                omega
      · simpa [List.filter_cons, hin] using ih

/-- Events of one cause that are `d` apart, counted in a window. -/
theorem length_fetchesFor_le {c : Cause} {a b d : Nat}
    (hapart : ∀ tr₁ first tr₂ second tr₃, tr = tr₁ ++ first :: tr₂ ++ second :: tr₃ →
      cause first = some c → cause second = some c → first.pre.clock + d ≤ second.pre.clock)
    (hwindow : b < a + d) : (fetchesFor c a b tr).length ≤ 1 := by
  have hbegins {ev : KeyEvent jt} (hev : beginsIn c a b ev = true) :
      cause ev = some c ∧ a ≤ ev.pre.clock ∧ ev.pre.clock ≤ b := of_decide_eq_true hev
  have hpairs : tr.Pairwise fun x y =>
      beginsIn c a b x → beginsIn c a b y → x.pre.clock + d ≤ y.pre.clock := by
    rw [List.pairwise_iff_forall_sublist]
    intro first second hsub hfirst hsecond
    obtain ⟨front, back, rfl, hfront, hback⟩ := List.cons_sublist_iff.mp hsub
    obtain ⟨tr₁, tr₂, rfl⟩ := List.append_of_mem hfront
    obtain ⟨tr₂', tr₃, rfl⟩ := List.append_of_mem (List.singleton_sublist.mp hback)
    exact hapart tr₁ first (tr₂ ++ tr₂') second tr₃ (by simp) (hbegins hfirst).1 (hbegins hsecond).1
  have htimes : ((fetchesFor c a b tr).map fun ev => ev.pre.clock).Pairwise
      fun x y => x + d ≤ y := by
    rw [List.pairwise_map]
    exact List.pairwise_filter.mpr hpairs
  rw [← List.length_map fun ev : KeyEvent jt => ev.pre.clock]
  refine length_le_one_of_apart htimes (fun x hx => ?_) hwindow
  obtain ⟨ev, hev, rfl⟩ := List.mem_map.mp hx
  exact (hbegins (List.of_mem_filter hev)).2

/-! ## The bound -/

/-- Forced refetches are an interval apart, whatever the calls and the answers. -/
theorem KeyRun.forced_apart (hrun : KeyRun ttl start tr cfg) {tr₁ tr₂ tr₃ : List (KeyEvent jt)}
    {first second : KeyEvent jt} (htr : tr = tr₁ ++ first :: tr₂ ++ second :: tr₃)
    (hfirst : cause first = some .forced) (hsecond : cause second = some .forced) :
    first.pre.clock + minJwksRefetchInterval ≤ second.pre.clock := by
  subst htr
  obtain ⟨i, hfirst⟩ := label_of_forced hfirst
  obtain ⟨j, hsecond⟩ := label_of_forced hsecond
  obtain ⟨c₁, c₂, hc₁, hstep, hpre, -⟩ := hrun.reaches
  have hmem : first ∈ tr₁ ++ first :: tr₂ := List.mem_append_right _ List.mem_cons_self
  obtain ⟨last, hlast, hafter⟩ := KeyRun.slot_of_forced hc₁ hmem hfirst
  obtain ⟨fetched, hsem⟩ := hrun.handled (List.mem_append_right _ List.mem_cons_self) hsecond
  have hclaimed : second.pre.mayRefetch = true := (Prod.mk.inj hsem).1.symm
  rw [hpre, Authenticator.mayRefetch, hlast] at hclaimed
  have hgap : minJwksRefetchInterval ≤ c₁.state.clock - last := of_decide_eq_true hclaimed
  have hpositive : 0 < minJwksRefetchInterval := by decide
  rw [hpre]
  omega

/-- A fetch that call `i` began for want of a key set less than an interval before `now`,
and that has stored none: it is under way, or has failed. -/
def Unsettled (now : Nat) (i : Nat) (tr : List (KeyEvent jt)) : Prop :=
  ∃ tr₁ ev tr₂, tr = tr₁ ++ ev :: tr₂ ∧ ev.label = .act i .cachedJwks none ∧
    now < ev.pre.clock + minJwksRefetchInterval ∧
    ∀ ev' ∈ tr₂, ∀ jwks, ev'.label ≠ .act i (.store jwks) ()

/-- No call finds the cached key set missing or expired while the fetch another began
for it is under way, or right after it failed. -/
def FetchesSettled (tr : List (KeyEvent jt)) : Prop :=
  ∀ tr₁ ev tr₂ j, tr = tr₁ ++ ev :: tr₂ → ev.label = .act j .cachedJwks none →
    ∀ i, ¬ Unsettled ev.pre.clock i tr₁

theorem KeyRun.expired_apart (hrun : KeyRun ttl start tr cfg) (httl : minJwksRefetchInterval ≤ ttl)
    (hsettled : FetchesSettled tr) {tr₁ tr₂ tr₃ : List (KeyEvent jt)} {first second : KeyEvent jt}
    (htr : tr = tr₁ ++ first :: tr₂ ++ second :: tr₃) (hfirst : cause first = some .expired)
    (hsecond : cause second = some .expired) :
    first.pre.clock + minJwksRefetchInterval ≤ second.pre.clock := by
  subst htr
  obtain ⟨i, hfirst⟩ := label_of_expired hfirst
  obtain ⟨j, hsecond⟩ := label_of_expired hsecond
  by_contra hnear
  have hstored : ∃ ev ∈ tr₂, ∃ jwks, ev.label = .act i (.store jwks) () := by
    by_contra hnone
    push Not at hnone
    exact hsettled _ second tr₃ j rfl hsecond i
      ⟨tr₁, first, tr₂, rfl, hfirst, Nat.lt_of_not_le hnear, hnone⟩
  obtain ⟨ev, hev, jwks, hstore⟩ := hstored
  obtain ⟨c₁, c₂, hc₁, hstep, hpre, -⟩ := hrun.reaches
  -- what the first call stored has not expired when the second one looks
  have hmem : ev ∈ tr₁ ++ first :: tr₂ := List.mem_append_right _ (List.mem_cons_of_mem _ hev)
  obtain ⟨cached, hcached, hexpires⟩ := KeyRun.cached_of_store hc₁ hmem hstore
  obtain ⟨fetched, hsem⟩ := hrun.handled (List.mem_append_right _ List.mem_cons_self) hsecond
  have hmiss : second.pre.unexpired = none := (Prod.mk.inj hsem).1.symm
  rw [hpre, Authenticator.unexpired, hcached, Option.map_eq_none_iff] at hmiss
  have hpassed : cached.expiresAt ≤ c₁.state.clock := by simpa using hmiss
  -- and it was stored after the first one looked
  have hlater : first.pre.clock ≤ ev.pre.clock := by
    obtain ⟨front, back, rfl⟩ := List.append_of_mem hev
    have hrun' : KeyRun ttl start ((tr₁ ++ first :: front) ++ ev :: back) c₁ := by
      simpa using hc₁
    obtain ⟨c₃, -, hc₃, -, hpre₃, -⟩ := hrun'.reaches
    rw [hpre₃]
    exact KeyRun.clock_le hc₃ (List.mem_append_right _ List.mem_cons_self)
  rw [hpre] at hnear
  omega

end

/-- In every window shorter than the interval at most one fetch begins for want of a key
set and at most one is forced, where no call finds the key set missing while a fetch
another began for it is under way or has just failed. -/
theorem fetches_bounded (jt : Jsonwebtoken) (ttl start : Nat) (tr : List (KeyEvent jt))
    (cfg : KeyConfig jt) (hrun : KeyRun ttl start tr cfg) (httl : minJwksRefetchInterval ≤ ttl)
    (hsettled : FetchesSettled tr) (a b : Nat) (hwindow : b < a + minJwksRefetchInterval) :
    (fetchesIn a b tr).length ≤ 2 ∧ (fetchesFor .expired a b tr).length ≤ 1 ∧
      (fetchesFor .forced a b tr).length ≤ 1 := by
  have hexpired : (fetchesFor .expired a b tr).length ≤ 1 := by
    refine length_fetchesFor_le (fun tr₁ first tr₂ second tr₃ htr hfirst hsecond => ?_) hwindow
    exact KeyRun.expired_apart hrun httl hsettled htr hfirst hsecond
  have hforced : (fetchesFor .forced a b tr).length ≤ 1 := by
    refine length_fetchesFor_le (fun tr₁ first tr₂ second tr₃ htr hfirst hsecond => ?_) hwindow
    exact KeyRun.forced_apart hrun htr hfirst hsecond
  have hsum := length_fetchesIn a b tr
  exact ⟨by omega, hexpired, hforced⟩

/-! ## Lookups that share their fetches -/

/-- The second lookup of `k1` begins while the first waits for its fetch, and looks for a key set
once there is one; `k2` is not in it, and while that is fetched again `k3` is looked up. -/
def busyLookups : List (KeyEvent Jsonwebtoken.plain) × PlainConfig :=
  lookups ⟨.new 0, []⟩ [.start "k1".toList, .start "k1".toList, .step 0, .step 0, .step 1, .step 0,
    .step 0, .step 0, .step 0, .step 1, .step 1, .start "k2".toList, .step 2, .step 2, .step 2,
    .start "k3".toList, .step 3, .step 3, .step 3, .step 2, .step 2, .step 2]

/-- Two hours later the key set has expired. -/
def laterLookup : List (KeyEvent Jsonwebtoken.plain) × PlainConfig :=
  lookups (passedTo (2 * oneHour) busyLookups.2) (.start "k1".toList :: List.replicate 6 (.step 4))

def busyTrace : List (KeyEvent Jsonwebtoken.plain) :=
  busyLookups.1 ++ [passing (2 * oneHour) busyLookups.2] ++ laterLookup.1

theorem busyTrace_run : KeyRun oneHour 0 busyTrace laterLookup.2 := by
  have hbusy : KeyRun oneHour 0 ([] ++ busyLookups.1) busyLookups.2 := lookups_run .nil _
  exact lookups_run (passedTo_run (2 * oneHour) hbusy (by decide)) _

/-- Every lookup of `tr`, which comes after `past`, that finds no key set comes an interval after
the others that found none. -/
def missesApart (past : List (KeyEvent Jsonwebtoken.plain)) :
    List (KeyEvent Jsonwebtoken.plain) → Bool
  | [] => true
  | ev :: tr =>
      (cause ev != some .expired || past.all fun first => cause first != some .expired ||
        decide (first.pre.clock + minJwksRefetchInterval ≤ ev.pre.clock)) &&
      missesApart (past ++ [ev]) tr

theorem settled_of_check {past tr : List (KeyEvent Jsonwebtoken.plain)}
    (h : missesApart past tr = true) {tr₁ tr₂ : List (KeyEvent Jsonwebtoken.plain)}
    {ev first : KeyEvent Jsonwebtoken.plain} (htr : tr = tr₁ ++ ev :: tr₂)
    (hev : cause ev = some .expired) (hfirst : cause first = some .expired)
    (hmem : first ∈ past ++ tr₁) : first.pre.clock + minJwksRefetchInterval ≤ ev.pre.clock := by
  induction tr₁ generalizing past tr with
  | nil =>
      subst htr
      rw [List.nil_append, missesApart, Bool.and_eq_true, hev, bne_self_eq_false,
        Bool.false_or] at h
      have hone := List.all_eq_true.mp h.1 first (by rwa [List.append_nil] at hmem)
      rw [hfirst, bne_self_eq_false, Bool.false_or] at hone
      exact of_decide_eq_true hone
  | cons ev' tr₁ ih =>
      subst htr
      rw [List.cons_append, missesApart, Bool.and_eq_true] at h
      exact ih h.2 rfl (by rwa [List.append_assoc, List.singleton_append])

theorem busyTrace_settled : FetchesSettled busyTrace := by
  have happart : missesApart [] busyTrace = true := by decide
  rintro tr₁ ev tr₂ j htr hlabel i ⟨tr₀, first, tr₁, rfl, hfirst, hnear, -⟩
  have hcauses : cause first = some .expired ∧ cause ev = some .expired := by
    simp [cause, hfirst, hlabel, begins]
  have hgap := settled_of_check happart htr hcauses.2 hcauses.1 (by simp)
  omega

/-- Of the four lookups at once two fetch, for each cause one: the bound is met. -/
theorem fetches_bounded_busy :
    (fetchesIn 0 0 busyTrace).length = 2 ∧ (fetchesFor .expired 0 0 busyTrace).length ≤ 1 ∧
      (fetchesFor .forced 0 0 busyTrace).length ≤ 1 ∧
        (fetchesIn (2 * oneHour) (2 * oneHour) busyTrace).length ≤ 2 := by
  have hbounded :=
    fetches_bounded Jsonwebtoken.plain oneHour 0 busyTrace laterLookup.2 busyTrace_run
    (by decide) busyTrace_settled
  obtain ⟨-, hexpired, hforced⟩ := hbounded 0 0 (by decide)
  exact ⟨by decide, hexpired, hforced, (hbounded (2 * oneHour) (2 * oneHour) (by decide)).1⟩

/-! ## Three lookups at once -/

/-- Three lookups begin before the first fetch is answered. -/
def threeLookups : List (KeyEvent Jsonwebtoken.plain) × PlainConfig :=
  lookups ⟨.new 0, []⟩ [.start "k1".toList, .start "k1".toList, .start "k1".toList,
    .step 0, .step 0, .step 1, .step 1, .step 2, .step 2, .step 0, .step 1, .step 2]

/-- All three fetch, in one instant. -/
theorem three_lookups_fetch :
    ¬ ∀ (jt : Jsonwebtoken) (ttl start : Nat) (tr : List (KeyEvent jt)) (cfg : KeyConfig jt),
      KeyRun ttl start tr cfg → minJwksRefetchInterval ≤ ttl →
        ∀ a b, b < a + minJwksRefetchInterval → (fetchesIn a b tr).length ≤ 2 := by
  intro hall
  have hrun : KeyRun oneHour 0 ([] ++ threeLookups.1) threeLookups.2 := lookups_run .nil _
  have hthree : (fetchesIn 0 0 threeLookups.1).length = 3 := rfl
  have hbound := hall _ oneHour 0 threeLookups.1 threeLookups.2 hrun (by decide) 0 0 (by decide)
  omega

end Rustberg.Auth
