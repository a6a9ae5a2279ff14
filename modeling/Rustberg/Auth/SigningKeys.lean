import Rustberg.Base.Process
import Rustberg.Base.Relation

/-!
# Signing keys and their two caches

`get_jwks` and `get_decoding_key` of `auth/jwt_authn.rs`, as programs over
the authenticator's two caches: the last key set the identity provider
published, which expires, and the keys decoded from it, which do not. A
call is suspended only at its upstream fetch.

`withdrawn_key_refused` is the freshness invariant: a key that is answered
was listed in a key set fetched less than the TTL ago, provided a decoded
key is only ever hit while the cached key set is unexpired and lists it.
The code does not look (`withdrawn_key_honoured`).
-/

namespace Rustberg.Auth

open Process

/-- `AuthError`, as verifying a token raises it. -/
inductive AuthError where
  | external (message : Text)
  | invalidToken (message : Text)
  deriving DecidableEq, Repr

/-- What the `jsonwebtoken` crate makes of a key's components. -/
structure Jsonwebtoken where
  DecodingKey : Type
  fromRsaComponents : Text → Text → Except Text DecodingKey
  fromEcComponents : Text → Text → Except Text DecodingKey
  fromEdComponents : Text → Except Text DecodingKey

/-- A JSON Web Key, the fields that are read. -/
structure Jwk where
  keyId : Text
  keyType : Text
  keyUse : Option Text
  n : Option Text
  e : Option Text
  crv : Option Text
  x : Option Text
  y : Option Text
  deriving DecidableEq

structure Jwks where
  keys : List Jwk
  deriving DecidableEq

namespace Jwk

def isSigningKey (jwk : Jwk) : Bool := jwk.keyUse.all (· == "sig".toList)

def missing (jwk : Jwk) (component : Text) : AuthError :=
  .invalidToken ("JWKS key '".toList ++ jwk.keyId ++ "' is a ".toList ++ jwk.keyType ++
    " key with no '".toList ++ component ++ "'".toList)

def component (jwk : Jwk) (name : Text) (value : Option Text) : Except AuthError Text :=
  match value with
  | some value => .ok value
  | none => .error (jwk.missing name)

def malformed (jwk : Jwk) (message : Text) : AuthError :=
  .invalidToken ("JWKS key '".toList ++ jwk.keyId ++ "' is malformed: ".toList ++ message)

def decodingKey (jt : Jsonwebtoken) (jwk : Jwk) : Except AuthError jt.DecodingKey :=
  if jwk.keyType = "RSA".toList then do
    let n ← jwk.component "n".toList jwk.n
    let e ← jwk.component "e".toList jwk.e
    (jt.fromRsaComponents n e).mapError jwk.malformed
  else if jwk.keyType = "EC".toList then do
    let x ← jwk.component "x".toList jwk.x
    let y ← jwk.component "y".toList jwk.y
    (jt.fromEcComponents x y).mapError jwk.malformed
  -- `OKP` also covers X25519, which signs nothing.
  else if jwk.keyType = "OKP".toList ∧ jwk.crv = some "Ed25519".toList then do
    let x ← jwk.component "x".toList jwk.x
    (jt.fromEdComponents x).mapError jwk.malformed
  else
    .error (.invalidToken ("JWKS key '".toList ++ jwk.keyId ++ "' has key type '".toList ++
      jwk.keyType ++ ("', which this catalog cannot verify signatures with. " ++
        "RSA, EC (P-256/P-384) and OKP (Ed25519) are supported.").toList))

end Jwk

/-- The decoding key a key set lists as a signing key under `kid`. -/
def Jwks.select (jt : Jsonwebtoken) (jwks : Jwks) (kid : Text) : Except AuthError jt.DecodingKey :=
  match jwks.keys.find? fun jwk => jwk.keyId == kid && jwk.isSigningKey with
  | some jwk => jwk.decodingKey jt
  | none => .error (.invalidToken "Key ID not found in JWKS".toList)

/-! ## Programs -/

/-- One access to a cache, or the upstream fetch. -/
inductive Access (jt : Jsonwebtoken) where
  | cachedKey (kid : Text)
  | cachedJwks
  | fetch
  | purge
  | store (jwks : Jwks)
  | mayRefetch
  | remember (kid : Text) (key : jt.DecodingKey)

variable {jt : Jsonwebtoken}

abbrev Access.Answer : Access jt → Type
  | .cachedKey _ => Option jt.DecodingKey
  | .cachedJwks => Option Jwks
  | .fetch => Except AuthError Jwks
  | .purge => Unit
  | .store _ => Unit
  | .mayRefetch => Bool
  | .remember .. => Unit

abbrev Lookup (jt : Jsonwebtoken) (α : Type) : Type :=
  ExceptT AuthError (Prog (Access jt) Access.Answer) α

def access (e : Access jt) : Lookup jt e.Answer := ExceptT.mk (.perform e fun r => .done (.ok r))

def fetchJwks : Lookup jt Jwks := ExceptT.mk (.perform .fetch .done)

def refreshJwks : Lookup jt Jwks := do
  let jwks ← fetchJwks
  -- Stale decoding keys go when the key set is refreshed.
  access .purge
  access (.store jwks)
  return jwks

def getJwks (force : Bool) : Lookup jt Jwks :=
  if force then refreshJwks
  else do
    match ← access .cachedJwks with
    | some jwks => return jwks
    | none => refreshJwks

/-- The key set to look `kid` up in: an unknown key id forces one refetch. -/
def rotated (kid : Text) (jwks : Jwks) : Lookup jt Jwks :=
  if jwks.keys.any fun jwk => jwk.keyId == kid then return jwks
  else do
    match ← access .mayRefetch with
    | true => getJwks true
    | false => return jwks

def getDecodingKey (kid : Text) : Lookup jt jt.DecodingKey := do
  match ← access (.cachedKey kid) with
  | some key => return key
  | none => do
      let jwks ← getJwks false
      let jwks ← rotated kid jwks
      let key ← ExceptT.mk (.done (jwks.select jt kid))
      access (.remember kid key)
      return key

/-! ## The authenticator -/

structure CachedJwks where
  jwks : Jwks
  expiresAt : Nat
  deriving DecidableEq

/-- The caches, the time, and every key set fetched so far with the time its
fetch completed. -/
structure Authenticator (jt : Jsonwebtoken) where
  jwksCache : Option CachedJwks
  decodingKeys : Relation jt.DecodingKey
  lastForcedRefetch : Option Nat
  clock : Nat
  fetched : List (Nat × Jwks)

/-- Thirty seconds, in nanoseconds. -/
def minJwksRefetchInterval : Nat := 30 * 10 ^ 9

namespace Authenticator

/-- `JwtAuthenticator::new` -/
def new (clock : Nat) : Authenticator jt := ⟨none, ∅, none, clock, []⟩

/-- The cached key set, while it has not expired. -/
def unexpired (s : Authenticator jt) : Option Jwks :=
  (s.jwksCache.filter fun cached => s.clock < cached.expiresAt).map CachedJwks.jwks

def mayRefetch (s : Authenticator jt) : Bool :=
  s.lastForcedRefetch.all fun last => minJwksRefetchInterval ≤ s.clock - last

/-- One access; `fetched` is what the identity provider answers. -/
def handle (ttl : Nat) (fetched : Except AuthError Jwks) :
    (e : Access jt) → Authenticator jt → e.Answer × Authenticator jt
  | .cachedKey kid, s => (s.decodingKeys[kid]?, s)
  | .cachedJwks, s => (s.unexpired, s)
  | .fetch, s =>
      (fetched, { s with
        fetched := match fetched with
          | .ok jwks => (s.clock, jwks) :: s.fetched
          | .error _ => s.fetched })
  | .purge, s => ((), { s with decodingKeys := ∅ })
  | .store jwks, s => ((), { s with jwksCache := some ⟨jwks, s.clock + ttl⟩ })
  | .mayRefetch, s =>
      (s.mayRefetch, if s.mayRefetch then { s with lastForcedRefetch := some s.clock } else s)
  | .remember kid key, s => ((), { s with decodingKeys := s.decodingKeys.insert kid key })

/-- Time passes. -/
def Passes (s s' : Authenticator jt) : Prop := ∃ clock, s.clock ≤ clock ∧ s' = { s with clock }

end Authenticator

abbrev KeyConfig (jt : Jsonwebtoken) :=
  Config (Access jt) Access.Answer (Except AuthError jt.DecodingKey) (Authenticator jt) Text

abbrev KeyEvent (jt : Jsonwebtoken) := Event (Access jt) Access.Answer (Authenticator jt) Text

/-- Any number of lookups, whatever key sets the identity provider answers. -/
abbrev KeyRun (ttl : Nat) (start : Nat) (tr : List (KeyEvent jt)) (cfg : KeyConfig jt) : Prop :=
  Run (fun kid => (getDecodingKey kid).run)
    (fun e s r s' => ∃ fetched, (r, s') = s.handle ttl fetched e) Authenticator.Passes
    ⟨.new start, []⟩ tr cfg

/-- A call that has not begun, waits for its upstream fetch, or is done. -/
inductive Suspended : Prog (Access jt) Access.Answer (Except AuthError jt.DecodingKey) → Prop
  | start {kid k} : Suspended (.perform (.cachedKey kid) k)
  | fetch {k} : Suspended (.perform .fetch k)
  | done {r} : Suspended (.done r)

/-- Time passes only while every call is suspended. -/
def PassesSuspended (ttl start : Nat) (tr : List (KeyEvent jt)) : Prop :=
  ∀ tr₁ ev tr₂ cfg, tr = tr₁ ++ ev :: tr₂ → ev.label = .env → KeyRun ttl start tr₁ cfg →
    ∀ call ∈ cfg.calls, Suspended call.rest

/-! ## What a call has in hand -/

abbrev Seen (jt : Jsonwebtoken) := Prog.History (Access jt) Access.Answer

/-- The key set a call works with after one more access, and whether it has
been stored. -/
def afterAccess (held : Option (Jwks × Bool)) : (Σ e : Access jt, e.Answer) → Option (Jwks × Bool)
  | ⟨.cachedJwks, some jwks⟩ => some (jwks, true)
  | ⟨.fetch, .ok jwks⟩ => some (jwks, false)
  | ⟨.fetch, .error _⟩ => none
  | ⟨.store _, _⟩ => held.map fun (jwks, _) => (jwks, true)
  | _ => held

def inHand (h : Seen jt) : Option (Jwks × Bool) := h.foldl afterAccess none

theorem inHand_snoc (h : Seen jt) (x : Σ e : Access jt, e.Answer) :
    inHand (h ++ [x]) = afterAccess (inHand h) x := by
  rw [inHand, List.foldl_append]
  rfl

/-- What a call does, given what it has seen. -/
def KeyIssues (kid : Text) (h : Seen jt) : Access jt → Prop
  | .cachedKey kid' => h = [] ∧ kid' = kid
  | .store jwks => inHand h = some (jwks, false)
  | .remember kid' key => kid' = kid ∧ ∃ jwks, inHand h = some (jwks, true) ∧
      jwks.select jt kid = .ok key
  | _ => True

/-- A key is answered from the cache or after it is remembered. -/
def KeyAnswers (kid : Text) (h : Seen jt) (r : Except AuthError jt.DecodingKey) : Prop :=
  ∀ key, r = .ok key → h = [⟨.cachedKey kid, some key⟩] ∨
    ∃ h', h = h' ++ [⟨.remember kid key, ()⟩]

/-- A stored key set in hand, where the program goes on with it. -/
def HoldsJwks (h : Seen jt) (r : Except AuthError Jwks) : Prop :=
  ∀ jwks, r = .ok jwks → inHand h = some (jwks, true)

theorem refreshJwks_traced (kid : Text) (h : Seen jt) :
    Prog.Traced (KeyIssues kid) HoldsJwks h (refreshJwks : Lookup jt Jwks).run := by
  refine Prog.Traced.bind_except
    (Q := fun h r => ∀ jwks, r = .ok jwks → inHand h = some (jwks, false)) ⟨trivial,
      fun r jwks hr => ?_⟩
    (fun _ _ _ _ hr => by cases hr) fun h jwks hjwks => ?_
  · subst hr
    rw [inHand_snoc]
    rfl
  · have hheld := hjwks jwks rfl
    refine ⟨trivial, fun _ => ⟨?_, fun _ jwks' hr => ?_⟩⟩
    · rw [KeyIssues, inHand_snoc]
      exact hheld
    · cases hr
      rw [inHand_snoc, inHand_snoc, hheld]
      rfl

theorem getJwks_traced (kid : Text) (force : Bool) (h : Seen jt) :
    Prog.Traced (KeyIssues kid) HoldsJwks h (getJwks force : Lookup jt Jwks).run := by
  cases force with
  | true => exact refreshJwks_traced kid h
  | false =>
      refine ⟨trivial, fun r => ?_⟩
      cases r with
      | none => exact refreshJwks_traced kid _
      | some jwks =>
          intro jwks' hr
          cases hr
          rw [inHand_snoc]
          rfl

theorem rotated_traced (kid : Text) (jwks : Jwks) (h : Seen jt)
    (hheld : inHand h = some (jwks, true)) :
    Prog.Traced (KeyIssues kid) HoldsJwks h (rotated kid jwks : Lookup jt Jwks).run := by
  rw [rotated]
  split
  · intro jwks' hr
    cases hr
    exact hheld
  · refine ⟨trivial, fun r => ?_⟩
    cases r with
    | true => exact getJwks_traced kid true _
    | false =>
        intro jwks' hr
        cases hr
        rw [inHand_snoc, hheld]
        rfl

theorem getDecodingKey_traced (kid : Text) :
    Prog.Traced (KeyIssues kid) (KeyAnswers kid) []
      (getDecodingKey kid : Lookup jt jt.DecodingKey).run := by
  refine ⟨⟨rfl, rfl⟩, fun r => ?_⟩
  cases r with
  | some key =>
      intro key' hr
      cases hr
      exact Or.inl rfl
  | none =>
      refine Prog.Traced.bind_except (getJwks_traced kid false _) (fun _ _ _ _ hr => by cases hr)
        fun h jwks hjwks => ?_
      refine Prog.Traced.bind_except (rotated_traced kid jwks h (hjwks jwks rfl))
        (fun _ _ _ _ hr => by cases hr) fun h jwks hjwks => ?_
      refine Prog.Traced.bind_except
        (Q := fun h r => ∀ key, r = .ok key → inHand h = some (jwks, true) ∧
          jwks.select jt kid = .ok key)
        (fun key hr => ⟨hjwks jwks rfl, hr⟩) (fun _ _ _ _ hr => by cases hr) fun h key hkey => ?_
      refine ⟨⟨rfl, jwks, hkey key rfl⟩, fun _ key' hr => ?_⟩
      cases hr
      exact Or.inr ⟨h, rfl⟩

/-! ## Freshness -/

/-- The cached key set was fetched when it was stored. -/
def CacheFetched (ttl : Nat) (s : Authenticator jt) : Prop :=
  ∀ cached, s.jwksCache = some cached →
    ∃ at', (at', cached.jwks) ∈ s.fetched ∧ cached.expiresAt = at' + ttl

/-- The key set a call has in hand was fetched less than the TTL ago, and just
now if it has not been stored. -/
def HandFetched (ttl : Nat) (h : Seen jt) (s : Authenticator jt) : Prop :=
  ∀ jwks stored, inHand h = some (jwks, stored) →
    ∃ at', (at', jwks) ∈ s.fetched ∧ s.clock ≤ at' + ttl ∧ (stored = false → at' = s.clock)

/-- Every hit of a decoded key comes while the cached key set is unexpired and
lists that key. -/
def HitsListed (tr : List (KeyEvent jt)) : Prop :=
  ∀ ev ∈ tr, ∀ i kid key, ev.label = .act i (.cachedKey kid) (some key) →
    ∃ jwks, ev.pre.unexpired = some jwks ∧ jwks.select jt kid = .ok key

section

variable {ttl start : Nat} {s s' : Authenticator jt} {e : Access jt} {r : e.Answer}
  {fetched : Except AuthError Jwks}

/-- No access turns the clock or forgets a fetch. -/
theorem handle_grows (h : (r, s') = s.handle ttl fetched e) :
    s'.clock = s.clock ∧ s.fetched ⊆ s'.fetched := by
  obtain rfl := congrArg Prod.snd h
  cases e with
  | fetch => cases fetched <;> simp [Authenticator.handle]
  | mayRefetch =>
      simp only [Authenticator.handle]
      split <;> simp
  | _ => exact ⟨rfl, List.Subset.refl _⟩

theorem HandFetched.grows {h : Seen jt} (hheld : HandFetched ttl h s) (hclock : s'.clock = s.clock)
    (hfetched : s.fetched ⊆ s'.fetched) : HandFetched ttl h s' := by
  intro jwks stored hhand
  obtain ⟨at', hmem, hle, hnow⟩ := hheld jwks stored hhand
  rw [hclock]
  exact ⟨at', hfetched hmem, hle, hnow⟩

/-- What a call's next access makes of what it has in hand. -/
theorem HandFetched.access {h : Seen jt} (hheld : e ≠ .fetch → HandFetched ttl h s)
    (hcache : CacheFetched ttl s) (hsem : (r, s') = s.handle ttl fetched e) :
    HandFetched ttl (h ++ [⟨e, r⟩]) s' := by
  obtain ⟨hclock, hfetched⟩ := handle_grows hsem
  intro jwks stored hhand
  rw [inHand_snoc] at hhand
  cases e with
  | cachedKey kid => exact (hheld nofun).grows hclock hfetched jwks stored hhand
  | cachedJwks =>
      obtain ⟨rfl, rfl⟩ := Prod.mk.inj hsem
      cases hun : s'.unexpired with
      | none =>
          rw [hun] at hhand
          exact hheld nofun jwks stored hhand
      | some cached =>
          rw [hun] at hhand
          cases hhand
          obtain ⟨entry, hentry, rfl⟩ := Option.map_eq_some_iff.mp hun
          obtain ⟨hentry, hlt⟩ := Option.filter_eq_some_iff.mp hentry
          obtain ⟨at', hmem, hexpires⟩ := hcache entry hentry
          have hlt := of_decide_eq_true hlt
          exact ⟨at', hmem, by omega, nofun⟩
  | fetch =>
      obtain ⟨rfl, rfl⟩ := Prod.mk.inj hsem
      cases r with
      | error err => cases hhand
      | ok jwks' =>
          cases hhand
          exact ⟨_, List.mem_cons_self, Nat.le_add_right _ _, fun _ => rfl⟩
  | store jwks' =>
      obtain ⟨⟨jwks'', stored'⟩, hheld', heq⟩ := Option.map_eq_some_iff.mp hhand
      cases heq
      obtain ⟨at', hmem, hle, -⟩ := hheld nofun jwks stored' hheld'
      rw [hclock]
      exact ⟨at', hfetched hmem, hle, nofun⟩
  | purge => exact (hheld nofun).grows hclock hfetched jwks stored hhand
  | mayRefetch => exact (hheld nofun).grows hclock hfetched jwks stored hhand
  | remember kid key => exact (hheld nofun).grows hclock hfetched jwks stored hhand

theorem CacheFetched.access {kid : Text} {h : Seen jt} (hcache : CacheFetched ttl s)
    (hheld : e ≠ .fetch → HandFetched ttl h s) (hissues : KeyIssues kid h e)
    (hsem : (r, s') = s.handle ttl fetched e) : CacheFetched ttl s' := by
  obtain ⟨-, hfetched⟩ := handle_grows hsem
  have hsame : s'.jwksCache = s.jwksCache → CacheFetched ttl s' := by
    intro heq cached hcached
    rw [heq] at hcached
    obtain ⟨at', hmem, hexpires⟩ := hcache cached hcached
    exact ⟨at', hfetched hmem, hexpires⟩
  cases e with
  | store jwks =>
      -- A key set is stored in the instant its fetch completes.
      obtain ⟨at', hmem, -, hnow⟩ := hheld nofun jwks false hissues
      obtain ⟨-, rfl⟩ := Prod.mk.inj hsem
      intro cached hcached
      cases hcached
      exact ⟨at', hmem, by rw [hnow rfl]⟩
  | mayRefetch =>
      obtain ⟨-, rfl⟩ := Prod.mk.inj hsem
      refine hsame ?_
      split <;> rfl
  | fetch => exact hsame (by obtain ⟨-, rfl⟩ := Prod.mk.inj hsem; rfl)
  | cachedKey kid => exact hsame (by obtain ⟨-, rfl⟩ := Prod.mk.inj hsem; rfl)
  | cachedJwks => exact hsame (by obtain ⟨-, rfl⟩ := Prod.mk.inj hsem; rfl)
  | purge => exact hsame (by obtain ⟨-, rfl⟩ := Prod.mk.inj hsem; rfl)
  | remember kid key => exact hsame (by obtain ⟨-, rfl⟩ := Prod.mk.inj hsem; rfl)

variable {tr : List (KeyEvent jt)} {cfg : KeyConfig jt}

/-- Over a run: the cached key set, and what every call about to go on has in hand. -/
theorem KeyRun.allFetched (hrun : KeyRun ttl start tr cfg)
    (hpasses : PassesSuspended ttl start tr) :
    CacheFetched ttl cfg.state ∧ ∀ i q e k, cfg.calls[i]? = some ⟨q, .perform e k⟩ → e ≠ .fetch →
      HandFetched ttl (actsOf i tr) cfg.state := by
  induction hrun with
  | nil => exact ⟨fun _ hcached => (by cases hcached), fun i q e k hi => by simp at hi⟩
  | @snoc tr cfg cfg' l hr hs ih =>
      obtain ⟨hcache, hheld⟩ := ih fun tr₁ ev tr₂ cfg₁ htr =>
        hpasses tr₁ ev (tr₂ ++ [⟨cfg.state, l, cfg'.state⟩]) cfg₁ (by rw [htr]; simp)
      have hrun' := hr.snoc hs
      -- A call that has not begun has nothing in hand.
      have hbegin : ∀ i q kid k, cfg'.calls[i]? = some ⟨q, .perform (.cachedKey kid) k⟩ →
          HandFetched ttl (actsOf i (tr ++ [⟨cfg.state, l, cfg'.state⟩])) cfg'.state := by
        intro i q kid k hi
        have hnil := (hrun'.traced hi (getDecodingKey_traced q)).1.1
        rw [hnil]
        exact fun _ _ hhand => by cases hhand
      cases hs with
      | start q' =>
          refine ⟨hcache, fun i q e k hi hne => ?_⟩
          rcases Nat.lt_or_ge i cfg.calls.length with hlt | hge
          · have hacts : actsOf i (tr ++ [⟨cfg.state, .start q', cfg.state⟩]) = actsOf i tr := by
              simp [actsOf]
            rw [hacts]
            change (cfg.calls ++ _)[i]? = _ at hi
            rw [List.getElem?_append_left hlt] at hi
            exact hheld i q e k hi hne
          · have hnew := hi
            change (cfg.calls ++ [⟨q', (getDecodingKey q').run⟩])[i]? = _ at hnew
            rw [List.getElem?_append_right hge, List.getElem?_singleton] at hnew
            split at hnew
            · cases hnew
              exact hbegin i _ _ _ hi
            · cases hnew
      | env s' hs =>
          obtain ⟨clock, -, rfl⟩ := hs
          refine ⟨hcache, fun i q e k hi hne => ?_⟩
          have hsuspended := hpasses tr _ [] cfg rfl rfl hr _ (List.mem_of_getElem? hi)
          cases hsuspended with
          | start => exact hbegin i q _ _ hi
          | fetch => exact absurd rfl hne
      | act j q' e' k' r s' hj hs =>
          obtain ⟨answer, hsem⟩ := hs
          have hissues := (hr.traced hj (getDecodingKey_traced q')).1
          refine ⟨hcache.access (hheld j q' e' k' hj) hissues hsem, fun i q e k hi hne => ?_⟩
          by_cases hij : j = i
          · subst hij
            rw [actsOf_append, actsOf_act]
            exact HandFetched.access (hheld j q' e' k' hj) hcache hsem
          · have hacts : actsOf i (tr ++ [⟨cfg.state, .act j e' r, s'⟩]) = actsOf i tr := by
              simp [actsOf, hij]
            rw [hacts]
            obtain ⟨hclock, hfetched⟩ := handle_grows hsem
            change (cfg.calls.set j _)[i]? = _ at hi
            rw [List.getElem?_set_ne hij] at hi
            exact (hheld i q e k hi hne).grows hclock hfetched

theorem PassesSuspended.of_append {tr₁ tr₂ : List (KeyEvent jt)}
    (h : PassesSuspended ttl start (tr₁ ++ tr₂)) : PassesSuspended ttl start tr₁ :=
  fun tr₀ ev tr₃ cfg htr => h tr₀ ev (tr₃ ++ tr₂) cfg (by rw [htr]; simp)

theorem PassesSuspended.nil : PassesSuspended ttl start ([] : List (KeyEvent jt)) :=
  fun _ _ _ _ htr => absurd htr.symm (by simp)

/-- Time passes once more. -/
theorem PassesSuspended.snoc {tr : List (KeyEvent jt)} {ev : KeyEvent jt}
    (h : PassesSuspended ttl start tr) (hsuspended : ev.label = .env → ∀ cfg,
      KeyRun ttl start tr cfg → ∀ call ∈ cfg.calls, Suspended call.rest) :
    PassesSuspended ttl start (tr ++ [ev]) := by
  intro tr₁ ev' tr₂ cfg htr henv hrun
  rcases List.eq_nil_or_concat tr₂ with rfl | ⟨tr₂, last, rfl⟩
  · obtain ⟨rfl, heq⟩ := List.append_inj' htr rfl
    obtain rfl := List.singleton_inj.mp heq
    exact hsuspended henv cfg hrun
  · rw [List.concat_eq_append, ← List.cons_append, ← List.append_assoc] at htr
    exact h tr₁ ev' tr₂ cfg (List.append_inj' htr rfl).1 henv hrun

/-- Calls act, and no time passes. -/
theorem PassesSuspended.append {tr tr' : List (KeyEvent jt)} (h : PassesSuspended ttl start tr)
    (hacts : ∀ ev ∈ tr', ev.label ≠ .env) : PassesSuspended ttl start (tr ++ tr') := by
  induction tr' generalizing tr with
  | nil => rwa [List.append_nil]
  | cons ev tr' ih =>
      obtain ⟨hev, hrest⟩ := List.forall_mem_cons.mp hacts
      rw [← List.singleton_append, ← List.append_assoc]
      exact ih (h.snoc fun henv => absurd henv hev) hrest

end

/-- A key set lists a key as a signing key under `kid`. -/
def Jwks.Lists (jwks : Jwks) (kid : Text) (key : jt.DecodingKey) : Prop :=
  ∃ jwk ∈ jwks.keys, jwk.keyId = kid ∧ jwk.isSigningKey = true ∧ jwk.decodingKey jt = .ok key

theorem Jwks.lists_of_select {jwks : Jwks} {kid : Text} {key : jt.DecodingKey}
    (h : jwks.select jt kid = .ok key) : jwks.Lists kid key := by
  rw [select] at h
  split at h
  · next jwk hfind =>
      have hmatch := List.find?_some hfind
      rw [Bool.and_eq_true, beq_iff_eq] at hmatch
      exact ⟨jwk, List.mem_of_find?_eq_some hfind, hmatch.1, hmatch.2, h⟩
  · cases h

/-- When call `i` answers `key`, a key set that lists it was fetched within the
TTL before, or while the call ran. -/
def AnsweredFresh (ttl : Nat) (i : Nat) (kid : Text) (key : jt.DecodingKey)
    (tr : List (KeyEvent jt)) : Prop :=
  ∃ (tr₁ : List (KeyEvent jt)) (ev : KeyEvent jt) (tr₂ : List (KeyEvent jt)),
    tr = tr₁ ++ ev :: tr₂ ∧ (∃ e r, ev.label = .act i e r) ∧ actsOf i tr₂ = [] ∧
    ∃ (at' : Nat) (jwks : Jwks), (at', jwks) ∈ ev.post.fetched ∧ jwks.Lists kid key ∧
      (ev.post.clock ≤ at' + ttl ∨
        ∃ ev₀ ∈ tr, (∃ e r, ev₀.label = .act i e r) ∧ ev₀.pre.clock ≤ at')

/-- A signing key that has been withdrawn is refused once the TTL has passed,
where decoded keys are hit only while the cached key set lists them. -/
theorem withdrawn_key_refused (jt : Jsonwebtoken) (ttl start : Nat) (tr : List (KeyEvent jt))
    (cfg : KeyConfig jt) (hrun : KeyRun ttl start tr cfg) (hpasses : PassesSuspended ttl start tr)
    (hhits : HitsListed tr) (i : Nat) (kid : Text) (key : jt.DecodingKey)
    (hdone : cfg.calls[i]? = some ⟨kid, .done (.ok key)⟩) : AnsweredFresh ttl i kid key tr := by
  have hanswers : KeyAnswers kid (actsOf i tr) (.ok key) :=
    hrun.traced hdone (getDecodingKey_traced kid)
  rcases hanswers key rfl with hhit | ⟨h', hremember⟩
  · obtain ⟨tr₁, ev, tr₂, rfl, -, hlabel, hlast⟩ := actsOf_eq_snoc (h := []) hhit
    obtain ⟨jwks, hun, hselect⟩ :=
      hhits ev (List.mem_append_right _ List.mem_cons_self) i kid key hlabel
    obtain ⟨c₁, c₂, hc₁, hstep, hpre, hpost⟩ := hrun.reaches
    obtain ⟨hcache, -⟩ := KeyRun.allFetched hc₁ hpasses.of_append
    rw [hlabel] at hstep
    obtain ⟨answer, hsem⟩ := hstep.effect
    obtain ⟨hclock, hfetched⟩ := handle_grows hsem
    rw [hpre] at hun
    obtain ⟨cached, hcached, rfl⟩ := Option.map_eq_some_iff.mp hun
    obtain ⟨hcached, hlt⟩ := Option.filter_eq_some_iff.mp hcached
    obtain ⟨at', hmem, hexpires⟩ := hcache cached hcached
    have hlt := of_decide_eq_true hlt
    refine ⟨tr₁, ev, tr₂, rfl, ⟨_, _, hlabel⟩, hlast, at', cached.jwks, ?_,
      Jwks.lists_of_select hselect, Or.inl ?_⟩
    · rw [hpost]
      exact hfetched hmem
    · rw [hpost, hclock]
      omega
  · obtain ⟨tr₁, ev, tr₂, rfl, -, hlabel, hlast⟩ := actsOf_eq_snoc hremember
    obtain ⟨c₁, c₂, hc₁, hstep, hpre, hpost⟩ := hrun.reaches
    obtain ⟨-, hheld⟩ := KeyRun.allFetched hc₁ hpasses.of_append
    rw [hlabel] at hstep
    obtain ⟨q, k, hi, -⟩ := hstep.act_cases
    obtain ⟨rfl, jwks, hhand, hselect⟩ := (hc₁.traced hi (getDecodingKey_traced q)).1
    obtain ⟨at', hmem, hle, -⟩ := hheld i _ _ _ hi nofun jwks true hhand
    obtain ⟨answer, hsem⟩ := hstep.effect
    obtain ⟨hclock, hfetched⟩ := handle_grows hsem
    refine ⟨tr₁, ev, tr₂, rfl, ⟨_, _, hlabel⟩, hlast, at', jwks, ?_,
      Jwks.lists_of_select hselect, Or.inl ?_⟩
    · rw [hpost]
      exact hfetched hmem
    · rwa [hpost, hclock]

/-! ## A key that is never looked up again -/

def Jsonwebtoken.plain : Jsonwebtoken where
  DecodingKey := Text × Text
  fromRsaComponents n e := .ok (n, e)
  fromEcComponents x y := .ok (x, y)
  fromEdComponents x := .ok (x, [])

def published : Jwks :=
  ⟨[⟨"k1".toList, "RSA".toList, none, some "n".toList, some "AQAB".toList, none, none, none⟩]⟩

def publishedKey : Jsonwebtoken.plain.DecodingKey := ("n".toList, "AQAB".toList)

/-- One hour, in nanoseconds. -/
def oneHour : Nat := 3600 * 10 ^ 9

abbrev PlainConfig := KeyConfig Jsonwebtoken.plain

/-- Lookups by a schedule, of an identity provider that publishes a key set. -/
def lookupsOf (jwks : Jwks) (cfg : PlainConfig) (ms : List (Move Text)) :
    List (KeyEvent Jsonwebtoken.plain) × PlainConfig :=
  cfg.moves (fun kid => (getDecodingKey kid).run) (fun e s => s.handle oneHour (.ok jwks) e) ms

abbrev lookups := lookupsOf published

theorem lookupsOf_run (jwks : Jwks) {tr : List (KeyEvent Jsonwebtoken.plain)} {cfg : PlainConfig}
    (hrun : KeyRun oneHour 0 tr cfg) (ms : List (Move Text)) :
    KeyRun oneHour 0 (tr ++ (lookupsOf jwks cfg ms).1) (lookupsOf jwks cfg ms).2 :=
  hrun.moves (fun _ _ => ⟨.ok jwks, rfl⟩) ms

theorem lookups_run {tr : List (KeyEvent Jsonwebtoken.plain)} {cfg : PlainConfig}
    (hrun : KeyRun oneHour 0 tr cfg) (ms : List (Move Text)) :
    KeyRun oneHour 0 (tr ++ (lookups cfg ms).1) (lookups cfg ms).2 :=
  lookupsOf_run published hrun ms

/-- The event is a step of a call, or the start of one. -/
def acts (ev : KeyEvent Jsonwebtoken.plain) : Bool :=
  match ev.label with
  | .env => false
  | _ => true

theorem PassesSuspended.append_acts {ttl start : Nat} {tr tr' : List (KeyEvent Jsonwebtoken.plain)}
    (h : PassesSuspended ttl start tr) (hacts : tr'.all acts = true) :
    PassesSuspended ttl start (tr ++ tr') := by
  refine h.append fun ev hev henv => ?_
  have hone := List.all_eq_true.mp hacts ev hev
  rw [acts, henv] at hone
  cases hone

/-- Time passes up to `clock`. -/
def passedTo (clock : Nat) (cfg : PlainConfig) : PlainConfig :=
  { cfg with state := { cfg.state with clock } }

def passing (clock : Nat) (cfg : PlainConfig) : KeyEvent Jsonwebtoken.plain :=
  ⟨cfg.state, .env, (passedTo clock cfg).state⟩

theorem passedTo_run {tr : List (KeyEvent Jsonwebtoken.plain)} {cfg : PlainConfig} (clock : Nat)
    (hrun : KeyRun oneHour 0 tr cfg) (hle : cfg.state.clock ≤ clock) :
    KeyRun oneHour 0 (tr ++ [passing clock cfg]) (passedTo clock cfg) :=
  hrun.snoc (.env cfg _ ⟨clock, hle, rfl⟩)

/-- Time passes once every call has ended. -/
theorem PassesSuspended.passing {tr : List (KeyEvent Jsonwebtoken.plain)} {cfg : PlainConfig}
    (h : PassesSuspended oneHour 0 tr) (hrun : KeyRun oneHour 0 tr cfg) (clock : Nat)
    (hdone : ∀ call ∈ cfg.calls, ∃ r, call.rest = .done r) :
    PassesSuspended oneHour 0 (tr ++ [Auth.passing clock cfg]) := by
  refine h.snoc fun _ cfg' hrun' call hcall => ?_
  obtain rfl := Run.unique hrun' hrun
  obtain ⟨r, hr⟩ := hdone call hcall
  rw [hr]
  exact .done

/-- One lookup, to its end. -/
def firstLookup : List (KeyEvent Jsonwebtoken.plain) × PlainConfig :=
  lookups ⟨.new 0, []⟩ (.start "k1".toList :: List.replicate 6 (.step 0))

/-- A second one, which hits the decoded key. -/
def hitIn (cfg : PlainConfig) : List (KeyEvent Jsonwebtoken.plain) × PlainConfig :=
  lookups cfg [.start "k1".toList, .step 1]

theorem firstLookup_run : KeyRun oneHour 0 firstLookup.1 firstLookup.2 := by
  have hrun : KeyRun oneHour 0 ([] ++ firstLookup.1) firstLookup.2 := lookups_run .nil _
  exact hrun

theorem firstLookup_done : ∀ call ∈ firstLookup.2.calls, ∃ r, call.rest = .done r := by
  have hcalls : firstLookup.2.calls = [⟨"k1".toList, .done (.ok publishedKey)⟩] := rfl
  intro call hcall
  rw [hcalls] at hcall
  obtain rfl := List.mem_singleton.mp hcall
  exact ⟨_, rfl⟩

theorem firstLookup_passesSuspended : PassesSuspended oneHour 0 firstLookup.1 :=
  PassesSuspended.nil.append_acts (by decide)

/-- The events of the first lookup but for the states. -/
theorem firstLookup_events : ∃ s₁ s₂ s₃ s₄, firstLookup.1 =
    [⟨.new 0, .start "k1".toList, .new 0⟩, ⟨.new 0, .act 0 (.cachedKey "k1".toList) none, .new 0⟩,
      ⟨.new 0, .act 0 .cachedJwks none, .new 0⟩, ⟨.new 0, .act 0 .fetch (.ok published), s₁⟩,
      ⟨s₁, .act 0 .purge (), s₂⟩, ⟨s₂, .act 0 (.store published) (), s₃⟩,
      ⟨s₃, .act 0 (.remember "k1".toList publishedKey) (), s₄⟩] :=
  ⟨_, _, _, _, rfl⟩

/-! ### A key that is withdrawn, and refused -/

/-- Half an hour later the key is hit once more. -/
def secondLookup : List (KeyEvent Jsonwebtoken.plain) × PlainConfig :=
  hitIn (passedTo (oneHour / 2) firstLookup.2)

/-- What is published when `k1` has been withdrawn. -/
def republished : Jwks :=
  ⟨[⟨"k2".toList, "RSA".toList, none, some "m".toList, some "AQAB".toList, none, none, none⟩]⟩

/-- At two hours another key is looked up, and then `k1` again. -/
def rotatedLookups : List (KeyEvent Jsonwebtoken.plain) × PlainConfig :=
  lookupsOf republished (passedTo (2 * oneHour) secondLookup.2)
    (.start "k2".toList :: List.replicate 6 (.step 2) ++
      .start "k1".toList :: List.replicate 6 (.step 3))

def earlyTrace : List (KeyEvent Jsonwebtoken.plain) :=
  firstLookup.1 ++ [passing (oneHour / 2) firstLookup.2] ++ secondLookup.1

def rotatedTrace : List (KeyEvent Jsonwebtoken.plain) :=
  earlyTrace ++ [passing (2 * oneHour) secondLookup.2] ++ rotatedLookups.1

theorem earlyTrace_run : KeyRun oneHour 0 earlyTrace secondLookup.2 :=
  lookups_run (passedTo_run _ firstLookup_run (by decide)) _

theorem rotatedTrace_run : KeyRun oneHour 0 rotatedTrace rotatedLookups.2 :=
  lookupsOf_run republished (passedTo_run _ earlyTrace_run (by decide)) _

theorem rotatedTrace_passesSuspended : PassesSuspended oneHour 0 rotatedTrace := by
  have hsecond : secondLookup.2.calls =
      [⟨"k1".toList, .done (.ok publishedKey)⟩, ⟨"k1".toList, .done (.ok publishedKey)⟩] := rfl
  have hearly : PassesSuspended oneHour 0 earlyTrace :=
    (firstLookup_passesSuspended.passing firstLookup_run _ firstLookup_done).append_acts (by decide)
  refine (hearly.passing earlyTrace_run _ fun call hcall => ?_).append_acts (by decide)
  rw [hsecond] at hcall
  rcases List.mem_pair.mp hcall with rfl | rfl <;> exact ⟨_, rfl⟩

/-- A decoded key that is hit in the event is one the cached key set lists. -/
def hitListed (ev : KeyEvent Jsonwebtoken.plain) : Bool :=
  match ev.label with
  | .act _ (.cachedKey kid) (some key) =>
      ev.pre.unexpired.any fun jwks =>
        match jwks.select Jsonwebtoken.plain kid with
        | .ok (listed : Text × Text) => listed == key
        | .error _ => false
  | _ => true

theorem rotatedTrace_hitsListed : HitsListed rotatedTrace := by
  have hlisted : rotatedTrace.all hitListed = true := by decide
  intro ev hev i kid key hlabel
  have hone := List.all_eq_true.mp hlisted ev hev
  rw [hitListed, hlabel, Option.any_eq_true] at hone
  obtain ⟨jwks, hjwks, hselect⟩ := hone
  refine ⟨jwks, hjwks, ?_⟩
  split at hselect
  next hlisted => rw [hlisted, eq_of_beq hselect]
  · cases hselect

/-- Half an hour old, the key is answered; withdrawn, and two hours old, it is not. -/
theorem withdrawn_key_refused_rotated :
    AnsweredFresh oneHour 1 "k1".toList publishedKey rotatedTrace ∧
    ∃ err, rotatedLookups.2.calls[3]? = some ⟨"k1".toList, .done (.error err)⟩ :=
  ⟨withdrawn_key_refused Jsonwebtoken.plain oneHour 0 rotatedTrace rotatedLookups.2 rotatedTrace_run
    rotatedTrace_passesSuspended rotatedTrace_hitsListed 1 "k1".toList publishedKey rfl, _, rfl⟩

/-! ### One that is honoured -/

/-- The key set is fetched once; two hours pass. -/
def twoHoursLater : Authenticator Jsonwebtoken.plain :=
  { firstLookup.2.state with clock := 2 * oneHour }

def lateLookup : List (KeyEvent Jsonwebtoken.plain) × PlainConfig :=
  hitIn { firstLookup.2 with state := twoHoursLater }

def lateTrace : List (KeyEvent Jsonwebtoken.plain) :=
  firstLookup.1 ++ ⟨firstLookup.2.state, .env, twoHoursLater⟩ :: lateLookup.1

theorem lateLookup_run : KeyRun oneHour 0 lateTrace lateLookup.2 := by
  have htick :=
    firstLookup_run.snoc (.env firstLookup.2 twoHoursLater ⟨2 * oneHour, by decide, rfl⟩)
  have hrun := lookups_run htick [.start "k1".toList, .step 1]
  rwa [List.append_assoc] at hrun

theorem lateLookup_events : lateLookup.1 = [⟨twoHoursLater, .start "k1".toList, twoHoursLater⟩,
    ⟨twoHoursLater, .act 1 (.cachedKey "k1".toList) (some publishedKey), twoHoursLater⟩] := rfl

/-- Every event of the late lookup's call comes two hours late. -/
theorem lateTrace_call {ev : KeyEvent Jsonwebtoken.plain} (hev : ev ∈ lateTrace)
    (hlabel : ∃ e r, ev.label = .act 1 e r) : ev.pre = twoHoursLater ∧ ev.post = twoHoursLater := by
  obtain ⟨s₁, s₂, s₃, s₄, hevents⟩ := firstLookup_events
  obtain ⟨e, r, hlabel⟩ := hlabel
  rw [lateTrace, hevents, lateLookup_events] at hev
  simp only [List.cons_append, List.nil_append, List.mem_cons, List.not_mem_nil, or_false] at hev
  rcases hev with rfl | rfl | rfl | rfl | rfl | rfl | rfl | rfl | rfl | rfl <;> cases hlabel
  exact ⟨rfl, rfl⟩

theorem lateTrace_passesSuspended : PassesSuspended oneHour 0 lateTrace := by
  have hsplit : lateTrace =
      firstLookup.1 ++ [passing (2 * oneHour) firstLookup.2] ++ lateLookup.1 := by
    rw [List.append_assoc]
    rfl
  rw [hsplit]
  exact (firstLookup_passesSuspended.passing firstLookup_run _ firstLookup_done).append_acts
    (by decide)

theorem withdrawn_key_honoured :
    ¬ ∀ (jt : Jsonwebtoken) (ttl start : Nat) (tr : List (KeyEvent jt)) (cfg : KeyConfig jt),
      KeyRun ttl start tr cfg → PassesSuspended ttl start tr →
        ∀ (i : Nat) (kid : Text) (key : jt.DecodingKey),
          cfg.calls[i]? = some ⟨kid, .done (.ok key)⟩ → AnsweredFresh ttl i kid key tr := by
  intro hall
  obtain ⟨tr₁, ev, tr₂, htr, hacts, -, at', jwks, hmem, -, htime⟩ :=
    hall _ oneHour 0 lateTrace lateLookup.2 lateLookup_run lateTrace_passesSuspended 1 "k1".toList
      publishedKey rfl
  have hev : ev ∈ lateTrace := by
    rw [htr]
    exact List.mem_append_right _ List.mem_cons_self
  have hclock : twoHoursLater.clock = 2 * oneHour := rfl
  have hfetched : twoHoursLater.fetched = [(0, published)] := rfl
  rw [(lateTrace_call hev hacts).2] at hmem htime
  rw [hfetched, List.mem_singleton] at hmem
  obtain rfl : at' = 0 := congrArg Prod.fst hmem
  rcases htime with hle | ⟨ev₀, hev₀, hacts₀, hle⟩
  · rw [hclock] at hle
    exact absurd hle (by decide)
  · rw [(lateTrace_call hev₀ hacts₀).1, hclock] at hle
    exact absurd hle (by decide)

end Rustberg.Auth
