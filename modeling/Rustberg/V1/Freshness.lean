import Rustberg.Auth.Authz
import Rustberg.Base.Base64
import Rustberg.Base.Digest
import Rustberg.Error

/-!
# Entity tags

`etag_for` of `catalog/v1/freshness.rs` hashes the metadata location, the
snapshot scope, whether signing was asked for and a fingerprint of the
restrictions, and names nothing where a credential was asked for. A
`Representation` is what a tag names. Over a set of representations whose
hashed bytes do not collide, a tag tells all of it (`etag_injective`).

`sha` is SHA-256, and `print` and `read` are `serde_json`'s `to_string` and
`from_str`.
-/

namespace Rustberg.V1

open Auth

/-! ## Headers -/

/-- Lower-case names, each with the characters of its bytes. -/
abbrev HeaderMap := List (Text × Text)

/-- `HeaderValue::to_str`: visible ASCII and tabs. -/
def headerStr (value : Text) : Option Text :=
  if value.all fun c => (32 ≤ c.toNat && c.toNat < 127) || c == '\t' then some value else none

/-- What the client asked the catalog to delegate. -/
structure AccessDelegation where
  vendedCredentials : Bool
  remoteSigning : Bool
  deriving DecidableEq

namespace AccessDelegation

def accessDelegationHeader : Text := "x-iceberg-access-delegation".toList

/-- `AccessDelegation::default()` -/
def none : AccessDelegation := ⟨false, false⟩

/-- One form of the list; an unknown one is passed over. -/
def add (delegation : AccessDelegation) (form : Text) : AccessDelegation :=
  let form := Text.toAsciiLowercase form.trim
  if form = "vended-credentials".toList then { delegation with vendedCredentials := true }
  else if form = "remote-signing".toList then { delegation with remoteSigning := true }
  else delegation

/-- Every line of the header, each a list. -/
def fromHeaders (headers : HeaderMap) : AccessDelegation :=
  let lines := (headers.filter fun line => line.1 = accessDelegationHeader).filterMap fun line =>
    headerStr line.2
  (lines.flatMap fun line => line.splitOn ',').foldl add none

end AccessDelegation

inductive SnapshotScope where
  | all
  | refs
  deriving DecidableEq

namespace SnapshotScope

def asStr : SnapshotScope → Text
  | all => "all".toList
  | refs => "refs".toList

/-- `SnapshotsQuery::scope` -/
def ofQuery : Option Text → Except AppError SnapshotScope
  | none => .ok .all
  | some value =>
      let other := Text.toAsciiLowercase value.trim
      if other = "all".toList then .ok .all
      else if other = "refs".toList then .ok .refs
      else .error (.badRequest ("Unsupported value '".toList ++ other ++
        ("' for the 'snapshots' parameter. Use 'all' (every snapshot) or 'refs' (only " ++
          "snapshots a branch or tag points at).").toList))

end SnapshotScope

/-! ## The tag -/

section Tags

variable (sha : List UInt8 → List UInt8) (print : Json → Text)

/-- The digits a digest is shown by: its first 128 bits. -/
def shown (bytes : List UInt8) : Text := Hex.digits ((sha bytes).take 16)

def sorted (texts : List Text) : List Text := texts.insertionSort (· ≤ ·)

/-- What the fingerprint of a set of restrictions is the digest of. -/
def fingerprintBytes (obligations : Obligations) : List UInt8 :=
  Fields.ended 0 ((sorted (obligations.rowFilters.map print)).map Utf8.bytes) ++
    1 :: Fields.ended 0 ((sorted obligations.columnMasks).map Utf8.bytes)

/-- `Obligations::fingerprint` -/
def fingerprint (obligations : Obligations) : Text := shown sha (fingerprintBytes print obligations)

/-- The signing half of a delegation, as the tag spells it. -/
def signingStr (delegation : AccessDelegation) : Text :=
  if delegation.remoteSigning then "remote-signing".toList else "plain".toList

def etagBytes (location : Text) (scope : SnapshotScope) (delegation : AccessDelegation)
    (restrictions : Obligations) : List UInt8 :=
  Utf8.bytes location ++ 0 :: (Utf8.bytes scope.asStr ++ 0 ::
    (Utf8.bytes (signingStr delegation) ++ 0 ::
      Utf8.bytes (fingerprint sha print restrictions)))

/-- `etag_for` -/
def etagFor (metadataLocation : Option Text) (scope : SnapshotScope)
    (delegation : AccessDelegation) (restrictions : Obligations) : Option Text :=
  match metadataLocation with
  | none => none
  | some location =>
      if delegation.vendedCredentials then none
      else some ('"' :: shown sha (etagBytes sha print location scope delegation restrictions) ++
        ['"'])

end Tags

def ifNoneMatch : Text := "if-none-match".toList

def isRevalidatable (headers : HeaderMap) (delegation : AccessDelegation) : Bool :=
  (headers.lookup ifNoneMatch).isSome && !delegation.vendedCredentials

def stripWeak (tag : Text) : Text := (Text.stripPrefix tag "W/".toList).getD tag

/-- The candidates of an `If-None-Match`. -/
def candidates (headers : HeaderMap) : List Text :=
  match (headers.lookup ifNoneMatch).bind headerStr with
  | some value => (value.splitOn ',').map Text.trim
  | none => []

/-- `freshness::matches` -/
def matchesTag (headers : HeaderMap) (etag : Text) : Bool :=
  (candidates headers).any fun candidate =>
    candidate == "*".toList || stripWeak candidate == stripWeak etag

/-! ## What a tag tells -/

/-- What a load response is of, apart from the credentials it may carry. -/
structure Representation where
  location : Text
  scope : SnapshotScope
  delegation : AccessDelegation
  obligations : Obligations

namespace Representation

/-- The same location, scope, answer to signing and restrictions. -/
structure Same (r r' : Representation) : Prop where
  location : r.location = r'.location
  scope : r.scope = r'.scope
  signing : r.delegation.remoteSigning = r'.delegation.remoteSigning
  filters : ∀ filter, filter ∈ r.obligations.rowFilters ↔ filter ∈ r'.obligations.rowFilters
  masks : ∀ mask, mask ∈ r.obligations.columnMasks ↔ mask ∈ r'.obligations.columnMasks

variable (sha : List UInt8 → List UInt8) (print : Json → Text)

def etag (r : Representation) : Option Text :=
  etagFor sha print (some r.location) r.scope r.delegation r.obligations

/-- The bytes that are hashed for its tag. -/
def hashed (r : Representation) : List (List UInt8) :=
  [fingerprintBytes print r.obligations,
    etagBytes sha print r.location r.scope r.delegation r.obligations]

end Representation

/-- No location or column name has a NUL. -/
structure Representation.Plain (r : Representation) : Prop where
  location : Char.ofNat 0 ∉ r.location
  masks : ∀ mask ∈ r.obligations.columnMasks, Char.ofNat 0 ∉ mask

/-- What is relied on over the representations of `R`: the digests shown do not
collide, and a filter printed reads back and has its control characters
escaped. -/
structure CollisionFree (sha : List UInt8 → List UInt8) (print : Json → Text)
    (read : Text → Option Json) (R : Set Representation) : Prop where
  digests : Set.InjOn (fun bytes => (sha bytes).take 16)
    {bytes | ∃ r ∈ R, bytes ∈ r.hashed sha print}
  reads : ∀ r ∈ R, ∀ filter ∈ r.obligations.rowFilters, read (print filter) = some filter
  escapes : ∀ r ∈ R, ∀ filter ∈ r.obligations.rowFilters, ∀ c ∈ print filter, ' ' ≤ c

/-! ## The bytes tell the parts -/

theorem zero_notMem_bytes {s : Text} (h : Char.ofNat 0 ∉ s) : (0 : UInt8) ∉ Utf8.bytes s := by
  intro hmem
  obtain ⟨c, hc, hnat⟩ := Utf8.mem_bytes hmem (by decide)
  obtain rfl : c = Char.ofNat 0 := by
    rw [← Char.ofNat_toNat c, hnat]
    rfl
  exact h hc

/-- A printed text has none of the two bytes that divide the fields. -/
theorem notMem_bytes_print {s : Text} (h : ∀ c ∈ s, ' ' ≤ c) :
    (0 : UInt8) ∉ Utf8.bytes s ∧ (1 : UInt8) ∉ Utf8.bytes s := by
  have hlarge : ∀ b ∈ Utf8.bytes s, 32 ≤ b.toNat := by
    intro b hb
    by_cases hascii : b.toNat < 128
    · obtain ⟨c, hc, hnat⟩ := Utf8.mem_bytes hb hascii
      rw [← hnat]
      exact UInt32.le_iff_toNat_le.mp (h c hc)
    · omega
  exact ⟨fun h => absurd (hlarge 0 h) (by decide), fun h => absurd (hlarge 1 h) (by decide)⟩

section

variable {sha : List UInt8 → List UInt8} {print : Json → Text} {read : Text → Option Json}
  {R : Set Representation} {r r' : Representation}

theorem shown_injOn (free : CollisionFree sha print read R) {bytes bytes' : List UInt8}
    (hr : r ∈ R) (hr' : r' ∈ R) (hbytes : bytes ∈ r.hashed sha print)
    (hbytes' : bytes' ∈ r'.hashed sha print) (h : shown sha bytes = shown sha bytes') :
    bytes = bytes' :=
  free.digests ⟨r, hr, hbytes⟩ ⟨r', hr', hbytes'⟩ (Hex.digits_injective h)

theorem mem_sorted {texts : List Text} {s : Text} : s ∈ sorted texts ↔ s ∈ texts :=
  List.mem_insertionSort _

/-- The fingerprint's bytes tell the sets of filters and masks. -/
theorem fingerprintBytes_injective (free : CollisionFree sha print read R) (hr : r ∈ R)
    (hr' : r' ∈ R) (plain : r.Plain) (plain' : r'.Plain)
    (h : fingerprintBytes print r.obligations = fingerprintBytes print r'.obligations) :
    (∀ filter, filter ∈ r.obligations.rowFilters ↔ filter ∈ r'.obligations.rowFilters) ∧
      ∀ mask, mask ∈ r.obligations.columnMasks ↔ mask ∈ r'.obligations.columnMasks := by
  have hfilters : ∀ q ∈ R, ∀ field ∈ (sorted (q.obligations.rowFilters.map print)).map Utf8.bytes,
      (0 : UInt8) ∉ field ∧ (1 : UInt8) ∉ field := by
    intro q hq field hfield
    obtain ⟨s, hs, rfl⟩ := List.mem_map.mp hfield
    obtain ⟨filter, hfilter, rfl⟩ := List.mem_map.mp (mem_sorted.mp hs)
    exact notMem_bytes_print (free.escapes q hq filter hfilter)
  have hmasks : ∀ q : Representation, q.Plain →
      ∀ field ∈ (sorted q.obligations.columnMasks).map Utf8.bytes, (0 : UInt8) ∉ field := by
    intro q hq field hfield
    obtain ⟨s, hs, rfl⟩ := List.mem_map.mp hfield
    exact zero_notMem_bytes (hq.masks s (mem_sorted.mp hs))
  obtain ⟨hleft, hright⟩ := Fields.ended_append_cons_inj (by decide) (hfilters r hr)
    (hfilters r' hr') h
  have hprinted := List.map_injective_iff.mpr Utf8.bytes_injective hleft
  have hnames := List.map_injective_iff.mpr Utf8.bytes_injective
    (Fields.ended_injective (hmasks r plain) (hmasks r' plain') hright)
  -- A filter is read back from its text, so a text names one filter.
  have hcarried : ∀ q ∈ R, ∀ q' ∈ R, sorted (q.obligations.rowFilters.map print) =
      sorted (q'.obligations.rowFilters.map print) →
        ∀ filter ∈ q.obligations.rowFilters, filter ∈ q'.obligations.rowFilters := by
    intro q hq q' hq' heq filter hfilter
    have hmem : print filter ∈ q'.obligations.rowFilters.map print := by
      rw [← mem_sorted, ← heq, mem_sorted]
      exact List.mem_map_of_mem hfilter
    obtain ⟨filter', hfilter', hprint⟩ := List.mem_map.mp hmem
    have hread := free.reads q' hq' filter' hfilter'
    rw [hprint, free.reads q hq filter hfilter, Option.some_inj] at hread
    exact hread ▸ hfilter'
  refine ⟨fun filter => ⟨hcarried r hr r' hr' hprinted filter,
    hcarried r' hr' r hr hprinted.symm filter⟩, fun mask => ?_⟩
  rw [← mem_sorted, hnames, mem_sorted]

theorem asStr_injective {scope scope' : SnapshotScope} (h : scope.asStr = scope'.asStr) :
    scope = scope' := by
  cases scope <;> cases scope' <;> first | rfl | exact absurd h (by decide)

theorem zero_notMem_scope (scope : SnapshotScope) : (0 : UInt8) ∉ Utf8.bytes scope.asStr :=
  zero_notMem_bytes (by cases scope <;> decide)

theorem zero_notMem_signing (delegation : AccessDelegation) :
    (0 : UInt8) ∉ Utf8.bytes (signingStr delegation) := by
  refine zero_notMem_bytes ?_
  unfold signingStr
  split <;> decide

theorem signingStr_injective {delegation delegation' : AccessDelegation}
    (h : signingStr delegation = signingStr delegation') :
    delegation.remoteSigning = delegation'.remoteSigning := by
  unfold signingStr at h
  cases hsigning : delegation.remoteSigning <;> cases hsigning' : delegation'.remoteSigning <;>
    rw [hsigning, hsigning'] at h
  all_goals first | rfl | exact absurd h (by decide)

/-- Only a located representation without credentials has a tag. -/
theorem etagFor_eq_some {metadataLocation : Option Text} {scope : SnapshotScope}
    {delegation : AccessDelegation} {restrictions : Obligations} {tag : Text}
    (h : etagFor sha print metadataLocation scope delegation restrictions = some tag) :
    ∃ location, metadataLocation = some location ∧ delegation.vendedCredentials = false ∧
      tag = '"' :: shown sha (etagBytes sha print location scope delegation restrictions) ++
        ['"'] := by
  unfold etagFor at h
  split at h
  · cases h
  · next location =>
      split at h
      · cases h
      · next hvended =>
          exact ⟨location, rfl, Bool.not_eq_true _ ▸ hvended, (Option.some.inj h).symm⟩

/-- Equal tags are tags of the same thing. -/
theorem etag_injective (free : CollisionFree sha print read R) (hr : r ∈ R) (hr' : r' ∈ R)
    (plain : r.Plain) (plain' : r'.Plain) {tag : Text} (h : r.etag sha print = some tag)
    (h' : r'.etag sha print = some tag) : r.Same r' := by
  obtain ⟨location, hlocation, -, htag⟩ := etagFor_eq_some h
  obtain ⟨location', hlocation', -, htag'⟩ := etagFor_eq_some h'
  cases hlocation
  cases hlocation'
  have hshown := List.append_cancel_right (List.tail_eq_of_cons_eq (htag.symm.trans htag'))
  have hbytes := shown_injOn free hr hr' (by simp [Representation.hashed])
    (by simp [Representation.hashed]) hshown
  obtain ⟨hloc, hbytes⟩ := (Fields.append_cons_inj (zero_notMem_bytes plain.location)
    (zero_notMem_bytes plain'.location)).mp hbytes
  obtain ⟨hscope, hbytes⟩ := (Fields.append_cons_inj (zero_notMem_scope _)
    (zero_notMem_scope _)).mp hbytes
  obtain ⟨hsigning, hbytes⟩ := (Fields.append_cons_inj (zero_notMem_signing _)
    (zero_notMem_signing _)).mp hbytes
  have hfingerprint := shown_injOn free hr hr' (by simp [Representation.hashed])
    (by simp [Representation.hashed]) (Utf8.bytes_injective hbytes)
  obtain ⟨hfilters, hmasks⟩ := fingerprintBytes_injective free hr hr' plain plain' hfingerprint
  exact ⟨Utf8.bytes_injective hloc, asStr_injective (Utf8.bytes_injective hscope),
    signingStr_injective (Utf8.bytes_injective hsigning), hfilters, hmasks⟩

end

end Rustberg.V1
