import Rustberg.V1.Addressing

/-!
# Which bucket a host names

S3 serves a bucket under its name followed by one of three endpoints
(`Endpoint`). `virtual_host_bucket` takes the first label that is `s3` or
begins with `s3-` for the endpoint, so it reads every bucket none of whose own
labels looks like one, and misreads every other (`virtualHostBucket_endpoint`):
as a shorter bucket, or as none. A host of no such shape it reads where it has
a service label past its first, or ends in the configured endpoint
(`virtualHostBucket_eq_none`).
-/

namespace Rustberg.V1

/-! ## What S3 serves -/

/-- A region is one label, and no region looks like the service. -/
structure Region where
  name : Text
  label : '.' ∉ name
  plain : isService name = false

/-- What follows the bucket in a host, before `amazonaws.com`. -/
inductive Endpoint where
  | regional (region : Region)
  | dashed (region : Region)
  | global

def Endpoint.name : Endpoint → Text
  | regional region => "s3".toList ++ '.' :: region.name
  | dashed region => "s3-".toList ++ region.name
  | global => "s3".toList

/-- The host a bucket is served under. -/
def Endpoint.host (endpoint : Endpoint) (bucket : Text) : Text :=
  bucket ++ '.' :: endpoint.name ++ ".amazonaws.com".toList

def isBucketChar (c : Char) : Bool := c.isLower || c.isDigit || c = '-' || c = '.'

/-- The rules for a bucket's name. -/
structure ValidBucket (bucket : Text) : Prop where
  length : 3 ≤ bucket.length ∧ bucket.length ≤ 63
  chars : bucket.all isBucketChar = true
  ends : (bucket.head?.toList ++ bucket.getLast?.toList).all Char.isAlphanum = true
  /-- No two adjacent periods. -/
  labels : ∀ label ∈ bucket.splitOn '.', label ≠ []
  /-- Not formatted as an IP address. -/
  noAddress : ¬ ((bucket.splitOn '.').length = 4 ∧
    ∀ label ∈ bucket.splitOn '.', label.all Char.isDigit = true)

/-- The host is one S3 serves a bucket under. -/
def S3Host (host : Text) : Prop :=
  ∃ bucket endpoint, ValidBucket bucket ∧ host = Endpoint.host endpoint bucket

/-! ## What the scan finds -/

theorem Endpoint.labels (endpoint : Endpoint) : ∃ marker rest,
    endpoint.name.splitOn '.' = marker :: rest ∧ isService marker = true := by
  cases endpoint with
  | regional region =>
      refine ⟨"s3".toList, region.name.splitOn '.', ?_, by decide⟩
      rw [name, List.splitOn_append_cons_self]
      rfl
  | dashed region =>
      have hnone : '.' ∉ "s3-".toList ++ region.name := by
        rw [List.mem_append, not_or]
        exact ⟨by decide, region.label⟩
      refine ⟨_, [], List.splitOn_eq_singleton hnone, ?_⟩
      rw [isService, Bool.or_eq_true]
      exact Or.inr (List.isPrefixOf_iff_prefix.mpr (List.prefix_append ..))
  | global => exact ⟨"s3".toList, [], by decide, by decide⟩

theorem virtualHostBucket_amazon (rest : Text) (endpointHost : Option Text) :
    virtualHostBucket (rest ++ ".amazonaws.com".toList) endpointHost =
      ((rest.splitOn '.').findIdx? isService).bind fun marker =>
        if 0 < marker then some (Text.join ['.'] ((rest.splitOn '.').take marker)) else none := by
  rw [virtualHostBucket, Text.stripSuffix_eq_some.mpr rfl]
  dsimp only
  cases (rest.splitOn '.').findIdx? isService <;> rfl

/-- Before a label that looks like the service the labels are the bucket, where
none of them looks like it too. Else fewer of them are. -/
theorem virtualHostBucket_marker (bucket : Text) {tail marker : Text} {rest : List Text}
    (htail : tail.splitOn '.' = marker :: rest) (hmarker : isService marker = true)
    (endpointHost : Option Text) :
    let read := virtualHostBucket (bucket ++ '.' :: tail ++ ".amazonaws.com".toList) endpointHost
    ((∀ label ∈ bucket.splitOn '.', isService label = false) → read = some bucket) ∧
      ∀ shorter, read = some shorter → (shorter.splitOn '.').length = (bucket.splitOn '.').length →
        ∀ label ∈ bucket.splitOn '.', isService label = false := by
  have hsplit : (bucket ++ '.' :: tail).splitOn '.' = bucket.splitOn '.' ++ marker :: rest := by
    rw [List.splitOn_append_cons_self, htail]
  have hsome : 0 < (bucket.splitOn '.').length := List.length_pos_iff.mpr (List.splitOn_ne_nil _ _)
  dsimp only
  rw [virtualHostBucket_amazon, hsplit, List.findIdx?_append]
  cases hfind : (bucket.splitOn '.').findIdx? isService with
  | none =>
      refine ⟨fun _ => ?_, fun _ _ _ => List.findIdx?_eq_none_iff.mp hfind⟩
      rw [List.findIdx?_cons, hmarker, Option.none_or]
      simp only [if_true, Option.map_some, Option.bind_some, Nat.zero_add, hsome]
      rw [List.take_left, Text.join, List.intercalate_splitOn '.']
  | some i =>
      obtain ⟨hi, hservice, -⟩ := List.findIdx?_eq_some_iff_getElem.mp hfind
      refine ⟨fun hall => ?_, fun shorter h hlen => ?_⟩
      · rw [hall _ (List.getElem_mem hi)] at hservice
        cases hservice
      · -- the bucket that is read has fewer labels
        rw [Option.some_or, Option.bind_some] at h
        split at h
        · obtain rfl := Option.some.inj h
          have hpieces : ((bucket.splitOn '.' ++ marker :: rest).take i) =
              (bucket.splitOn '.').take i := List.take_append_of_le_length hi.le
          have hdots : ∀ label ∈ (bucket.splitOn '.').take i, '.' ∉ label := fun label hlabel =>
            Text.notMem_of_mem_splitOn (List.mem_of_mem_take hlabel)
          have hagain := List.splitOn_intercalate '.' hdots fun hnil => by
            rcases List.take_eq_nil_iff.mp hnil with hzero | hnil
            · omega
            · exact List.splitOn_ne_nil _ _ hnil
          rw [hpieces, Text.join, hagain, List.length_take] at hlen
          omega
        · cases h

/-- A bucket is read where none of its labels looks like the service. -/
theorem virtualHostBucket_endpoint {bucket : Text} (endpoint : Endpoint)
    (endpointHost : Option Text) :
    virtualHostBucket (endpoint.host bucket) endpointHost = some bucket ↔
      ∀ label ∈ bucket.splitOn '.', isService label = false := by
  obtain ⟨marker, rest, hlabels, hmarker⟩ := endpoint.labels
  obtain ⟨hread, hplain⟩ := virtualHostBucket_marker bucket hlabels hmarker endpointHost
  exact ⟨fun h => hplain bucket h rfl, hread⟩

/-! ## Hosts of no such shape -/

/-- Nothing in a host looks like a bucket before an endpoint: no service label, or
one in first place, and not the configured endpoint at its end. -/
def BucketFree (host : Text) (endpointHost : Option Text) : Prop :=
  (∀ rest, host = rest ++ ".amazonaws.com".toList →
    (∀ label ∈ rest.splitOn '.', isService label = false) ∨
      ∃ label ∈ (rest.splitOn '.').head?, isService label = true) ∧
    (¬ ".amazonaws.com".toList <:+ host → ∀ endpoint ∈ endpointHost,
      ¬ '.' :: Text.toAsciiLowercase endpoint <:+ host)

theorem findIdx?_service {labels : List Text} :
    ((labels.findIdx? isService).bind fun marker =>
        if 0 < marker then some (Text.join ['.'] (labels.take marker)) else none) = none ↔
      (∀ label ∈ labels, isService label = false) ∨
        ∃ label ∈ labels.head?, isService label = true := by
  cases labels with
  | nil => simp
  | cons first labels =>
      rw [List.findIdx?_cons]
      cases hfirst : isService first with
      | true => simp [hfirst]
      | false =>
          cases hfind : labels.findIdx? isService with
          | none =>
              have hnone := List.findIdx?_eq_none_iff.mp hfind
              refine iff_of_true (by simp) (Or.inl fun label hlabel => ?_)
              rcases List.mem_cons.mp hlabel with rfl | hlabel
              · exact hfirst
              · exact hnone label hlabel
          | some i =>
              obtain ⟨hi, hservice, -⟩ := List.findIdx?_eq_some_iff_getElem.mp hfind
              refine iff_of_false (by simp) ?_
              rintro (hall | ⟨label, hlabel, hyes⟩)
              · rw [hall _ (List.mem_cons_of_mem _ (List.getElem_mem hi))] at hservice
                cases hservice
              · obtain rfl : first = label := by simpa using hlabel
                rw [hfirst] at hyes
                cases hyes

theorem virtualHostBucket_eq_none (host : Text) (endpointHost : Option Text) :
    virtualHostBucket host endpointHost = none ↔ BucketFree host endpointHost := by
  by_cases hamazon : ".amazonaws.com".toList <:+ host
  · obtain ⟨rest, rfl⟩ := hamazon
    rw [virtualHostBucket_amazon, findIdx?_service]
    constructor
    · intro h
      refine ⟨fun rest' hrest => ?_, fun hno => absurd (List.suffix_append ..) hno⟩
      rwa [← List.append_cancel_right hrest]
    · exact fun h => h.1 rest rfl
  · rw [virtualHostBucket, Text.stripSuffix_eq_none.mpr hamazon]
    dsimp only
    rw [Option.bind_eq_none_iff]
    constructor
    · intro h
      refine ⟨fun rest hrest => absurd ⟨rest, hrest.symm⟩ hamazon, fun _ endpoint hendpoint => ?_⟩
      exact Text.stripSuffix_eq_none.mp (h endpoint hendpoint)
    · exact fun h endpoint hendpoint =>
        Text.stripSuffix_eq_none.mpr (h.2 hamazon endpoint hendpoint)

/-! ## The bucket and the key of a request -/

theorem length_join (first : Text) (rest : List Text) :
    first.length + (Text.join ['/'] rest).length ≤ (Text.join ['/'] (first :: rest)).length := by
  cases rest with
  | nil => simp [Text.join]
  | cons second rest =>
      rw [Text.join, Text.join, List.intercalate_cons_cons]
      simp only [List.length_append]
      omega

/-- A request to a bucket's own host is read as one on that bucket, its whole path
the key, where the host is read right. -/
theorem splitBucketAndKey_endpoint {url : Url} {config : SigningEndpointConfig} {bucket : Text}
    {endpoint : Endpoint} {segments : List Text} (hstyle : config.urlStyle.getD .auto = .auto)
    (hhost : url.hostStr.map Text.toAsciiLowercase = some (endpoint.host bucket))
    (hpath : pathSegments url = .ok segments) :
    splitBucketAndKey url config = .ok (bucket, Text.join ['/'] segments) ↔
      ∀ label ∈ bucket.splitOn '.', isService label = false := by
  obtain ⟨host, hurl, hlower⟩ := Option.map_eq_some_iff.mp hhost
  have hread : splitBucketAndKey url config =
      bucketAndKey (virtualHostBucket (endpoint.host bucket) config.endpointHost) segments := by
    rw [splitBucketAndKey, hurl]
    dsimp only
    rw [hpath, virtualBucket, hstyle, hlower]
    rfl
  rw [hread, ← virtualHostBucket_endpoint endpoint config.endpointHost]
  cases virtualHostBucket (endpoint.host bucket) config.endpointHost with
  | some read => simp [bucketAndKey]
  | none =>
      -- a bucket read from the path leaves a shorter key
      refine iff_of_false (fun h => ?_) fun h => by cases h
      cases segments with
      | nil => cases h
      | cons first rest =>
          rw [bucketAndKey] at h
          split at h
          · cases h
          · next hfirst =>
              have hkey := congrArg List.length (Prod.mk.inj (Except.ok.inj h)).2
              have hlen := length_join first rest
              have hpos := List.length_pos_iff.mpr hfirst
              omega

/-- Whichever bucket S3 serves a host from is the one that is read, and nothing is
read of other hosts, under a condition on each; where the URL style is `auto`, which
alone reads a bucket off the host by its shape, a request is then checked on the bucket
that serves it. -/
theorem virtualHostBucket_exact (bucket : Text) (endpoint : Endpoint) (host : Text)
    (endpointHost : Option Text) (url : Url) (config : SigningEndpointConfig)
    (segments : List Text) :
    (ValidBucket bucket →
      (virtualHostBucket (Endpoint.host endpoint bucket) endpointHost = some bucket ↔
        ∀ label ∈ bucket.splitOn '.', isService label = false)) ∧
    (¬ S3Host host → (virtualHostBucket host endpointHost = none ↔ BucketFree host endpointHost)) ∧
    (ValidBucket bucket → config.urlStyle.getD .auto = .auto →
      url.hostStr.map Text.toAsciiLowercase = some (Endpoint.host endpoint bucket) →
      pathSegments url = .ok segments →
      (splitBucketAndKey url config = .ok (bucket, Text.join ['/'] segments) ↔
        ∀ label ∈ bucket.splitOn '.', isService label = false)) :=
  ⟨fun _ => virtualHostBucket_endpoint endpoint endpointHost,
    fun _ => virtualHostBucket_eq_none host endpointHost,
    fun _ hstyle hhost hpath => splitBucketAndKey_endpoint hstyle hhost hpath⟩

def ireland : Region := ⟨"eu-west-1".toList, by decide, by decide⟩

def dotted : Text := "my.bucket".toList

theorem dotted_valid : ValidBucket dotted :=
  ⟨by decide, by decide, by decide, by decide, by decide⟩

theorem dotted_read :
    virtualHostBucket ((Endpoint.regional ireland).host dotted) none = some dotted :=
  ((virtualHostBucket_exact dotted (.regional ireland) [] none ⟨[], none, [], [], none, []⟩
    ⟨none, none, none⟩ []).1 dotted_valid).mpr (by decide)

/-- A bucket whose second label looks like the endpoint. -/
def archive : Text := "my.s3-archive".toList

theorem archive_valid : ValidBucket archive :=
  ⟨by decide, by decide, by decide, by decide, by decide⟩

/-- A request on the archive is checked as one on another bucket. -/
theorem archive_misread :
    ValidBucket archive ∧
      virtualHostBucket ((Endpoint.regional ireland).host archive) none = some "my".toList ∧
      splitBucketAndKey ⟨"https".toList, some ((Endpoint.regional ireland).host archive),
        "/db/events/0.parquet".toList, [], none, []⟩ ⟨none, none, none⟩ =
          .ok ("my".toList, "db/events/0.parquet".toList) :=
  ⟨archive_valid, by decide +kernel, by decide +kernel⟩

end Rustberg.V1
