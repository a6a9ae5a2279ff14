import Rustberg.Base.Percent
import Rustberg.Base.Result
import Rustberg.Containment
import Rustberg.V1.Tables

/-!
# What a request to sign addresses

The part of `catalog/v1/sign.rs` that reads a storage request: which bucket
and key its URI names, what the source of a copy is, which keys a deletion
lists, and so which locations the request touches (`resolve`). `confine`
holds these to the table.

A URL comes parsed. Every message is the source's.
-/

namespace Rustberg.V1

/-- What the endpoint reads of a `reqwest::Url`. -/
structure Url where
  scheme : Text
  hostStr : Option Text
  path : Text
  queryPairs : List (Text × Text)
  fragment : Option Text
  /-- The URL as it is serialized. -/
  asStr : Text

/-- In the order of the map. -/
abbrev HeaderMultiMap := List (Text × List Text)

structure RemoteSignRequest where
  region : Text
  uri : Text
  method : Text
  headers : HeaderMultiMap
  body : Option Text
  provider : Option Text

inductive SignedOp where
  | read
  | write
  deriving DecidableEq

/-- The locations a request touches, and how they must be contained. -/
structure Addressed where
  /-- The request URI as this endpoint read it, and the only one it will sign. -/
  uri : Text
  locations : List Text
  /-- True when `locations` are list prefixes rather than object keys. -/
  prefixes : Bool
  deriving DecidableEq

inductive UrlStyle where
  | auto
  | path
  | virtualHost
  deriving DecidableEq

structure SigningEndpointConfig where
  urlStyle : Option UrlStyle
  endpointHost : Option Text
  fallbackRegion : Option Text

def equalsIgnoreCase (a b : Text) : Bool := Text.toAsciiLowercase a = Text.toAsciiLowercase b

/-! ## Escapes -/

def percentDecode (segment : Text) : Except AppError Text :=
  match Percent.decode (Utf8.bytes segment) with
  | none => .error (.badRequest "URI to sign has a malformed escape.".toList)
  | some bytes =>
      match Utf8.text bytes with
      | some text => .ok text
      | none => .error (.badRequest "URI to sign is not valid UTF-8.".toList)

/-- A segment, refused where decoding it introduces a separator. -/
def decodeSegment (refusal raw : Text) : Except AppError Text := do
  let decoded ← percentDecode raw
  if '/' ∈ decoded ∨ '\\' ∈ decoded ∨ Char.ofNat 0 ∈ decoded then .error (.badRequest refusal)
  else return decoded

/-! ## Buckets and keys -/

/-- A label that separates the bucket from the endpoint. -/
def isService (label : Text) : Bool := label = "s3".toList || "s3-".toList.isPrefixOf label

/-- The bucket a virtual-host-style URL carries, or `none` for path style. -/
def virtualHostBucket (host : Text) (endpointHost : Option Text) : Option Text :=
  match Text.stripSuffix host ".amazonaws.com".toList with
  | some rest =>
      let labels := rest.splitOn '.'
      match labels.findIdx? isService with
      | some marker => if 0 < marker then some (Text.join ['.'] (labels.take marker)) else none
      | none => none
  | none => endpointHost.bind fun endpoint =>
      Text.stripSuffix host ('.' :: Text.toAsciiLowercase endpoint)

/-- How the configured style reads a bucket out of the host. -/
def virtualBucket (config : SigningEndpointConfig) (host : Text) : Option Text :=
  match config.urlStyle.getD .auto with
  | .path => none
  | .virtualHost => some host
  | .auto => virtualHostBucket host config.endpointHost

def withoutSlash (path : Text) : Text := (Text.stripPrefix path ['/']).getD path

/-- The segments of a path, the empty ones among them. -/
def pathSegments (url : Url) : Except AppError (List Text) :=
  let path := withoutSlash url.path
  if path = [] then .ok []
  else (path.splitOn '/').mapM
    (decodeSegment "URI to sign has a path segment that decodes into a separator.".toList)

/-- The bucket is the host's, or else the first segment. -/
def bucketAndKey : Option Text → List Text → Except AppError (Text × Text)
  | some bucket, segments => .ok (bucket, Text.join ['/'] segments)
  | none, first :: rest =>
      if first = [] then .error (.badRequest "URI to sign names no bucket.".toList)
      else .ok (first, Text.join ['/'] rest)
  | none, [] => .error (.badRequest "URI to sign names no bucket.".toList)

/-- The key comes back decoded. -/
def splitBucketAndKey (url : Url) (config : SigningEndpointConfig) :
    Except AppError (Text × Text) :=
  match url.hostStr with
  | some host => do
      let segments ← pathSegments url
      bucketAndKey (virtualBucket config (Text.toAsciiLowercase host)) segments
  | none => .error (.badRequest "URI to sign has no host".toList)

def s3Location (bucket key : Text) : Text := "s3://".toList ++ bucket ++ '/' :: key

/-! ## The source of a copy -/

def copySourceHeader : Text := "x-amz-copy-source".toList

/-- The one value of the header, where it is sent. -/
def copySourceValue : HeaderMultiMap → Option Text → Except AppError (Option Text)
  | [], found => .ok found
  | (name, values) :: rest, found =>
      if !equalsIgnoreCase name copySourceHeader then copySourceValue rest found
      else match found, values with
      | none, [value] => copySourceValue rest (some value)
      | _, _ => .error (.badRequest ("'".toList ++ copySourceHeader ++
          "' was sent more than once, so which object would be copied is undefined.".toList))

/-- What a header's value names: bucket and key, decoded, empty segments left out. -/
def copySource (raw : Text) : Except AppError (Text × Text) := do
  let path := withoutSlash (Text.trim (raw.takeWhile (· ≠ '?')))
  let segments ← ((path.splitOn '/').filter (· ≠ [])).mapM (decodeSegment
    ("'".toList ++ copySourceHeader ++ "' has a segment that decodes into a separator.".toList))
  match segments with
  | bucket :: key :: rest => return (bucket, Text.join ['/'] (key :: rest))
  | _ => .error (.badRequest ("'".toList ++ copySourceHeader ++
      "' must name a bucket and a key, as '/bucket/key'.".toList))

def copySourceLocation (headers : HeaderMultiMap) : Except AppError (Option Text) := do
  match ← copySourceValue headers none with
  | none => return none
  | some raw => do
      let (bucket, key) ← copySource raw
      return some (s3Location bucket key)

/-! ## The keys of a deletion -/

def refuseBody (why : String) : AppError :=
  .badRequest ("DeleteObjects body could not be read (".toList ++ why.toList ++
    ("). This endpoint accepts only the plain " ++
      "`<Delete><Object><Key>…</Key></Object></Delete>` form.").toList)

def refuseIf (refused : Bool) (why : String) : Except AppError Unit :=
  if refused then .error (refuseBody why) else .ok ()

def requireBlank (text : Text) : Except AppError Unit :=
  if Text.trim text = [] then .ok () else .error (refuseBody "text outside an element")

/-- The five predefined entities, and no other `&`. -/
def decodeEntities : Text → Except AppError Text
  | [] => .ok []
  | '&' :: 'a' :: 'm' :: 'p' :: ';' :: rest => (decodeEntities rest).map ('&' :: ·)
  | '&' :: 'l' :: 't' :: ';' :: rest => (decodeEntities rest).map ('<' :: ·)
  | '&' :: 'g' :: 't' :: ';' :: rest => (decodeEntities rest).map ('>' :: ·)
  | '&' :: 'q' :: 'u' :: 'o' :: 't' :: ';' :: rest => (decodeEntities rest).map ('"' :: ·)
  | '&' :: 'a' :: 'p' :: 'o' :: 's' :: ';' :: rest => (decodeEntities rest).map ('\'' :: ·)
  | c :: rest =>
      if c = '&' then .error (refuseBody "an entity reference this endpoint does not resolve")
      else (decodeEntities rest).map (c :: ·)

/-- The scanner between two tags: the elements open, innermost first, the keys read
and whether the root has been closed. -/
structure Scan where
  opened : List Text
  keys : List Text
  rootClosed : Bool

/-- What stands before a tag. -/
def scanText (text : Text) (scan : Scan) : Except AppError Scan :=
  match scan.opened.head? with
  | some element =>
      if element = "Key".toList then
        (decodeEntities text).map fun key => { scan with keys := scan.keys ++ [key] }
      else if element = "Quiet".toList ∨ element = "VersionId".toList then .ok scan
      else (requireBlank text).map fun _ => scan
  | none => (requireBlank text).map fun _ => scan

def expectedDepth (name : Text) : Option Nat :=
  if name = "Delete".toList then some 0
  else if name = "Object".toList ∨ name = "Quiet".toList then some 1
  else if name = "Key".toList ∨ name = "VersionId".toList then some 2
  else none

def scanClosing (name : Text) (scan : Scan) : Except AppError Scan :=
  match scan.opened with
  | expected :: opened =>
      if expected = Text.trim name then
        .ok { scan with opened, rootClosed := scan.rootClosed || opened.isEmpty }
      else .error (refuseBody "a mismatched closing tag")
  | [] => .error (refuseBody "a mismatched closing tag")

/-- An opening tag, its name and what follows the name. -/
def scanOpening (tag : Text) (scan : Scan) : Except AppError Scan := do
  refuseIf scan.rootClosed "content after the root element"
  let selfClosing := tag.getLast? = some '/'
  let tag := Text.trim (Text.trimEndMatches '/' tag)
  let name := tag.takeWhile fun c => !Text.isWhitespace c
  let attributes := Text.trim (tag.dropWhile fun c => !Text.isWhitespace c)
  refuseIf (attributes ≠ [] ∧ ¬ (scan.opened = [] ∧ name = "Delete".toList))
    "an attribute on an element that takes none"
  match expectedDepth name with
  | none => .error (refuseBody "an unexpected element")
  | some depth =>
      if scan.opened.length ≠ depth then .error (refuseBody "an element in the wrong place")
      else if selfClosing then
        return { scan with rootClosed := scan.rootClosed || scan.opened.isEmpty }
      else return { scan with opened := name :: scan.opened }

def scanTag (tag : Text) (scan : Scan) : Except AppError Scan :=
  match Text.stripPrefix tag ['/'] with
  | some name => scanClosing name scan
  | none => scanOpening tag scan

/-- The body, tag after tag; `fuel` is at least its length. -/
def scanBody : (fuel : Nat) → Text → Scan → Except AppError Scan
  | 0, _, scan => .ok scan
  | fuel + 1, body, scan =>
      if body = [] then .ok scan
      else match Text.splitOnce '<' body with
      | none => (requireBlank body).map fun _ => scan
      | some (text, after) => do
          let scan ← scanText text scan
          match after.head? with
          | some '?' =>
              if scan.opened ≠ [] then
                .error (refuseBody "a processing instruction inside an element")
              else match Text.splitOnceStr "?>".toList after with
              | some (_, rest) => scanBody fuel rest scan
              | none => .error (refuseBody "an unterminated declaration")
          | some '!' => .error (refuseBody "a comment, CDATA section or doctype")
          | _ =>
              match Text.splitOnce '>' after with
              | some (tag, rest) => do
                  let scan ← scanTag tag scan
                  scanBody fuel rest scan
              | none => .error (refuseBody "an unterminated tag")

def deleteKeys (body : Text) : Except AppError (List Text) := do
  let scan ← scanBody (body.length + 1) body ⟨[], [], false⟩
  if scan.opened ≠ [] then .error (refuseBody "an unclosed element")
  else if scan.keys = [] then .error (refuseBody "no objects")
  else return scan.keys

/-! ## Resolving a request -/

/-- `ALLOWED_SUBRESOURCES` -/
def allowedSubresources : List String := ["delete", "uploads", "uploadId"]

/-- `REFUSED_SUBRESOURCES` -/
def refusedSubresources : List String :=
  ["accelerate", "acl", "analytics", "attributes", "cors", "encryption", "intelligent-tiering",
    "inventory", "legal-hold", "lifecycle", "location", "logging", "metrics", "notification",
    "object-lock", "ownershipControls", "policy", "policyStatus", "publicAccessBlock",
    "replication", "requestPayment", "restore", "retention", "select", "tagging", "torrent",
    "versioning", "versions", "website"]

/-- The first S3 sub-resource in the query string that this endpoint refuses. -/
def refusedSubresource (url : Url) : Option Text :=
  (url.queryPairs.map Prod.fst).find? fun name =>
    name ∈ refusedSubresources.map String.toList ∧ name ∉ allowedSubresources.map String.toList

/-- `x-amz-acl` and the `x-amz-grant-*` family. -/
def isRefusedHeader (name : Text) : Bool :=
  let name := Text.toAsciiLowercase name
  name = "x-amz-acl".toList || "x-amz-grant-".toList.isPrefixOf name

/-- The first parameter that is named twice. -/
def repeatedParameter : List Text → List Text → Option Text
  | _, [] => none
  | seen, name :: rest => if name ∈ seen then some name else repeatedParameter (name :: seen) rest

def rejectRepeatedQueryParameters (url : Url) : Except AppError Unit :=
  match repeatedParameter [] (url.queryPairs.map Prod.fst) with
  | some name => .error (.badRequest ("The query string names '".toList ++ name ++
      ("' more than once. Which value S3 acts on is not defined, so the parameter this endpoint " ++
        "authorized would not necessarily be the one that takes effect.").toList))
  | none => .ok ()

def rejectRefusedHeaders (headers : HeaderMultiMap) : Except AppError Unit :=
  match (headers.map Prod.fst).find? isRefusedHeader with
  | some name => .error (.badRequest
      ("This endpoint does not sign requests carrying '".toList ++ name ++
        ("': it grants access to callers who never went through this catalog, which no " ++
          "per-request signature can take back.").toList))
  | none => .ok ()

def rejectRefusedSubresource (url : Url) : Except AppError Unit :=
  match refusedSubresource url with
  | some refused => .error (.badRequest
      ("This endpoint signs object access, not '?".toList ++ refused ++
        ("'. That request changes who may reach the object, how long it survives, or how the " ++
          "bucket behaves — none of which a table-scoped signature can authorize.").toList))
  | none => .ok ()

/-- A URL this endpoint may sign for. -/
def checkUrl (url : Url) : Except AppError Unit :=
  if url.scheme ≠ "http".toList ∧ url.scheme ≠ "https".toList then
    .error (.badRequest "URI to sign must be http or https".toList)
  else if url.fragment.isSome then
    .error (.badRequest ("URI to sign carries a '#' fragment, which is never sent to the " ++
      "storage service. The signature would cover a string the request cannot " ++
      "reproduce.").toList)
  else .ok ()

/-- A method outside the listed ones cannot be signed. -/
def operationOf (method : Text) : Except AppError SignedOp :=
  if method = "GET".toList ∨ method = "HEAD".toList then .ok .read
  else if method = "PUT".toList ∨ method = "POST".toList ∨ method = "DELETE".toList ∨
      method = "PATCH".toList then .ok .write
  else .error (.badRequest ("Method '".toList ++ method ++ "' cannot be signed.".toList))

def requireBucketAddressed (key : Text) (operation : String) : Except AppError Unit :=
  if key = [] then .ok ()
  else .error (.badRequest ("A ".toList ++ operation.toList ++
    " request addresses the bucket, but this URI names the object '".toList ++ key ++ "'.".toList))

/-- `has_query_flag` and `has_query_value`: the first has the empty value. -/
def hasQueryValue (url : Url) (name value : String) : Bool :=
  url.queryPairs.any fun pair => pair.1 = name.toList && pair.2 = value.toList

def resolveCopy (uri method bucket key source : Text) (bucketLevel : Bool) :
    Except AppError (Addressed × SignedOp) :=
  if bucketLevel || key = [] then
    .error (.badRequest ("'".toList ++ copySourceHeader ++
      ("' names the source of a copy, and this request does not address an object to copy " ++
        "into.").toList))
  else if method ≠ "PUT".toList then
    .error (.badRequest ("'".toList ++ copySourceHeader ++
      "' is only meaningful on a PUT, not on a ".toList ++ method ++ ".".toList))
  else .ok (⟨uri, [s3Location bucket key, source], false⟩, .write)

def resolveDelete (uri bucket key : Text) (body : Option Text) :
    Except AppError (Addressed × SignedOp) := do
  match body with
  | none => .error (.badRequest
      "A DeleteObjects request carries its keys in the body, and none was sent.".toList)
  | some body => do
      requireBucketAddressed key "DeleteObjects"
      let keys ← deleteKeys body
      return (⟨uri, keys.map (s3Location bucket), false⟩, .write)

def resolveList (url : Url) (bucket key : Text) : Except AppError (Addressed × SignedOp) := do
  requireBucketAddressed key "ListObjectsV2"
  match url.queryPairs.find? fun pair => pair.1 = "prefix".toList with
  | some pair => return (⟨url.asStr, [s3Location bucket pair.2], true⟩, .read)
  | none => .error (.badRequest ("A listing must name the prefix it is scoped to, or it " ++
      "addresses the whole bucket.").toList)

def resolveObject (uri method bucket key : Text) : Except AppError (Addressed × SignedOp) := do
  let operation ← operationOf method
  if key = [] then
    .error (.badRequest ("This request addresses the bucket rather than an object, and is not " ++
      "one of the bucket-level operations that can be authorized (DeleteObjects, " ++
      "ListObjectsV2).").toList)
  else return (⟨uri, [s3Location bucket key], false⟩, operation)

/-- Which of the four kinds of request it is. -/
def resolveKind (url : Url) (method : Text) (payload : RemoteSignRequest) (bucket key : Text)
    (source : Option Text) : Except AppError (Addressed × SignedOp) :=
  let isDeleteObjects := method = "POST".toList && hasQueryValue url "delete" ""
  let isListObjects := method = "GET".toList && hasQueryValue url "list-type" "2"
  match source with
  | some source =>
      resolveCopy url.asStr method bucket key source (isDeleteObjects || isListObjects)
  | none =>
      if isDeleteObjects then resolveDelete url.asStr bucket key payload.body
      else if isListObjects then resolveList url bucket key
      else resolveObject url.asStr method bucket key

/-- The request once its URI is parsed. -/
def resolveUrl (url : Url) (method : Text) (payload : RemoteSignRequest)
    (config : SigningEndpointConfig) : Except AppError (Addressed × SignedOp) := do
  checkUrl url
  rejectRepeatedQueryParameters url
  rejectRefusedHeaders payload.headers
  rejectRefusedSubresource url
  let (bucket, key) ← splitBucketAndKey url config
  let source ← copySourceLocation payload.headers
  resolveKind url method payload bucket key source

/-- Which locations a request touches, and whether it writes; `parse` is `Url::parse`. -/
def resolve (parse : Text → Except Text Url) (method : Text) (payload : RemoteSignRequest)
    (config : SigningEndpointConfig) : Except AppError (Addressed × SignedOp) :=
  match parse payload.uri with
  | .error e => .error (.badRequest ("URI to sign is not a URL: ".toList ++ e))
  | .ok url => resolveUrl url method payload config

/-- Refuses a request that reaches outside `tableLocation`. -/
def confine (addressed : Addressed) (tableLocation : Text) : Except AppError Unit :=
  match addressed.locations.find? fun location =>
      if addressed.prefixes then !isPrefixWithin tableLocation location
      else !isWithin tableLocation location with
  | some location => .error (.forbidden ("The request addresses '".toList ++ location ++
      "', which is outside table location '".toList ++ tableLocation ++ "'.".toList))
  | none => .ok ()

/-! ## Locations on S3 -/

theorem split_s3Location (bucket key : Text) :
    split (s3Location bucket key) = ("s3".toList, bucket ++ '/' :: key) := by
  have hscheme : Text.splitOnceStr "://".toList "s3://".toList = some ("s3".toList, []) := by decide
  have hsplit := Text.splitOnceStr_append_of_some hscheme (bucket ++ '/' :: key)
  rw [List.nil_append] at hsplit
  rw [s3Location, List.append_assoc, split_authority hsplit]
  rfl

theorem objectPath_s3Location (bucket key : Text) :
    objectPath (s3Location bucket key) = withoutSlash (bucket ++ '/' :: key) := by
  rw [objectPath, split_s3Location]
  rfl

theorem onObjectStore_s3Location (bucket key : Text) : OnObjectStore (s3Location bucket key) := by
  rw [OnObjectStore, split_s3Location]
  exact (by decide : "s3".toList ≠ fileScheme)

theorem withoutSlash_cons (c : Char) (path : Text) :
    withoutSlash (c :: path) = if c = '/' then path else c :: path := by
  by_cases hc : c = '/'
  · subst hc
    simp [withoutSlash, Text.stripPrefix, List.isPrefixOf?]
  · simp [withoutSlash, Text.stripPrefix, List.isPrefixOf?, hc, Ne.symm hc]

/-- The path goes on where the key does. -/
theorem startsWith_s3Location {bucket pre key : Text} (h : pre <+: key) :
    StartsWith (s3Location bucket pre) (s3Location bucket key) where
  store := by simp only [place, split_s3Location]
  rooted := by
    simp only [place, split_s3Location]
    cases bucket <;> rfl
  path := by
    rw [objectPath_s3Location, objectPath_s3Location]
    cases bucket with
    | nil =>
        rw [List.nil_append, List.nil_append, withoutSlash_cons, withoutSlash_cons, if_pos rfl,
          if_pos rfl]
        exact h
    | cons c bucket =>
        have hmore : bucket ++ '/' :: pre <+: bucket ++ '/' :: key :=
          (List.prefix_append_right_inj _).mpr (List.cons_prefix_cons.mpr ⟨rfl, h⟩)
        rw [List.cons_append, List.cons_append, withoutSlash_cons, withoutSlash_cons]
        split
        · exact hmore
        · exact List.cons_prefix_cons.mpr ⟨rfl, hmore⟩

theorem climbs_s3Location (bucket key : Text) : climbs (s3Location bucket key) = false ↔
    parentSegment ∉ bucket.splitOn '/' ∧ parentSegment ∉ key.splitOn '/' := by
  have hparent : parentSegment ≠ [] := by decide
  have hsegments : climbs (s3Location bucket key) = false ↔
      parentSegment ∉ (objectPath (s3Location bucket key)).splitOn '/' := by
    rw [climbs, path_eq (onObjectStore_s3Location bucket key), List.contains_eq_mem,
      decide_eq_false_iff_not]
    split
    · next hnil => simp [hnil, hparent]
    · rfl
  have hboth : (bucket ++ '/' :: key).splitOn '/' = bucket.splitOn '/' ++ key.splitOn '/' :=
    List.splitOn_append_cons_self ..
  rw [hsegments, objectPath_s3Location]
  -- the slash that is left out adds an empty segment only
  have hslash : parentSegment ∈ (withoutSlash (bucket ++ '/' :: key)).splitOn '/' ↔
      parentSegment ∈ (bucket ++ '/' :: key).splitOn '/' := by
    obtain ⟨c, rest, hpath⟩ : ∃ c rest, bucket ++ '/' :: key = c :: rest :=
      List.exists_cons_of_ne_nil (by simp)
    rw [hpath, withoutSlash_cons]
    split
    · next hc =>
        subst hc
        have hempty : ('/' :: rest).splitOn '/' = [] :: rest.splitOn '/' :=
          List.splitOn_append_cons_self [] rest
        simp [hempty, hparent]
    · rfl
  rw [hslash, hboth, List.mem_append, not_or]

theorem isWithin_of_listed {root bucket pre key : Text}
    (h : isPrefixWithin root (s3Location bucket pre) = true) (hstarts : pre <+: key)
    (hkey : parentSegment ∉ key.splitOn '/') : isWithin root (s3Location bucket key) = true := by
  have hpre := (isWithin_iff.mp (isPrefixWithin_iff.mp h).1).2
  have hbucket := ((climbs_s3Location bucket pre).mp hpre).1
  exact isWithin_of_startsWith h (startsWith_s3Location hstarts)
    ((climbs_s3Location bucket key).mpr ⟨hbucket, hkey⟩)


/-! ## What is confined -/

theorem resolveCopy_ok {uri method bucket key source : Text} {bucketLevel : Bool}
    {addressed : Addressed} {operation : SignedOp}
    (h : resolveCopy uri method bucket key source bucketLevel = .ok (addressed, operation)) :
    addressed = ⟨uri, [s3Location bucket key, source], false⟩ ∧ operation = .write := by
  unfold resolveCopy at h
  split at h
  · cases h
  · split at h
    · cases h
    · cases h
      exact ⟨rfl, rfl⟩

theorem resolveDelete_ok {uri bucket key : Text} {body : Option Text}
    {addressed : Addressed} {operation : SignedOp}
    (h : resolveDelete uri bucket key body = .ok (addressed, operation)) :
    ∃ text keys, body = some text ∧ deleteKeys text = .ok keys ∧ key = [] ∧
      addressed = ⟨uri, keys.map (s3Location bucket), false⟩ ∧ operation = .write := by
  cases body with
  | none => cases h
  | some text =>
      obtain ⟨⟨⟩, hkey, h⟩ := Except.bind_eq_ok.mp h
      obtain ⟨keys, hkeys, h⟩ := Except.bind_eq_ok.mp h
      cases h
      refine ⟨text, keys, rfl, hkeys, ?_, rfl, rfl⟩
      unfold requireBucketAddressed at hkey
      split at hkey
      · assumption
      · cases hkey

theorem resolveList_ok {url : Url} {bucket key : Text} {addressed : Addressed}
    {operation : SignedOp} (h : resolveList url bucket key = .ok (addressed, operation)) :
    ∃ pre, ("prefix".toList, pre) ∈ url.queryPairs ∧
      addressed = ⟨url.asStr, [s3Location bucket pre], true⟩ ∧ operation = .read := by
  obtain ⟨⟨⟩, -, h⟩ := Except.bind_eq_ok.mp h
  cases hfind : url.queryPairs.find? fun pair => pair.1 = "prefix".toList with
  | none =>
      rw [hfind] at h
      cases h
  | some pair =>
      rw [hfind] at h
      cases h
      have hname : pair.1 = "prefix".toList := by simpa using List.find?_some hfind
      refine ⟨pair.2, ?_, rfl, rfl⟩
      rw [← hname]
      exact List.mem_of_find?_eq_some hfind

theorem resolveObject_ok {uri method bucket key : Text} {addressed : Addressed}
    {operation : SignedOp} (h : resolveObject uri method bucket key = .ok (addressed, operation)) :
    addressed = ⟨uri, [s3Location bucket key], false⟩ ∧ operationOf method = .ok operation := by
  obtain ⟨op, hop, h⟩ := Except.bind_eq_ok.mp h
  split at h
  · cases h
  · cases h
    exact ⟨rfl, hop⟩

theorem resolveKind_ok {url : Url} {method : Text} {payload : RemoteSignRequest}
    {bucket key : Text} {source : Option Text} {addressed : Addressed} {operation : SignedOp}
    (h : resolveKind url method payload bucket key source = .ok (addressed, operation)) :
    (∃ copied, source = some copied ∧
        addressed = ⟨url.asStr, [s3Location bucket key, copied], false⟩) ∨
      (∃ keys : List Text, source = none ∧ key = [] ∧
        addressed = ⟨url.asStr, keys.map (s3Location bucket), false⟩) ∨
      (∃ pre, source = none ∧ ("prefix".toList, pre) ∈ url.queryPairs ∧
        addressed = ⟨url.asStr, [s3Location bucket pre], true⟩) ∨
      source = none ∧ addressed = ⟨url.asStr, [s3Location bucket key], false⟩ := by
  unfold resolveKind at h
  cases source with
  | some copied => exact Or.inl ⟨copied, rfl, (resolveCopy_ok h).1⟩
  | none =>
      dsimp only at h
      split at h
      · obtain ⟨-, keys, -, -, hkey, haddressed, -⟩ := resolveDelete_ok h
        exact Or.inr (Or.inl ⟨keys, rfl, hkey, haddressed⟩)
      · split at h
        · obtain ⟨pre, hpre, haddressed, -⟩ := resolveList_ok h
          exact Or.inr (Or.inr (Or.inl ⟨pre, rfl, hpre, haddressed⟩))
        · exact Or.inr (Or.inr (Or.inr ⟨rfl, (resolveObject_ok h).1⟩))

/-- A resolved request is one of the four kinds, over the bucket and the key of
its URI. -/
theorem resolve_ok {parse : Text → Except Text Url} {method : Text} {payload : RemoteSignRequest}
    {config : SigningEndpointConfig} {addressed : Addressed} {operation : SignedOp}
    (h : resolve parse method payload config = .ok (addressed, operation)) :
    ∃ url bucket key source, parse payload.uri = .ok url ∧
      splitBucketAndKey url config = .ok (bucket, key) ∧
      copySourceLocation payload.headers = .ok source ∧
      resolveKind url method payload bucket key source = .ok (addressed, operation) := by
  unfold resolve at h
  cases hparse : parse payload.uri with
  | error e =>
      rw [hparse] at h
      cases h
  | ok url =>
      rw [hparse] at h
      obtain ⟨⟨⟩, -, h⟩ := Except.bind_eq_ok.mp h
      obtain ⟨⟨⟩, -, h⟩ := Except.bind_eq_ok.mp h
      obtain ⟨⟨⟩, -, h⟩ := Except.bind_eq_ok.mp h
      obtain ⟨⟨⟩, -, h⟩ := Except.bind_eq_ok.mp h
      obtain ⟨⟨bucket, key⟩, hsplit, h⟩ := Except.bind_eq_ok.mp h
      obtain ⟨source, hsource, h⟩ := Except.bind_eq_ok.mp h
      exact ⟨url, bucket, key, source, rfl, hsplit, hsource, h⟩

theorem confine_ok {addressed : Addressed} {tableLocation : Text} :
    confine addressed tableLocation = .ok () ↔ ∀ location ∈ addressed.locations,
      (if addressed.prefixes then isPrefixWithin tableLocation location
        else isWithin tableLocation location) = true := by
  unfold confine
  split
  · next location hfind =>
      refine iff_of_false (fun h => by cases h) fun hall => ?_
      have hin := hall location (List.mem_of_find?_eq_some hfind)
      have hout := List.find?_some hfind
      split at hout <;> simp_all
  · next hnone =>
      refine iff_of_true rfl fun location hlocation => ?_
      have hin := List.find?_eq_none.mp hnone location hlocation
      split at hin <;> simp_all

/-- What a listing may return is inside: an accepted prefix admits every object
whose path goes on where it ends, on S3 every key that starts with it, and the
listing that is signed names such a prefix. -/
theorem listing_confined :
    (∀ root candidate object, isPrefixWithin root candidate = true → StartsWith candidate object →
      climbs object = false → isWithin root object = true) ∧
    (∀ root bucket pre key, isPrefixWithin root (s3Location bucket pre) = true → pre <+: key →
      parentSegment ∉ key.splitOn '/' → isWithin root (s3Location bucket key) = true) ∧
    ∀ parse method payload config addressed operation tableLocation,
      resolve parse method payload config = .ok (addressed, operation) →
      addressed.prefixes = true → confine addressed tableLocation = .ok () →
      ∃ bucket pre, addressed.locations = [s3Location bucket pre] ∧ ∀ key, pre <+: key →
        parentSegment ∉ key.splitOn '/' →
          isWithin tableLocation (s3Location bucket key) = true := by
  refine ⟨fun _ _ _ => isWithin_of_startsWith, fun _ _ _ _ => isWithin_of_listed, ?_⟩
  intro parse method payload config addressed operation tableLocation hresolve hprefixes hconfine
  obtain ⟨url, bucket, key, source, -, -, -, hkind⟩ := resolve_ok hresolve
  rcases resolveKind_ok hkind with ⟨_, -, rfl⟩ | ⟨_, -, -, rfl⟩ | ⟨pre, -, -, rfl⟩ | ⟨-, rfl⟩
  · cases hprefixes
  · cases hprefixes
  · refine ⟨bucket, pre, rfl, fun key hstarts hkey => ?_⟩
    have hpre := confine_ok.mp hconfine _ (List.mem_singleton_self _)
    exact isWithin_of_listed hpre hstarts hkey
  · cases hprefixes

/-- The prefix of a table admits the files under it, and its sibling's prefix is refused. -/
theorem listing_events :
    isPrefixWithin "s3://lake/db/events".toList "s3://lake/db/events-archive".toList = false ∧
      isWithin "s3://lake/db/events".toList
        (s3Location "lake".toList "db/events/data/0.parquet".toList) = true :=
  ⟨by decide, listing_confined.2.1 _ _ "db/events/".toList _ (by decide)
    (by decide) (by decide)⟩

end Rustberg.V1
