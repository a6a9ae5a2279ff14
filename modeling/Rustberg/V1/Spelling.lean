import Rustberg.Catalog.Keys
import Rustberg.Catalog.Rest
import Rustberg.V1.ObjectUrl

/-!
# How a name is spelled in a URL

Two encoders write a name into a path, `encode_segment` of `catalog/rest.rs`
and `encode_path_segment` of `catalog/v1/sign.rs`; a request is read back by
the router and the extractors of `catalog/v1/extract.rs`.

`percentDecode_exact` is the reader of URLs to sign: it undoes the encoder, and
reads every text as S3 does but where an escape carries a sign.
`one_spelling`: whatever path or query either encoder writes for a valid name,
the server reads that name in it.
-/

namespace Rustberg.V1

/-! ## Escapes in a URL to sign -/

/-- The escapes of a segment are read as S3 reads them: it is accepted where
every `%` is followed by two hexadecimal digits and the bytes are UTF-8. -/
def ReadsEscapes (segment : Text) : Prop :=
  ∀ decoded, percentDecode segment = .ok decoded ↔
    Percent.WellFormed (Utf8.bytes segment) ∧
      Utf8.text (Percent.read (Utf8.bytes segment)) = some decoded

/-- Some `%` is followed by a plus sign, and with the digit 0 in the place of
each of these the segment is well formed and UTF-8. -/
def SignedEscape (segment : Text) : Prop :=
  [Percent.percent, Percent.plus] <:+: Utf8.bytes segment ∧
    Percent.WellFormed (Percent.unsigned (Utf8.bytes segment)) ∧
    ∃ decoded, Utf8.text (Percent.read (Percent.unsigned (Utf8.bytes segment))) = some decoded

theorem percentDecode_eq_ok {segment decoded : Text} :
    percentDecode segment = .ok decoded ↔
      Percent.WellFormed (Percent.unsigned (Utf8.bytes segment)) ∧
        Utf8.text (Percent.read (Percent.unsigned (Utf8.bytes segment))) = some decoded := by
  unfold percentDecode
  cases hdecode : Percent.decode (Utf8.bytes segment) with
  | none =>
      refine iff_of_false (fun h => by cases h) fun ⟨hwell, _⟩ => ?_
      rw [Percent.decode_eq_some.mpr ⟨hwell, rfl⟩] at hdecode
      cases hdecode
  | some bytes =>
      obtain ⟨hwell, rfl⟩ := Percent.decode_eq_some.mp hdecode
      dsimp only
      refine ⟨fun h => ⟨hwell, ?_⟩, fun h => ?_⟩
      · cases htext : Utf8.text (Percent.read (Percent.unsigned (Utf8.bytes segment))) with
        | none =>
            rw [htext] at h
            cases h
        | some text =>
            rw [htext] at h
            cases h
            rfl
      · rw [h.2]

theorem readsEscapes_iff (segment : Text) : ReadsEscapes segment ↔ ¬ SignedEscape segment := by
  by_cases hsigned : [Percent.percent, Percent.plus] <:+: Utf8.bytes segment
  · have hill := Percent.not_wellFormed_of_signed hsigned
    constructor
    · rintro hreads ⟨-, hwell, decoded, htext⟩
      exact hill ((hreads decoded).mp (percentDecode_eq_ok.mpr ⟨hwell, htext⟩)).1
    · intro hrefused decoded
      refine iff_of_false (fun hok => ?_) fun h => hill h.1
      obtain ⟨hwell, htext⟩ := percentDecode_eq_ok.mp hok
      exact hrefused ⟨hsigned, hwell, decoded, htext⟩
  · refine iff_of_true (fun decoded => ?_) fun h => hsigned h.1
    rw [percentDecode_eq_ok, Percent.unsigned_eq_self hsigned]

/-- What is encoded is decoded to itself, and a text is read as S3 reads it unless an escape
carries a sign and nothing else is wrong with it. -/
theorem percentDecode_exact (segment : Text) :
    percentDecode (encodePathSegment segment) = .ok segment ∧
      (ReadsEscapes segment ↔ ¬ SignedEscape segment) :=
  ⟨percentDecode_encodePathSegment segment, readsEscapes_iff segment⟩

/-- `%+a` is read as the byte 10, which S3 reads as three characters. -/
theorem percentDecode_signed : ¬ ∀ segment : Text,
    percentDecode (encodePathSegment segment) = .ok segment ∧ ReadsEscapes segment := by
  intro h
  have hok : percentDecode "%+a".toList = .ok "\n".toList := by decide
  have hsigned : [Percent.percent, Percent.plus] <:+: Utf8.bytes "%+a".toList :=
    ⟨[], [97], by decide⟩
  obtain ⟨hwell, htext⟩ := percentDecode_eq_ok.mp hok
  exact (readsEscapes_iff _).mp (h "%+a".toList).2 ⟨hsigned, hwell, _, htext⟩

/-! ## What a mount requests -/

end Rustberg.V1

namespace Rustberg.RestCatalog

/-- The path of a namespace, `get_namespace` and `namespace_exists`. -/
def namespacePath (ns : NamespaceIdent) : Text := "/v1/namespaces/".toList ++ encodeNamespace ns

def viewsPath (ns : NamespaceIdent) : Text :=
  "/v1/namespaces/".toList ++ encodeNamespace ns ++ "/views".toList

/-- The path of `load_table_response`. -/
def tablePath (table : TableIdent) : Text :=
  "/v1/namespaces/".toList ++ encodeNamespace table.namespc ++ "/tables/".toList ++
    encodeSegment table.name

/-- The path of `load_view` and `view_exists`. -/
def viewPath (view : TableIdent) : Text :=
  "/v1/namespaces/".toList ++ encodeNamespace view.namespc ++ "/views/".toList ++
    encodeSegment view.name

def encodeQuery (pairs : List (Text × Text)) : Text :=
  if pairs = [] then []
  else '?' :: Text.join ['&'] (pairs.map fun (key, value) =>
    encodeSegment key ++ '=' :: encodeSegment value)

/-- What `list_namespaces` asks the remote. -/
def namespacesUrl (parent : Option NamespaceIdent) (page : PageRequest) : Text :=
  "/v1/namespaces".toList ++
    encodeQuery (pageQuery page (RemoteCursor.parse page.after) ++ parentQuery parent)

end Rustberg.RestCatalog

namespace Rustberg.V1

/-- What a path names. -/
inductive Route where
  | one (ns : NamespaceIdent)
  | tables (ns : NamespaceIdent)
  | views (ns : NamespaceIdent)
  | table (ident : TableIdent)
  | view (ident : TableIdent)
  | sign (ident : TableIdent)
  deriving DecidableEq

namespace Route

/-- The path a mount requests, or the one a client is told to send what it wants signed. -/
def path : Route → Text
  | one ns => RestCatalog.namespacePath ns
  | tables ns => RestCatalog.tablesPath ns
  | views ns => RestCatalog.viewsPath ns
  | table ident => RestCatalog.tablePath ident
  | view ident => RestCatalog.viewPath ident
  -- The endpoint is relative to the catalog's own URI.
  | sign ident => '/' :: (signingConfigFor ident.namespc ident.name).endpoint

/-- Every name passes validation. -/
def Valid (u : UnicodeData) : Route → Prop
  | one ns | tables ns | views ns => validateNamespace u ns = .ok ()
  | table ident | view ident | sign ident =>
      validateNamespace u ident.namespc = .ok () ∧ ValidName u ident.name

end Route

/-! ## How the server reads a request -/

/-- `axum` decodes a parameter of a path once, and refuses what is not UTF-8. -/
def pathParam (key raw : Text) : Except AppError Text :=
  match Utf8.text (Percent.read (Utf8.bytes raw)) with
  | some value => .ok value
  | none => .error (.badRequest ("Invalid path: Invalid UTF-8 in `".toList ++ key ++ "`".toList))

def parseNamespace (u : UnicodeData) (raw : Text) : Except AppError NamespaceIdent := do
  let parts := raw.splitOn partSeparator
  validateNamespace u parts
  (NamespaceIdent.fromVec parts).mapError fun e =>
    .badRequest ("Invalid namespace: ".toList ++ e.message)

/-- `NamespacePath` -/
def readNamespacePath (u : UnicodeData) (raw : Text) : Except AppError NamespaceIdent := do
  let ns ← pathParam "namespace".toList raw
  parseNamespace u ns

def readTabularPath (u : UnicodeData) (key context rawNs rawName : Text) :
    Except AppError TableIdent := do
  let ns ← pathParam "namespace".toList rawNs
  let name ← pathParam key rawName
  let namespc ← parseNamespace u ns
  validateName u name context
  return ⟨namespc, name⟩

/-- `TablePath` -/
def readTablePath (u : UnicodeData) : Text → Text → Except AppError TableIdent :=
  readTabularPath u "table".toList "Table name".toList

/-- `ViewPath` -/
def readViewPath (u : UnicodeData) : Text → Text → Except AppError TableIdent :=
  readTabularPath u "view".toList "View name".toList

/-- What the segments after a namespace's name. -/
def readBelow (u : UnicodeData) (ns : Text) : List Text → Option (Except AppError Route)
  | [] => some (Route.one <$> readNamespacePath u ns)
  | [kind] =>
      if kind = "tables".toList then some (Route.tables <$> readNamespacePath u ns)
      else if kind = "views".toList then some (Route.views <$> readNamespacePath u ns)
      else none
  | [kind, name] =>
      if kind = "tables".toList then some (Route.table <$> readTablePath u ns name)
      else if kind = "views".toList then some (Route.view <$> readViewPath u ns name)
      else none
  | [kind, name, action] =>
      if kind = "tables".toList ∧ action = "sign".toList then
        some (Route.sign <$> readTablePath u ns name)
      else none
  | _ => none

/-- A request's path and query. -/
def splitUrl (url : Text) : Text × Text := (Text.splitOnce '?' url).getD (url, [])

/-- The router and the extractors, on the routes a path here can take. -/
def readPath (u : UnicodeData) (url : Text) : Option (Except AppError Route) :=
  match (splitUrl url).1.splitOn '/' with
  | root :: version :: namespaces :: ns :: rest =>
      if root = [] ∧ version = "v1".toList ∧ namespaces = "namespaces".toList then
        readBelow u ns rest
      else none
  | _ => none

/-- `String::from_utf8_lossy`, as far as it is promised. -/
structure LossyUtf8 where
  decode : List UInt8 → Text
  decode_bytes : ∀ s, decode (Utf8.bytes s) = s

section

variable (lossy : LossyUtf8)

/-- A key or a value of a form: a plus sign is a space, then escapes are read. -/
def formDecode (s : Text) : Text :=
  lossy.decode (Percent.read ((Utf8.bytes s).map fun b => if b = Percent.plus then 32 else b))

def formPair (pair : Text) : Text × Text :=
  match Text.splitOnce '=' pair with
  | some (key, value) => (formDecode lossy key, formDecode lossy value)
  | none => (formDecode lossy pair, [])

def formPairs (query : Text) : List (Text × Text) :=
  ((query.splitOn '&').filter (· ≠ [])).map (formPair lossy)

/-- The parent `list_namespaces` is asked for. -/
def readParent (u : UnicodeData) (url : Text) : Except AppError (Option NamespaceIdent) :=
  match (formPairs lossy (splitUrl url).2).lookup "parent".toList with
  | none => .ok none
  | some parent => do
      let parts := parent.splitOn partSeparator
      validateNamespace u parts
      some <$> (NamespaceIdent.fromVec parts).mapError AppError.fromIceberg

end

/-! ## Encoded names -/

theorem hexByte_eq (b : UInt8) : RestCatalog.hexByte b = (Hex.byte b).map Char.toUpper := by
  rw [RestCatalog.hexByte, Hex.byte, List.leftpad, List.leftpad, List.map_append,
    List.map_replicate,
    List.length_map]
  rfl

/-- The two encoders are one. -/
theorem encodeSegment_eq (s : Text) : RestCatalog.encodeSegment s = encodePathSegment s := by
  refine congrArg (List.flatMap · (Utf8.bytes s)) (funext fun b => ?_)
  dsimp only
  rw [hexByte_eq]
  refine if_congr ?_ rfl rfl
  simp only [Bool.or_eq_true, decide_eq_true_eq, List.mem_cons]
  tauto

theorem encodeNamespace_eq (ns : NamespaceIdent) :
    RestCatalog.encodeNamespace ns = encodePathSegment (namespaceKey ns) :=
  encodeSegment_eq _

theorem encodePathSegment_notMem {c : Char}
    (hc : (c.isAlphanum || c ∈ ['-', '.', '_', '~', '%']) = false)
    (s : Text) : c ∉ encodePathSegment s := by
  intro hmem
  rw [encodePathSegment_chars hmem] at hc
  cases hc

theorem pathParam_encodePathSegment (key s : Text) :
    pathParam key (encodePathSegment s) = .ok s := by
  rw [pathParam, (read_encodePathSegment s).2, Utf8.text_bytes]

theorem formDecode_encodePathSegment (lossy : LossyUtf8) (s : Text) :
    formDecode lossy (encodePathSegment s) = s := by
  have hplus :
    ∀ b ∈ Utf8.bytes (encodePathSegment s), (if b = Percent.plus then 32 else b) = b := by
    intro b hb
    refine if_neg ?_
    rintro rfl
    obtain ⟨c, hmem, hc⟩ := Utf8.mem_bytes hb (by decide)
    obtain rfl : c = '+' := Char.toNat_inj.mp hc
    exact encodePathSegment_notMem (by decide) s hmem
  rw [formDecode, List.map_congr_left hplus, List.map_id', (read_encodePathSegment s).2,
    lossy.decode_bytes]

/-! ## A valid name is read back -/

section

variable {u : UnicodeData}

theorem splitOn_key {ns : NamespaceIdent} (h : validateNamespace u ns = .ok ()) :
    (namespaceKey ns).splitOn partSeparator = ns ∧ NamespaceIdent.fromVec ns = .ok ns := by
  obtain ⟨hne, -, hvalid⟩ := validateNamespace_eq_ok.mp h
  exact ⟨splitOn_namespaceKey ⟨hne, hvalid⟩, NamespaceIdent.fromVec_ok hne⟩

theorem parseNamespace_key {ns : NamespaceIdent} (h : validateNamespace u ns = .ok ()) :
    parseNamespace u (namespaceKey ns) = .ok ns := by
  obtain ⟨hsplit, hvec⟩ := splitOn_key h
  rw [parseNamespace, hsplit, h, hvec]
  rfl

theorem readNamespacePath_encoded {ns : NamespaceIdent} (h : validateNamespace u ns = .ok ()) :
    readNamespacePath u (encodePathSegment (namespaceKey ns)) = .ok ns := by
  rw [readNamespacePath, pathParam_encodePathSegment]
  exact parseNamespace_key h

theorem readTabularPath_encoded {ident : TableIdent} (key context : Text)
    (h : validateNamespace u ident.namespc = .ok ()) (hname : ValidName u ident.name) :
    readTabularPath u key context (encodePathSegment (namespaceKey ident.namespc))
      (encodePathSegment ident.name) = .ok ident := by
  rw [readTabularPath, pathParam_encodePathSegment, pathParam_encodePathSegment]
  change (do
    let namespc ← parseNamespace u (namespaceKey ident.namespc)
    validateName u ident.name context
    return (⟨namespc, ident.name⟩ : TableIdent)) = _
  rw [parseNamespace_key h]
  change (do
    validateName u ident.name context
    return (⟨ident.namespc, ident.name⟩ : TableIdent)) = _
  rw [hname context]
  rfl

/-- The segments of a path below `/v1/namespaces`. -/
def Route.segments : Route → List Text
  | one ns => [encodePathSegment (namespaceKey ns)]
  | tables ns => [encodePathSegment (namespaceKey ns), "tables".toList]
  | views ns => [encodePathSegment (namespaceKey ns), "views".toList]
  | table ident => [encodePathSegment (namespaceKey ident.namespc), "tables".toList,
      encodePathSegment ident.name]
  | view ident => [encodePathSegment (namespaceKey ident.namespc), "views".toList,
      encodePathSegment ident.name]
  | sign ident => [encodePathSegment (namespaceKey ident.namespc), "tables".toList,
      encodePathSegment ident.name, "sign".toList]

theorem Route.path_eq (route : Route) :
    route.path = Text.below '/' ("v1".toList :: "namespaces".toList :: route.segments) := by
  have hroot : "/v1/namespaces/".toList =
      '/' :: ("v1".toList ++ '/' :: ("namespaces".toList ++ ['/'])) := by decide
  have hrelative : "v1/namespaces/".toList =
      "v1".toList ++ '/' :: ("namespaces".toList ++ ['/']) := by decide
  have htables : "/tables".toList = '/' :: "tables".toList := by decide
  have htables' : "/tables/".toList = '/' :: ("tables".toList ++ ['/']) := by decide
  have hviews : "/views".toList = '/' :: "views".toList := by decide
  have hviews' : "/views/".toList = '/' :: ("views".toList ++ ['/']) := by decide
  have hend : "/sign".toList = '/' :: "sign".toList := by decide
  have hjoin :
    ∀ segments : List Text, Text.below '/' ("v1".toList :: "namespaces".toList :: segments) =
      '/' :: ("v1".toList ++ '/' :: ("namespaces".toList ++ Text.below '/' segments)) := by
    intro segments
    rw [Text.below, List.flatMap_cons, List.flatMap_cons]
    rfl
  rw [hjoin]
  cases route with
  | one ns =>
      show "/v1/namespaces/".toList ++ RestCatalog.encodeNamespace ns = _
      rw [encodeNamespace_eq, hroot]
      simp [segments, Text.below]
  | tables ns =>
      show "/v1/namespaces/".toList ++ RestCatalog.encodeNamespace ns ++ "/tables".toList = _
      rw [encodeNamespace_eq, hroot, htables]
      simp [segments, Text.below]
  | views ns =>
      show "/v1/namespaces/".toList ++ RestCatalog.encodeNamespace ns ++ "/views".toList = _
      rw [encodeNamespace_eq, hroot, hviews]
      simp [segments, Text.below]
  | table ident =>
      show "/v1/namespaces/".toList ++ RestCatalog.encodeNamespace ident.namespc ++
        "/tables/".toList ++ RestCatalog.encodeSegment ident.name = _
      rw [encodeNamespace_eq, encodeSegment_eq, hroot, htables']
      simp [segments, Text.below]
  | view ident =>
      show "/v1/namespaces/".toList ++ RestCatalog.encodeNamespace ident.namespc ++
        "/views/".toList ++ RestCatalog.encodeSegment ident.name = _
      rw [encodeNamespace_eq, encodeSegment_eq, hroot, hviews']
      simp [segments, Text.below]
  | sign ident =>
      show '/' :: ("v1/namespaces/".toList ++ encodePathSegment (namespaceKey ident.namespc) ++
        "/tables/".toList ++ encodePathSegment ident.name ++ "/sign".toList) = _
      rw [hrelative, htables', hend]
      simp [segments, Text.below]

theorem Route.segments_cases (route : Route) {segment : Text} (h : segment ∈ route.segments) :
    segment ∈ ["tables".toList, "views".toList, "sign".toList] ∨
      ∃ s, segment = encodePathSegment s := by
  cases route <;> simp only [segments, List.mem_cons, List.not_mem_nil, or_false] at h ⊢ <;> grind

/-- Nothing in a path ends a segment or the path. -/
theorem Route.segment_plain (route : Route) {segment : Text}
    (h : segment ∈ "v1".toList :: "namespaces".toList :: route.segments) {c : Char}
    (hc : c = '/' ∨ c = '?') : c ∉ segment := by
  have hword : ∀ word ∈ ["v1".toList, "namespaces".toList, "tables".toList, "views".toList,
      "sign".toList], c ∉ word := by
    rcases hc with rfl | rfl <;> decide
  rcases List.mem_cons.mp h with rfl | h
  · exact hword _ (by simp)
  rcases List.mem_cons.mp h with rfl | h
  · exact hword _ (by simp)
  rcases route.segments_cases h with h | ⟨s, rfl⟩
  · exact hword _ (List.mem_cons_of_mem _ (List.mem_cons_of_mem _ h))
  · rcases hc with rfl | rfl <;> exact encodePathSegment_notMem (by decide) s

theorem splitUrl_encodeQuery {path : Text} (h : '?' ∉ path) (pairs : List (Text × Text)) :
    (splitUrl (path ++ RestCatalog.encodeQuery pairs)).1 = path := by
  rw [RestCatalog.encodeQuery, splitUrl]
  split
  · rw [List.append_nil, Text.splitOnce_eq_none.mpr h]
    rfl
  · rw [Text.splitOnce_eq_some.mpr ⟨rfl, h⟩]
    rfl

theorem readBelow_segments (route : Route) (h : route.Valid u) :
    ∃ ns rest, route.segments = ns :: rest ∧ readBelow u ns rest = some (.ok route) := by
  have hkind : "views".toList ≠ "tables".toList := by decide
  cases route with
  | one ns =>
      refine ⟨_, _, rfl, ?_⟩
      rw [readBelow, readNamespacePath_encoded h]
      rfl
  | tables ns =>
      refine ⟨_, _, rfl, ?_⟩
      rw [readBelow, if_pos rfl, readNamespacePath_encoded h]
      rfl
  | views ns =>
      refine ⟨_, _, rfl, ?_⟩
      rw [readBelow, if_neg hkind, if_pos rfl, readNamespacePath_encoded h]
      rfl
  | table ident =>
      refine ⟨_, _, rfl, ?_⟩
      rw [readBelow, if_pos rfl, readTablePath, readTabularPath_encoded _ _ h.1 h.2]
      rfl
  | view ident =>
      refine ⟨_, _, rfl, ?_⟩
      rw [readBelow, if_neg hkind, if_pos rfl, readViewPath, readTabularPath_encoded _ _ h.1 h.2]
      rfl
  | sign ident =>
      refine ⟨_, _, rfl, ?_⟩
      rw [readBelow, if_pos ⟨rfl, rfl⟩, readTablePath, readTabularPath_encoded _ _ h.1 h.2]
      rfl

/-- The server reads in a path the names it was written for. -/
theorem readPath_path (route : Route) (h : route.Valid u) (pairs : List (Text × Text)) :
    readPath u (route.path ++ RestCatalog.encodeQuery pairs) = some (.ok route) := by
  have hplain : '?' ∉ route.path := by
    rw [Route.path_eq]
    intro hmem
    obtain ⟨segment, hsegment, hc⟩ := List.mem_flatMap.mp hmem
    rcases List.mem_cons.mp hc with hc | hc
    · exact absurd hc (by decide)
    · exact route.segment_plain hsegment (.inr rfl) hc
  have hsplit : route.path.splitOn '/' =
      [] :: "v1".toList :: "namespaces".toList :: route.segments := by
    rw [Route.path_eq]
    exact Text.splitOn_append_below [] fun s hs => route.segment_plain hs (.inl rfl)
  obtain ⟨ns, rest, hsegments, hread⟩ := readBelow_segments route h
  rw [readPath, splitUrl_encodeQuery hplain, hsplit, hsegments]
  exact (if_pos ⟨rfl, rfl, rfl⟩).trans hread

/-! ## The query -/

/-- A form reads back what was encoded. -/
theorem formPair_encoded (lossy : LossyUtf8) (key value : Text) :
    formPair lossy (encodePathSegment key ++ '=' :: encodePathSegment value) = (key, value) := by
  rw [formPair, Text.splitOnce_eq_some.mpr ⟨rfl, encodePathSegment_notMem (by decide) key⟩]
  dsimp only
  rw [formDecode_encodePathSegment, formDecode_encodePathSegment]

theorem formPairs_encodeQuery (lossy : LossyUtf8) {pairs : List (Text × Text)} (hne : pairs ≠ [])
    {path : Text} (h : '?' ∉ path) :
    formPairs lossy (splitUrl (path ++ RestCatalog.encodeQuery pairs)).2 = pairs := by
  have hencoded : ∀ pair : Text × Text,
      RestCatalog.encodeSegment pair.1 ++ '=' :: RestCatalog.encodeSegment pair.2 =
        encodePathSegment pair.1 ++ '=' :: encodePathSegment pair.2 := fun pair => by
    rw [encodeSegment_eq, encodeSegment_eq]
  have hplain : ∀ piece ∈ pairs.map fun pair =>
    encodePathSegment pair.1 ++ '=' :: encodePathSegment pair.2,
      '&' ∉ piece := by
    rintro _ hpiece
    obtain ⟨pair, -, rfl⟩ := List.mem_map.mp hpiece
    simp [encodePathSegment_notMem (c := '&') (by decide)]
  have hkeep : ∀ piece ∈ pairs.map fun pair =>
    encodePathSegment pair.1 ++ '=' :: encodePathSegment pair.2,
      decide (piece ≠ []) = true := by
    rintro _ hpiece
    obtain ⟨pair, -, rfl⟩ := List.mem_map.mp hpiece
    simp
  rw [RestCatalog.encodeQuery, if_neg hne, splitUrl, Text.splitOnce_eq_some.mpr ⟨rfl, h⟩,
    Option.getD_some, List.map_congr_left fun pair _ => hencoded pair, formPairs, Text.join,
    List.splitOn_intercalate '&' hplain (by simpa using hne), List.filter_eq_self.mpr hkeep,
    List.map_map]
  refine (List.map_congr_left fun pair _ => ?_).trans (List.map_id pairs)
  exact formPair_encoded lossy pair.1 pair.2

/-- The server reads the parent a mount's listing asks for. -/
theorem readParent_namespacesUrl (lossy : LossyUtf8) {ns : NamespaceIdent}
    (h : validateNamespace u ns = .ok ()) (page : PageRequest) :
    readParent lossy u (RestCatalog.namespacesUrl (some ns) page) = .ok (some ns) := by
  obtain ⟨hsplit, hvec⟩ := splitOn_key h
  have hpath : '?' ∉ "/v1/namespaces".toList := by decide
  have hlookup : ∀ token size, (RestCatalog.pagingQuery token size ++
      [("parent".toList, namespaceKey ns)]).lookup "parent".toList = some (namespaceKey ns) := by
    intro token size
    cases token <;> rfl
  have hne : RestCatalog.pageQuery page (RemoteCursor.parse page.after) ++
      RestCatalog.parentQuery (some ns) ≠ [] := by
    rw [RestCatalog.parentQuery]
    simp
  have hpairs : formPairs lossy (splitUrl (RestCatalog.namespacesUrl (some ns) page)).2 =
      RestCatalog.pageQuery page (RemoteCursor.parse page.after) ++ RestCatalog.parentQuery
        (some ns) :=
    formPairs_encodeQuery lossy hne hpath
  have hparent : (RestCatalog.pageQuery page (RemoteCursor.parse page.after) ++
      RestCatalog.parentQuery (some ns)).lookup "parent".toList = some (namespaceKey ns) :=
    hlookup _ _
  rw [readParent, hpairs, hparent]
  dsimp only
  rw [hsplit, h, hvec]
  rfl

/-- A name is spelled one way: the server reads in a path the names it was
written for, and in the query of a listing its parent, and no path is
written for two. -/
theorem one_spelling (u : UnicodeData) (lossy : LossyUtf8) :
    (∀ (route : Route) (pairs : List (Text × Text)), route.Valid u →
      readPath u (route.path ++ RestCatalog.encodeQuery pairs) = some (.ok route)) ∧
    (∀ (ns : NamespaceIdent) (page : PageRequest), validateNamespace u ns = .ok () →
      readParent lossy u (RestCatalog.namespacesUrl (some ns) page) = .ok (some ns)) ∧
    ∀ route route' : Route, route.Valid u → route'.Valid u → route.path = route'.path →
      route = route' := by
  refine ⟨fun route pairs h => readPath_path route h pairs,
    fun ns page h => readParent_namespacesUrl lossy h page, fun route route' h h' heq => ?_⟩
  have hread := readPath_path route h []
  rw [heq, readPath_path route' h' []] at hread
  exact (Except.ok.inj (Option.some.inj hread)).symm

end

def LossyUtf8.plain : LossyUtf8 where
  decode bytes := (Utf8.text bytes).getD [Char.ofNat 0xFFFD]
  decode_bytes s := by rw [Utf8.text_bytes, Option.getD_some]

theorem one_spelling_sales :
    readPath .plain (Route.table ⟨["sales".toList, "eu".toList], "a&b %".toList⟩).path =
      some (.ok (.table ⟨["sales".toList, "eu".toList], "a&b %".toList⟩)) ∧
    readParent .plain .plain (RestCatalog.namespacesUrl (some ["sales".toList]) ⟨none, 10⟩) =
      .ok (some ["sales".toList]) := by
  have hname : ValidName .plain "a&b %".toList := .of_check rfl
  obtain ⟨hpath, hparent, -⟩ := one_spelling .plain .plain
  have hread := hpath (.table ⟨["sales".toList, "eu".toList], "a&b %".toList⟩) [] ⟨rfl, hname⟩
  exact ⟨by rwa [RestCatalog.encodeQuery, if_pos rfl, List.append_nil] at hread,
    hparent ["sales".toList] ⟨none, 10⟩ rfl⟩

end Rustberg.V1
