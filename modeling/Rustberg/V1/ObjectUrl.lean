import Rustberg.Base.Net
import Rustberg.V1.Bucket
import Rustberg.V1.CopySource

/-!
# URLs a plan hands out

`object_url` of `catalog/v1/sign.rs` spells an S3 location as a URL, and
`split_bucket_and_key` reads a URL back. Between them stands a URL parser,
which resolves the path: `HttpsUrls` is what the standard says of the URLs
built here. `roundTrips_iff` says for which configurations and names what
is read back is what was spelled.
-/

namespace Rustberg.V1

/-- The HTTPS URL an `s3://bucket/key` location is fetched at. -/
def objectUrl (location region : Text) (config : SigningEndpointConfig) : Option Text := do
  let rest ← Text.stripPrefix location "s3://".toList
  let (bucket, key) ← Text.splitOnce '/' rest
  if bucket = [] ∨ key = [] then none
  else
    let encoded := Text.join ['/'] ((key.splitOn '/').map encodePathSegment)
    match config.endpointHost, config.urlStyle with
    | some host, some .virtualHost =>
        some ("https://".toList ++ bucket ++ '.' :: host ++ '/' :: encoded)
    | some host, _ => some ("https://".toList ++ host ++ '/' :: bucket ++ '/' :: encoded)
    | none, _ => some ("https://".toList ++ bucket ++ ".s3.".toList ++ region ++
        ".amazonaws.com/".toList ++ encoded)

/-! ## Encoded segments -/

/-- A byte of a segment, as it is encoded. -/
def escapeByte (b : UInt8) : Text :=
  let c := Char.ofNat b.toNat
  if c.isAlphanum || c ∈ ['-', '.', '_', '~'] then [c]
  else '%' :: (Hex.byte b).map Char.toUpper

theorem encodePathSegment_eq (value : Text) :
    encodePathSegment value = (Utf8.bytes value).flatMap escapeByte := rfl

/-- The byte stands for itself, or is escaped. -/
def standsFor (b : UInt8) : List UInt8 → Bool
  | [x] => x == b && x != Percent.percent
  | [x, h, l] => x == Percent.percent && Percent.escaped h l == some b && h != Percent.plus
  | _ => false

theorem encodeChar_ascii {c : Char} (h : c.toNat < 128) :
    String.utf8EncodeChar c = [UInt8.ofNat c.toNat] := by
  rw [String.utf8EncodeChar_eq_singleton (Char.utf8Size_eq_one_iff.mpr ?_)]
  · rfl
  · rw [UInt32.le_iff_toNat_le]
    exact Nat.le_of_lt_succ h

theorem toNat_lt_of_isAlphanum {c : Char} (h : c.isAlphanum = true) : c.toNat < 128 := by
  simp only [Char.isAlphanum, Char.isAlpha, Char.isUpper, Char.isLower, Char.isDigit,
    Bool.or_eq_true, Bool.and_eq_true, decide_eq_true_eq, UInt32.le_iff_toNat_le] at h
  have hnat : c.toNat = c.val.toNat := rfl
  rw [hnat]
  rcases h with (⟨-, h⟩ | ⟨-, h⟩) | ⟨-, h⟩ <;> exact lt_of_le_of_lt h (by decide)

/-- The character of a byte that stands for itself is that byte. -/
theorem plain_ofNat {b : UInt8}
    (h : ((Char.ofNat b.toNat).isAlphanum || Char.ofNat b.toNat ∈ ['-', '.', '_', '~']) = true) :
    String.utf8EncodeChar (Char.ofNat b.toNat) = [b] ∧ b ≠ Percent.percent := by
  have hvalid : (Char.ofNat b.toNat).toNat = b.toNat := by
    rw [Char.ofNat, dif_pos (Or.inl (lt_of_lt_of_le b.toNat_lt (by decide)))]
    rfl
  have hlt : (Char.ofNat b.toNat).toNat < 128 := by
    rcases Bool.or_eq_true_iff.mp h with halnum | hmem
    · exact toNat_lt_of_isAlphanum halnum
    · have hone := of_decide_eq_true hmem
      simp only [List.mem_cons, List.not_mem_nil, or_false] at hone
      rcases hone with heq | heq | heq | heq <;> rw [heq] <;> decide
  constructor
  · rw [encodeChar_ascii hlt, hvalid, UInt8.ofNat_toNat]
  · rintro rfl
    revert h
    decide

/-- A digit of an escape. -/
theorem upperDigit : ∀ n < 16, let c := (Nat.digitChar n).toUpper
    String.utf8EncodeChar c = [UInt8.ofNat c.toNat] ∧
      Percent.hexDigit (UInt8.ofNat c.toNat) = some (UInt8.ofNat n) ∧
      UInt8.ofNat c.toNat ≠ Percent.plus ∧ c.isAlphanum = true := by
  decide

theorem escapeByte_cases (b : UInt8) :
    (escapeByte b = [Char.ofNat b.toNat] ∧
      ((Char.ofNat b.toNat).isAlphanum || Char.ofNat b.toNat ∈ ['-', '.', '_', '~']) = true) ∨
    escapeByte b = ['%', (Nat.digitChar (b.toNat / 16)).toUpper,
      (Nat.digitChar (b.toNat % 16)).toUpper] := by
  unfold escapeByte
  by_cases hplain : ((Char.ofNat b.toNat).isAlphanum ||
      Char.ofNat b.toNat ∈ ['-', '.', '_', '~']) = true
  · exact Or.inl ⟨if_pos hplain, hplain⟩
  · right
    rw [if_neg hplain, Hex.byte_eq]
    rfl

theorem standsFor_escapeByte (b : UInt8) :
    standsFor b ((escapeByte b).flatMap String.utf8EncodeChar) = true ∧
      (escapeByte b).all (fun c => c.isAlphanum || c ∈ ['-', '.', '_', '~', '%']) = true := by
  rcases escapeByte_cases b with ⟨hself, hplain⟩ | hescaped
  · obtain ⟨hencoded, hne⟩ := plain_ofNat hplain
    rw [hself, List.flatMap_singleton, hencoded]
    constructor
    · simpa [standsFor] using hne
    · simp only [Bool.or_eq_true, decide_eq_true_eq, List.mem_cons, List.not_mem_nil, or_false,
        List.all_cons, List.all_nil, Bool.and_true] at hplain ⊢
      tauto
  · have hbyte : b.toNat < 256 := b.toNat_lt
    obtain ⟨hhigh, hvalueHigh, hplus, halnumHigh⟩ := upperDigit (b.toNat / 16) (by omega)
    obtain ⟨hlow, hvalueLow, -, halnumLow⟩ := upperDigit (b.toNat % 16) (by omega)
    have hpercent : String.utf8EncodeChar '%' = [Percent.percent] := by decide
    have hsum : 16 * UInt8.ofNat (b.toNat / 16) + UInt8.ofNat (b.toNat % 16) = b := by
      rw [← UInt8.toNat_inj, UInt8.toNat_add, UInt8.toNat_mul, UInt8.toNat_ofNat',
        UInt8.toNat_ofNat']
      show (16 * _ % 256 + _) % 256 = _
      omega
    rw [hescaped]
    constructor
    · simp only [List.flatMap_cons, List.flatMap_nil, hpercent, hhigh, hlow, List.cons_append,
        List.nil_append, standsFor, Percent.escaped, hvalueHigh, hvalueLow, hsum]
      simpa using hplus
    · simp [halnumHigh, halnumLow]

/-- An encoded byte is read as the byte. -/
theorem read_escapeByte (b : UInt8) (rest : List UInt8) :
    Percent.decode (Utf8.bytes (escapeByte b) ++ rest) = (Percent.decode rest).map (b :: ·) ∧
      Percent.read (Utf8.bytes (escapeByte b) ++ rest) = b :: Percent.read rest := by
  have hstands := (standsFor_escapeByte b).1
  rw [← Utf8.bytes_eq] at hstands
  generalize Utf8.bytes (escapeByte b) = encoded at hstands ⊢
  unfold standsFor at hstands
  split at hstands
  next x =>
    obtain ⟨hx, hne⟩ := Bool.and_eq_true_iff.mp hstands
    obtain rfl := eq_of_beq hx
    have hplain : x ≠ Percent.percent := bne_iff_ne.mp hne
    exact ⟨Percent.decode_cons hplain rest, Percent.read_cons hplain rest⟩
  next x h l =>
    obtain ⟨hboth, hne⟩ := Bool.and_eq_true_iff.mp hstands
    obtain ⟨hx, hescaped⟩ := Bool.and_eq_true_iff.mp hboth
    obtain rfl := eq_of_beq hx
    have hvalue : Percent.escaped h l = some b := eq_of_beq hescaped
    constructor
    · show Percent.decode (Percent.percent :: h :: l :: rest) = _
      rw [Percent.decode_percent, Percent.fromStrRadix, if_neg (bne_iff_ne.mp hne), hvalue]
    · show Percent.read (Percent.percent :: h :: l :: rest) = _
      rw [Percent.read_percent, hvalue]
  next => cases hstands

/-- An encoded segment is read as the segment. -/
theorem read_encodePathSegment (value : Text) :
    Percent.decode (Utf8.bytes (encodePathSegment value)) = some (Utf8.bytes value) ∧
      Percent.read (Utf8.bytes (encodePathSegment value)) = Utf8.bytes value := by
  rw [encodePathSegment_eq]
  induction Utf8.bytes value with
  | nil => exact ⟨rfl, rfl⟩
  | cons b bytes ih =>
      obtain ⟨hdecode, hread⟩ := read_escapeByte b (Utf8.bytes (bytes.flatMap escapeByte))
      rw [List.flatMap_cons, Utf8.bytes_append, hdecode, hread, ih.1, ih.2]
      exact ⟨rfl, rfl⟩

theorem encodePathSegment_chars {value : Text} {c : Char} (hc : c ∈ encodePathSegment value) :
    (c.isAlphanum || c ∈ ['-', '.', '_', '~', '%']) = true := by
  obtain ⟨b, -, hb⟩ := List.mem_flatMap.mp hc
  exact List.all_eq_true.mp (standsFor_escapeByte b).2 c hb

theorem percentDecode_encodePathSegment (value : Text) :
    percentDecode (encodePathSegment value) = .ok value := by
  rw [percentDecode, (read_encodePathSegment value).1]
  dsimp only
  rw [Utf8.text_bytes]

/-- The characters of a host's labels. -/
def isHostChar (c : Char) : Bool := c.isAlphanum || c ∈ ['-', '_', '.']

theorem toNat_lt_of_isHostChar {c : Char} (h : isHostChar c = true) : c.toNat < 128 := by
  have hcases : (c.isAlphanum = true) ∨ c = '-' ∨ c = '_' ∨ c = '.' := by
    simpa [isHostChar] using h
  rcases hcases with h | rfl | rfl | rfl
  · exact toNat_lt_of_isAlphanum h
  · decide
  · decide
  · decide

/-- What may stand in a host stands for itself in a path. -/
theorem encodePathSegment_host {value : Text} (h : ∀ c ∈ value, isHostChar c = true) :
    encodePathSegment value = value := by
  induction value with
  | nil => rfl
  | cons c value ih =>
      have hc := h c (List.mem_cons_self ..)
      have hlt := toNat_lt_of_isHostChar hc
      have hbytes : Utf8.bytes (c :: value) = UInt8.ofNat c.toNat :: Utf8.bytes value := by
        rw [Utf8.bytes_eq, Utf8.bytes_eq, List.flatMap_cons, encodeChar_ascii hlt]
        rfl
      have hself : escapeByte (UInt8.ofNat c.toNat) = [c] := by
        have hnat : (UInt8.ofNat c.toNat).toNat = c.toNat := by
          rw [UInt8.toNat_ofNat']
          omega
        have hplain : (c.isAlphanum || c ∈ ['-', '.', '_', '~']) = true := by
          simp only [isHostChar, Bool.or_eq_true, decide_eq_true_eq, List.mem_cons,
            List.not_mem_nil, or_false] at hc ⊢
          tauto
        rw [escapeByte, hnat, Char.ofNat_toNat, if_pos hplain]
      rw [encodePathSegment_eq, hbytes, List.flatMap_cons, hself, ← encodePathSegment_eq,
        ih fun c hc => h c (List.mem_cons_of_mem _ hc)]
      rfl

/-! ## What a URL parser makes of them -/

/-- A segment of so many dots, escaped or not. -/
def isDots (n : Nat) (segment : Text) : Bool :=
  readBytes segment = Utf8.bytes (List.replicate n '.')

/-- The path state of the URL standard: a dot is dropped, two dots take the
segment before them along, and either at the end leaves an empty segment. -/
def resolveDots (resolved : List Text) : List Text → List Text
  | [] => resolved
  | [last] =>
      if isDots 2 last then resolved.dropLast ++ [[]]
      else if isDots 1 last then resolved ++ [[]]
      else resolved ++ [last]
  | segment :: rest =>
      resolveDots (if isDots 2 segment then resolved.dropLast
        else if isDots 1 segment then resolved else resolved ++ [segment]) rest

theorem isDots_encodePathSegment (n : Nat) (value : Text) :
    isDots n (encodePathSegment value) = true ↔ value = List.replicate n '.' := by
  rw [isDots, decide_eq_true_iff, readBytes, (read_encodePathSegment value).2]
  exact Utf8.bytes_injective.eq_iff

/-- Without dots a path is resolved. -/
theorem resolveDots_plain {segments : List Text}
    (h : ∀ segment ∈ segments, isDots 1 segment = false ∧ isDots 2 segment = false)
    (resolved : List Text) : resolveDots resolved segments = resolved ++ segments := by
  induction segments generalizing resolved with
  | nil => exact (List.append_nil _).symm
  | cons segment rest ih =>
      obtain ⟨hone, htwo⟩ := h segment (List.mem_cons_self ..)
      have hrest := ih fun s hs => h s (List.mem_cons_of_mem _ hs)
      cases rest with
      | nil => simp [resolveDots, hone, htwo]
      | cons second rest =>
          rw [resolveDots, hone, htwo]
          · simpa using hrest (resolved ++ [segment])
          · simp

/-- What is resolved are segments of the path, none of them dots. -/
theorem mem_resolveDots {segments : List Text} {resolved : List Text} {segment : Text}
    (hmem : segment ∈ resolveDots resolved segments) :
    segment ∈ resolved ∨ segment = [] ∨
      segment ∈ segments ∧ isDots 1 segment = false ∧ isDots 2 segment = false := by
  induction segments generalizing resolved with
  | nil => exact .inl hmem
  | cons first rest ih =>
      have hstep : ∀ {kept : List Text}, segment ∈ kept →
          kept = (if isDots 2 first then resolved.dropLast
            else if isDots 1 first then resolved else resolved ++ [first]) →
          segment ∈ resolved ∨ segment = first ∧ isDots 1 first = false ∧
            isDots 2 first = false := by
        rintro kept hkept rfl
        split at hkept
        next => exact .inl (List.mem_of_mem_dropLast hkept)
        next htwo =>
          split at hkept
          next => exact .inl hkept
          next hone =>
            rcases List.mem_append.mp hkept with hkept | hkept
            · exact .inl hkept
            · exact .inr ⟨List.mem_singleton.mp hkept, Bool.not_eq_true _ ▸ hone,
                Bool.not_eq_true _ ▸ htwo⟩
      cases rest with
      | nil =>
          rw [resolveDots] at hmem
          split at hmem
          next =>
            rcases List.mem_append.mp hmem with hmem | hmem
            · exact .inl (List.mem_of_mem_dropLast hmem)
            · exact .inr (.inl (List.mem_singleton.mp hmem))
          next htwo =>
            split at hmem
            next =>
              rcases List.mem_append.mp hmem with hmem | hmem
              · exact .inl hmem
              · exact .inr (.inl (List.mem_singleton.mp hmem))
            next hone =>
              rcases List.mem_append.mp hmem with hmem | hmem
              · exact .inl hmem
              · obtain rfl := List.mem_singleton.mp hmem
                exact .inr (.inr ⟨List.mem_singleton_self _, Bool.not_eq_true _ ▸ hone,
                  Bool.not_eq_true _ ▸ htwo⟩)
      | cons second rest =>
          rw [resolveDots] at hmem
          · rcases ih hmem with hkept | hempty | ⟨hmem, hplain⟩
            · rcases hstep hkept rfl with hresolved | ⟨rfl, hplain⟩
              · exact .inl hresolved
              · exact .inr (.inr ⟨List.mem_cons_self .., hplain⟩)
            · exact .inr (.inl hempty)
            · exact .inr (.inr ⟨List.mem_cons_of_mem _ hmem, hplain⟩)
          · simp

theorem resolveDots_ne_nil {segments : List Text} (h : segments ≠ []) (resolved : List Text) :
    resolveDots resolved segments ≠ [] := by
  induction segments generalizing resolved with
  | nil => exact absurd rfl h
  | cons first rest ih =>
      cases rest with
      | nil =>
          rw [resolveDots]
          split
          · simp
          · split <;> simp
      | cons second rest =>
          rw [resolveDots]
          · exact ih (by simp) _
          · simp

/-! ## The path that is read back -/

/-- A segment that a URL's path keeps, and that reads as no separator. -/
structure KeptSegment (segment : Text) : Prop where
  dot : segment ≠ ['.']
  dots : segment ≠ ['.', '.']
  plain : ¬ ('/' ∈ segment ∨ '\\' ∈ segment ∨ Char.ofNat 0 ∈ segment)

/-- Every segment of the key is kept. -/
def KeptKey (key : Text) : Prop := ∀ segment ∈ key.splitOn '/', KeptSegment segment

theorem decodeSegment_encodePathSegment (refusal value : Text) :
    decodeSegment refusal (encodePathSegment value) =
      if '/' ∈ value ∨ '\\' ∈ value ∨ Char.ofNat 0 ∈ value then .error (.badRequest refusal)
      else .ok value := by
  rw [decodeSegment, percentDecode_encodePathSegment]
  rfl

section

variable {url : Url} {segments : List Text}

theorem pathSegments_of_path (hne : segments ≠ [])
    (hpath : url.path = '/' :: Text.join ['/'] (resolveDots [] (segments.map encodePathSegment))) :
    pathSegments url =
      if Text.join ['/'] (resolveDots [] (segments.map encodePathSegment)) = [] then .ok []
      else (resolveDots [] (segments.map encodePathSegment)).mapM
        (decodeSegment "URI to sign has a path segment that decodes into a separator.".toList) := by
  have hslash : ∀ segment ∈ resolveDots [] (segments.map encodePathSegment), '/' ∉ segment := by
    intro segment hsegment hmem
    rcases mem_resolveDots hsegment with hnil | rfl | ⟨hsegment, -⟩
    · cases hnil
    · cases hmem
    · obtain ⟨value, -, rfl⟩ := List.mem_map.mp hsegment
      exact absurd (encodePathSegment_chars hmem) (by decide)
  have hresolved := resolveDots_ne_nil (by simpa using hne : segments.map encodePathSegment ≠ []) []
  rw [pathSegments, hpath, withoutSlash_cons, if_pos rfl]
  congr 1
  rw [Text.join, List.splitOn_intercalate '/' hslash hresolved]

/-- Segments that are all kept are read back. -/
theorem pathSegments_kept (hne : segments ≠ []) (hempty : segments ≠ [[]])
    (hpath : url.path = '/' :: Text.join ['/'] (resolveDots [] (segments.map encodePathSegment)))
    (hkept : ∀ segment ∈ segments, KeptSegment segment) : pathSegments url = .ok segments := by
  have hplain :
    resolveDots [] (segments.map encodePathSegment) = segments.map encodePathSegment := by
    refine resolveDots_plain (fun segment hsegment => ?_) []
    obtain ⟨value, hvalue, rfl⟩ := List.mem_map.mp hsegment
    constructor
    · rw [← Bool.not_eq_true, isDots_encodePathSegment]
      exact (hkept value hvalue).dot
    · rw [← Bool.not_eq_true, isDots_encodePathSegment]
      exact (hkept value hvalue).dots
  have hmapM : (segments.map encodePathSegment).mapM (decodeSegment
      "URI to sign has a path segment that decodes into a separator.".toList) = .ok segments := by
    generalize "URI to sign has a path segment that decodes into a separator.".toList = refusal
    clear hplain hpath hempty hne
    induction segments with
    | nil => rfl
    | cons first rest ih =>
        rw [List.map_cons, List.mapM_cons, decodeSegment_encodePathSegment,
          if_neg (hkept first (List.mem_cons_self ..)).plain,
          ih fun s hs => hkept s (List.mem_cons_of_mem _ hs)]
        rfl
  rw [pathSegments_of_path hne hpath, hplain, if_neg ?_, hmapM]
  intro hjoin
  have hsplit := @List.splitOn_intercalate Char (segments.map encodePathSegment) _ _ '/' ?_
    (by simpa using hne)
  · rw [← Text.join, hjoin] at hsplit
    obtain ⟨first, hfirst⟩ : ∃ first, segments = [first] := by
      have hlen := congrArg List.length hsplit
      rw [List.length_map] at hlen
      exact List.length_eq_one_iff.mp hlen.symm
    subst hfirst
    have hnil : encodePathSegment first = [] := (List.cons.inj hsplit).1.symm
    have hread := percentDecode_encodePathSegment first
    rw [hnil] at hread
    exact hempty (by rw [Except.ok.inj hread.symm])
  · intro segment hsegment hmem
    obtain ⟨value, -, rfl⟩ := List.mem_map.mp hsegment
    exact absurd (encodePathSegment_chars hmem) (by decide)

/-- Whatever is read back is kept. -/
theorem kept_of_pathSegments (hne : segments ≠ []) {decoded : List Text}
    (hpath : url.path = '/' :: Text.join ['/'] (resolveDots [] (segments.map encodePathSegment)))
    (h : pathSegments url = .ok decoded) : ∀ segment ∈ decoded, KeptSegment segment := by
  rw [pathSegments_of_path hne hpath] at h
  split at h
  · cases h
    intro segment hsegment
    cases hsegment
  · intro segment hsegment
    obtain ⟨raw, hraw, hdecode⟩ := Except.of_mem_mapM h segment hsegment
    rcases mem_resolveDots hraw with hnil | rfl | ⟨hraw, hone, htwo⟩
    · cases hnil
    · cases hdecode
      exact ⟨by simp, by simp, by simp⟩
    · obtain ⟨value, -, rfl⟩ := List.mem_map.mp hraw
      rw [decodeSegment_encodePathSegment] at hdecode
      split at hdecode
      · cases hdecode
      next hplain =>
        cases hdecode
        rw [← Bool.not_eq_true, isDots_encodePathSegment] at hone htwo
        exact ⟨hone, htwo, hplain⟩

end

/-! ## Hosts -/

/-- Labels that a host may be made of. -/
structure HostLabels (name : Text) : Prop where
  chars : ∀ c ∈ name, isHostChar c = true
  labels : ∀ label ∈ name.splitOn '.', label ≠ [] ∧ ¬ "xn--".toList <+: Text.toAsciiLowercase label

/-- The last label is a number, decimal or hexadecimal: the host is an address or none. -/
def endsInNumber (host : Text) : Bool :=
  (host.splitOn '.').getLast?.any fun label =>
    label.all Char.isDigit || "0x".toList.isPrefixOf (Text.toAsciiLowercase label)

structure DomainName (name : Text) : Prop extends HostLabels name where
  last : endsInNumber name = false

/-- Nothing, or a colon and a port. -/
def IsPort (port : Text) : Prop := port = [] ∨ ∃ n < 65536, port = ':' :: Text.decimal n

/-- Four decimal octets. -/
structure Ipv4Text (address : Text) : Prop where
  octets : (address.splitOn '.').length = 4
  decimal : ∀ octet ∈ address.splitOn '.', ∃ n < 256, octet = Text.decimal n

/-- An IPv6 address in its brackets, without a dotted part. -/
structure Ipv6Text (address : Text) : Prop where
  groups : ∃ inner, address = '[' :: inner ++ [']'] ∧ (Net.Ipv6Addr.fromStr inner).isSome ∧
    ∀ c ∈ inner, (c.isAlphanum || c = ':') = true

/-- What `endpoint_host` may be set to: a host, with a port or without. -/
inductive EndpointHost : Text → Prop
  | name {name port : Text} : DomainName name → IsPort port → EndpointHost (name ++ port)
  | ipv4 {address port : Text} : Ipv4Text address → IsPort port → EndpointHost (address ++ port)
  | ipv6 {address port : Text} : Ipv6Text address → IsPort port → EndpointHost (address ++ port)

def httpsUrl (authority path : Text) : Text := "https://".toList ++ authority ++ '/' :: path

/-- The path of a URL, resolved. -/
def resolvedPath (path : Text) : Text := '/' :: Text.join ['/'] (resolveDots [] (path.splitOn '/'))

/-- The characters of the paths built here. -/
def isPathChar (c : Char) : Bool := c.isAlphanum || c ∈ ['-', '.', '_', '~', '%', '/']

/-- The URL standard on the URLs built here: a domain is lowered, an IPv4
address stays, an IPv6 address is compressed, a port is no part of the host,
and a label before an address makes no host. -/
structure HttpsUrls (parse : Text → Except Text Url) : Prop where
  name : ∀ {name port path}, DomainName name → IsPort port → path.all isPathChar = true →
    ∃ url, parse (httpsUrl (name ++ port) path) = .ok url ∧
      url.hostStr = some (Text.toAsciiLowercase name) ∧ url.path = resolvedPath path
  ipv4 : ∀ {address port path}, Ipv4Text address → IsPort port → path.all isPathChar = true →
    ∃ url, parse (httpsUrl (address ++ port) path) = .ok url ∧
      url.hostStr = some address ∧ url.path = resolvedPath path
  ipv6 : ∀ {address port path}, Ipv6Text address → IsPort port → path.all isPathChar = true →
    ∃ url host, parse (httpsUrl (address ++ port) path) = .ok url ∧
      url.hostStr = some host ∧ '.' ∉ host ∧ url.path = resolvedPath path
  labelled : ∀ {labels address port path}, HostLabels labels → Ipv4Text address ∨ Ipv6Text address →
    IsPort port → ∃ e, parse (httpsUrl (labels ++ '.' :: address ++ port) path) = .error e

/-! ## Round trips -/

/-- The URL built for the location is read back as its bucket and key. -/
def RoundTrips (parse : Text → Except Text Url) (bucket key region : Text)
    (config : SigningEndpointConfig) : Prop :=
  ∃ text url, objectUrl (s3Location bucket key) region config = some text ∧ parse text = .ok url ∧
    splitBucketAndKey url config = .ok (bucket, key)

/-- The host of an endpoint, lowered and without its port. -/
def urlHost (endpoint : Text) : Text := Text.toAsciiLowercase (endpoint.takeWhile (· ≠ ':'))

/-- The style reads the bucket where the URL has it: in the path under a custom
endpoint whose own host names no bucket, and before AWS's endpoint where no
label of the bucket is in upper case or looks like the service. -/
def ReadsBack (bucket : Text) (config : SigningEndpointConfig) : Prop :=
  match config.endpointHost, config.urlStyle.getD .auto with
  | some _, .path => True
  | some endpoint, .auto => BucketFree (urlHost endpoint) (some endpoint)
  | none, .auto => Text.toAsciiLowercase bucket = bucket ∧
      ∀ label ∈ bucket.splitOn '.', isService label = false
  | _, .virtualHost => False
  | none, .path => False

section

variable {bucket key region : Text} {config : SigningEndpointConfig}

theorem HostLabels.ne_nil {name : Text} (h : HostLabels name) : name ≠ [] := by
  rintro rfl
  exact (h.labels [] (by simp)).1 rfl

theorem HostLabels.notMem {name : Text} (h : HostLabels name) {c : Char}
    (hc : isHostChar c = false) :
    c ∉ name := fun hmem => by
  rw [h.chars c hmem] at hc
  cases hc

theorem HostLabels.kept {name : Text} (h : HostLabels name) : KeptSegment name := by
  have hdots : ∀ n, 0 < n → name ≠ List.replicate n '.' := by
    rintro n hn rfl
    refine (h.labels [] ?_).1 rfl
    obtain ⟨m, rfl⟩ := Nat.exists_eq_succ_of_ne_zero hn.ne'
    rw [List.replicate_succ, List.splitOn_cons_eq_if_modifyHead]
    simp
  refine ⟨hdots 1 (by decide), hdots 2 (by decide), ?_⟩
  rintro (hmem | hmem | hmem)
  · exact h.notMem (by decide) hmem
  · exact h.notMem (by decide) hmem
  · exact h.notMem (by decide) hmem

/-- The segments of the path the key is encoded as. -/
def encodedKey (key : Text) : Text := Text.join ['/'] ((key.splitOn '/').map encodePathSegment)

theorem objectUrl_eq (hbucket : HostLabels bucket) (hkey : key ≠ []) :
    objectUrl (s3Location bucket key) region config =
      some (match config.endpointHost, config.urlStyle with
        | some host, some .virtualHost => httpsUrl (bucket ++ '.' :: host) (encodedKey key)
        | some host, _ => httpsUrl host (bucket ++ '/' :: encodedKey key)
        | none, _ =>
            httpsUrl (bucket ++ '.' :: ("s3".toList ++ '.' :: region) ++ ".amazonaws.com".toList)
              (encodedKey key)) := by
  have hstrip :
    Text.stripPrefix (s3Location bucket key) "s3://".toList = some (bucket ++ '/' :: key) :=
    Text.stripPrefix_eq_some.mpr (by simp [s3Location])
  have hsplit : Text.splitOnce '/' (bucket ++ '/' :: key) = some (bucket, key) :=
    Text.splitOnce_eq_some.mpr ⟨rfl, hbucket.notMem (by decide)⟩
  have hne : ¬ (bucket = [] ∨ key = []) := not_or.mpr ⟨hbucket.ne_nil, hkey⟩
  unfold objectUrl
  rw [hstrip]
  simp only [Option.bind_eq_bind, Option.bind_some, hsplit]
  rw [if_neg hne]
  unfold httpsUrl encodedKey
  split <;> simp [List.append_assoc]

theorem toLower_eq_dot {c : Char} : c.toLower = '.' ↔ c = '.' := by
  by_cases hupper : c.isUpper = true
  · refine iff_of_false (fun h => ?_) (by rintro rfl; cases hupper)
    have hlower := Char.isLower_toLower_eq_isAlpha c
    rw [h, Char.isAlpha, hupper] at hlower
    cases hlower
  · rw [Char.toLower_eq_of_not_isUpper hupper]

theorem toAsciiLowercase_idem (text : Text) :
    Text.toAsciiLowercase (Text.toAsciiLowercase text) = Text.toAsciiLowercase text := by
  simp [Text.toAsciiLowercase]

theorem length_splitOn_lower (text : Text) :
    ((Text.toAsciiLowercase text).splitOn '.').length = (text.splitOn '.').length := by
  induction text with
  | nil => rfl
  | cons c text ih =>
      obtain ⟨piece, pieces, hpieces⟩ := List.exists_cons_of_ne_nil (List.splitOn_ne_nil '.' text)
      obtain ⟨lowered, rest, hlowered⟩ :=
        List.exists_cons_of_ne_nil (List.splitOn_ne_nil '.' (Text.toAsciiLowercase text))
      rw [hpieces, hlowered] at ih
      have hcons : Text.toAsciiLowercase (c :: text) = c.toLower :: Text.toAsciiLowercase text :=
        rfl
      rw [hcons, List.splitOn_cons_eq_if_modifyHead, List.splitOn_cons_eq_if_modifyHead, hpieces,
        hlowered]
      by_cases hdot : c = '.'
      · subst hdot
        simpa using ih
      · have hnot : ¬ c.toLower = '.' := fun h => hdot (toLower_eq_dot.mp h)
        simpa [hdot, hnot] using ih

theorem encodedKey_path (key : Text) : (encodedKey key).splitOn '/' =
    (key.splitOn '/').map encodePathSegment := by
  refine List.splitOn_intercalate '/' (fun segment hsegment hmem => ?_) (by simp)
  obtain ⟨value, -, rfl⟩ := List.mem_map.mp hsegment
  exact absurd (encodePathSegment_chars hmem) (by decide)

theorem bucketPath (hbucket : HostLabels bucket) (key : Text) :
    (bucket ++ '/' :: encodedKey key).splitOn '/' =
      (bucket :: key.splitOn '/').map encodePathSegment := by
  rw [List.splitOn_append_cons_self, List.splitOn_eq_singleton (hbucket.notMem (by decide)),
    encodedKey_path, List.map_cons, encodePathSegment_host hbucket.chars]
  rfl

theorem isPathChar_encodedKey (key : Text) : (encodedKey key).all isPathChar = true := by
  rw [List.all_eq_true]
  intro c hc
  by_cases hslash : c = '/'
  · subst hslash
    decide
  · obtain ⟨piece, hpiece, hmem⟩ := (Text.mem_splitOn hslash).mpr hc
    rw [encodedKey_path] at hpiece
    obtain ⟨value, -, rfl⟩ := List.mem_map.mp hpiece
    have hchar := encodePathSegment_chars hmem
    simp only [isPathChar, Bool.or_eq_true, decide_eq_true_eq, List.mem_cons, List.not_mem_nil,
      or_false] at hchar ⊢
    tauto

theorem isPathChar_bucket (hbucket : HostLabels bucket) (key : Text) :
    (bucket ++ '/' :: encodedKey key).all isPathChar = true := by
  rw [List.all_append, List.all_cons, isPathChar_encodedKey, Bool.and_eq_true]
  refine ⟨List.all_eq_true.mpr fun c hc => ?_, rfl⟩
  have hchar := hbucket.chars c hc
  simp only [isHostChar, isPathChar, Bool.or_eq_true, decide_eq_true_eq, List.mem_cons,
    List.not_mem_nil, or_false] at hchar ⊢
  tauto

/-! ## What is read of a URL -/

variable {url : Url} {host : Text}

theorem splitBucketAndKey_of_host (hhost : url.hostStr = some host) :
    splitBucketAndKey url config = .ok (bucket, key) ↔ ∃ segments, pathSegments url = .ok segments ∧
      bucketAndKey (virtualBucket config (Text.toAsciiLowercase host)) segments =
        .ok (bucket, key) := by
  rw [splitBucketAndKey, hhost]
  exact Except.bind_eq_ok

/-- Segments that join to the key are the key's. -/
theorem eq_splitOn_of_join {segments : List Text} (hkey : key ≠ [])
    (hkept : ∀ segment ∈ segments, KeptSegment segment) (hjoin : Text.join ['/'] segments = key) :
    segments = key.splitOn '/' := by
  have hne : segments ≠ [] := by
    rintro rfl
    exact hkey hjoin.symm
  rw [← hjoin, Text.join, List.splitOn_intercalate '/' (fun segment hsegment hmem =>
    (hkept segment hsegment).plain (.inl hmem)) hne]

theorem splitOn_ne_empty (hkey : key ≠ []) : key.splitOn '/' ≠ [[]] := fun h => by
  have hjoin : ['/'].intercalate (key.splitOn '/') = key := List.intercalate_splitOn '/'
  rw [h] at hjoin
  exact hkey (by simpa using hjoin.symm)

variable (hkey : key ≠ []) (hhost : url.hostStr = some host)

include hkey hhost

/-- Under a bucket read from the host the path is the key. -/
theorem split_of_virtual (hpath : url.path = resolvedPath (encodedKey key)) {read : Text}
    (hvirtual : virtualBucket config (Text.toAsciiLowercase host) = some read) :
    splitBucketAndKey url config = .ok (bucket, key) ↔ read = bucket ∧ KeptKey key := by
  rw [resolvedPath, encodedKey_path] at hpath
  rw [splitBucketAndKey_of_host hhost, hvirtual]
  constructor
  · rintro ⟨segments, hsegments, hread⟩
    cases hread
    have hkept := kept_of_pathSegments (List.splitOn_ne_nil _ _) hpath hsegments
    refine ⟨rfl, ?_⟩
    rw [KeptKey, ← eq_splitOn_of_join hkey hkept rfl]
    exact hkept
  · rintro ⟨rfl, hkept⟩
    refine ⟨_, pathSegments_kept (List.splitOn_ne_nil _ _) (splitOn_ne_empty hkey) hpath hkept, ?_⟩
    rw [bucketAndKey, Text.join, List.intercalate_splitOn '/']

/-- A bucket that is read from a path without one is not the bucket. -/
theorem not_split_of_path (hpath : url.path = resolvedPath (encodedKey key))
    (hvirtual : virtualBucket config (Text.toAsciiLowercase host) = none) :
    splitBucketAndKey url config ≠ .ok (bucket, key) := by
  rw [resolvedPath, encodedKey_path] at hpath
  rw [Ne, splitBucketAndKey_of_host hhost, hvirtual]
  rintro ⟨segments, hsegments, hread⟩
  have hkept := kept_of_pathSegments (List.splitOn_ne_nil _ _) hpath hsegments
  match segments, hread with
  | [], hread => cases hread
  | first :: rest, hread =>
      rw [bucketAndKey] at hread
      split at hread
      · cases hread
      · have hjoin := (Prod.mk.inj (Except.ok.inj hread)).2
        have hrest := eq_splitOn_of_join hkey
          (fun segment hsegment => hkept segment (List.mem_cons_of_mem _ hsegment)) hjoin
        have hwhole := pathSegments_kept (List.splitOn_ne_nil _ _) (splitOn_ne_empty hkey) hpath
          fun segment hsegment => hkept segment (List.mem_cons_of_mem _ (hrest ▸ hsegment))
        rw [hwhole, ← hrest] at hsegments
        exact List.cons_ne_self _ _ (Except.ok.inj hsegments).symm

variable (hbucket : HostLabels bucket)
  (hpath : url.path = resolvedPath (bucket ++ '/' :: encodedKey key))

include hbucket hpath

/-- Under a bucket read from the path the rest of it is the key. -/
theorem split_of_path (hvirtual : virtualBucket config (Text.toAsciiLowercase host) = none) :
    splitBucketAndKey url config = .ok (bucket, key) ↔ KeptKey key := by
  rw [resolvedPath, bucketPath hbucket] at hpath
  rw [splitBucketAndKey_of_host hhost, hvirtual]
  constructor
  · rintro ⟨segments, hsegments, hread⟩
    have hkept := kept_of_pathSegments (List.cons_ne_nil _ _) hpath hsegments
    match segments, hread with
    | [], hread => cases hread
    | first :: rest, hread =>
        rw [bucketAndKey] at hread
        split at hread
        · cases hread
        · have hjoin := (Prod.mk.inj (Except.ok.inj hread)).2
          have hrest := eq_splitOn_of_join hkey
            (fun segment hsegment => hkept segment (List.mem_cons_of_mem _ hsegment)) hjoin
          intro segment hsegment
          exact hkept segment (List.mem_cons_of_mem _ (hrest ▸ hsegment))
  · intro hkept
    refine ⟨_, pathSegments_kept (List.cons_ne_nil _ _) (fun h => ?_) hpath ?_, ?_⟩
    · exact List.splitOn_ne_nil _ _ (List.cons.inj h).2
    · intro segment hsegment
      rcases List.mem_cons.mp hsegment with rfl | hsegment
      · exact hbucket.kept
      · exact hkept segment hsegment
    · rw [bucketAndKey, if_neg hbucket.ne_nil, Text.join, List.intercalate_splitOn '/']

/-- A key that is read from a path with the bucket in it is not the key. -/
theorem not_split_of_virtual {read : Text}
    (hvirtual : virtualBucket config (Text.toAsciiLowercase host) = some read) :
    splitBucketAndKey url config ≠ .ok (bucket, key) := by
  rw [resolvedPath, bucketPath hbucket] at hpath
  rw [Ne, splitBucketAndKey_of_host hhost, hvirtual]
  rintro ⟨segments, hsegments, hread⟩
  have hkept := kept_of_pathSegments (List.cons_ne_nil _ _) hpath hsegments
  have hjoin := (Prod.mk.inj (Except.ok.inj hread)).2
  have hsegments' := eq_splitOn_of_join hkey hkept hjoin
  have hwhole := pathSegments_kept (List.cons_ne_nil _ _)
    (fun h => List.splitOn_ne_nil _ _ (List.cons.inj h).2) hpath fun segment hsegment => by
      rcases List.mem_cons.mp hsegment with rfl | hsegment
      · exact hbucket.kept
      · exact hkept segment (hsegments' ▸ hsegment)
  rw [hwhole, hsegments'] at hsegments
  exact List.cons_ne_self _ _ (Except.ok.inj hsegments)

end

/-! ## The configurations -/

section

variable {bucket key region : Text} {config : SigningEndpointConfig}

/-- Labels before a domain name make a domain name. -/
theorem HostLabels.dotted {labels name : Text} (hlabels : HostLabels labels)
    (hname : DomainName name) :
    DomainName (labels ++ '.' :: name) := by
  have hsplit : (labels ++ '.' :: name).splitOn '.' = labels.splitOn '.' ++ name.splitOn '.' :=
    List.splitOn_append_cons_self ..
  refine ⟨⟨fun c hc => ?_, fun label hlabel => ?_⟩, ?_⟩
  · rcases List.mem_append.mp hc with hc | hc
    · exact hlabels.chars c hc
    · rcases List.mem_cons.mp hc with rfl | hc
      · decide
      · exact hname.chars c hc
  · rw [hsplit] at hlabel
    rcases List.mem_append.mp hlabel with hlabel | hlabel
    · exact hlabels.labels label hlabel
    · exact hname.labels label hlabel
  · rw [endsInNumber, hsplit, List.getLast?_append_of_ne_nil _ (List.splitOn_ne_nil _ _)]
    exact hname.last

/-- A label on its own. -/
theorem HostLabels.single {label : Text} (hchars : label.all isHostChar = true)
    (hdot : '.' ∉ label) (hne : label ≠ [])
    (hplain : ¬ "xn--".toList <+: Text.toAsciiLowercase label) : HostLabels label := by
  refine ⟨List.all_eq_true.mp hchars, fun found hfound => ?_⟩
  rw [List.splitOn_eq_singleton hdot] at hfound
  obtain rfl := List.mem_singleton.mp hfound
  exact ⟨hne, hplain⟩

theorem com_name : DomainName "com".toList := by
  refine ⟨.single (by decide) (by decide) (by decide) (by decide), ?_⟩
  rw [endsInNumber, List.splitOn_eq_singleton (by decide)]
  decide

theorem amazon_name : DomainName ("amazonaws".toList ++ '.' :: "com".toList) :=
  HostLabels.dotted (.single (by decide) (by decide) (by decide) (by decide)) com_name

theorem IsPort.notMem {port : Text} (h : IsPort port) {c : Char} (hcolon : c ≠ ':')
    (hdigit : c.isDigit = false) : c ∉ port := by
  rcases h with rfl | ⟨n, -, rfl⟩
  · exact List.not_mem_nil
  · intro hmem
    rcases List.mem_cons.mp hmem with rfl | hmem
    · exact hcolon rfl
    · rw [Text.isDigit_of_mem_decimal hmem] at hdigit
      cases hdigit

theorem takeWhile_port {host port : Text} (hport : IsPort port) (h : ':' ∉ host) :
    (host ++ port).takeWhile (fun c => decide (c ≠ ':')) = host := by
  have hhost : ∀ c ∈ host, decide (c ≠ ':') = true := fun c hc =>
    decide_eq_true fun heq => h (heq ▸ hc)
  rw [List.takeWhile_append_of_pos hhost]
  rcases hport with rfl | ⟨n, -, rfl⟩ <;> exact List.append_nil _

theorem urlHost_append {name port : Text} (hport : IsPort port) (h : ':' ∉ name) :
    urlHost (name ++ port) = Text.toAsciiLowercase name := by
  rw [urlHost, takeWhile_port hport h]

theorem Ipv4Text.notMem {address : Text} (h : Ipv4Text address) {c : Char} (hdot : c ≠ '.')
    (hdigit : c.isDigit = false) : c ∉ address := fun hmem => by
  obtain ⟨octet, hoctet, hc⟩ := (Text.mem_splitOn hdot).mpr hmem
  obtain ⟨n, -, rfl⟩ := h.decimal octet hoctet
  rw [Text.isDigit_of_mem_decimal hc] at hdigit
  cases hdigit

theorem dot_mem_lower {text : Text} : '.' ∈ Text.toAsciiLowercase text ↔ '.' ∈ text := by
  simp [Text.toAsciiLowercase, toLower_eq_dot]

theorem Ipv6Text.urlHost_noDot {address port : Text} (h : Ipv6Text address) (hport : IsPort port) :
    '.' ∉ urlHost (address ++ port) := by
  obtain ⟨inner, rfl, -, hinner⟩ := h.groups
  rw [urlHost, dot_mem_lower]
  intro hmem
  rcases List.mem_append.mp ((List.takeWhile_sublist _).subset hmem) with hmem | hmem
  · rcases List.mem_append.mp hmem with hmem | hmem
    · rcases List.mem_cons.mp hmem with heq | hmem
      · cases heq
      · exact absurd (hinner _ hmem) (by decide)
    · exact absurd hmem (by decide)
  · exact hport.notMem (by decide) (by decide) hmem

/-- A host of one label names no bucket. -/
theorem bucketFree_of_notMem {host : Text} (h : '.' ∉ host) (endpointHost : Option Text) :
    BucketFree host endpointHost := by
  constructor
  · rintro rest rfl
    exact absurd (List.mem_append_right _ (by decide)) h
  · rintro - endpoint - hsuffix
    exact h (hsuffix.subset (List.mem_cons_self ..))

/-- AWS's host for a bucket. -/
def awsHost (bucket region : Text) : Text :=
  bucket ++ '.' :: ("s3".toList ++ '.' :: region) ++ ".amazonaws.com".toList

theorem awsHost_name (hbucket : HostLabels bucket) (hregion : HostLabels region) :
    DomainName (awsHost bucket region) := by
  have hs3 : HostLabels "s3".toList := .single (by decide) (by decide) (by decide) (by decide)
  have heq : awsHost bucket region = bucket ++ '.' :: ("s3".toList ++ '.' ::
      (region ++ '.' :: ("amazonaws".toList ++ '.' :: "com".toList))) := by
    simp [awsHost]
  rw [heq]
  exact hbucket.dotted (hs3.dotted (hregion.dotted amazon_name))

theorem lower_awsHost (bucket region : Text) : Text.toAsciiLowercase (awsHost bucket region) =
    Text.toAsciiLowercase bucket ++
      '.' :: ("s3".toList ++ '.' :: Text.toAsciiLowercase region) ++ ".amazonaws.com".toList := by
  simp only [awsHost, Text.toAsciiLowercase, List.map_append, List.map_cons]
  rfl

/-- The host is no bucket: it is longer. -/
theorem lower_ne_bucket (bucket tail : Text) :
    Text.toAsciiLowercase (bucket ++ '.' :: tail) ≠ bucket := fun h => by
  have hlen := congrArg List.length h
  rw [Text.toAsciiLowercase, List.length_map, List.length_append, List.length_cons] at hlen
  omega

/-- What is read of AWS's host is the bucket where it is lower case and no label of it
looks like the service. -/
theorem virtualHostBucket_aws (endpointHost : Option Text) :
    virtualHostBucket (Text.toAsciiLowercase (awsHost bucket region)) endpointHost = some bucket ↔
      Text.toAsciiLowercase bucket = bucket ∧
        ∀ label ∈ bucket.splitOn '.', isService label = false := by
  have htail : ("s3".toList ++ '.' :: Text.toAsciiLowercase region).splitOn '.' =
      "s3".toList :: (Text.toAsciiLowercase region).splitOn '.' := by
    rw [List.splitOn_append_cons_self]
    rfl
  obtain ⟨hread, hplain⟩ :=
    virtualHostBucket_marker (Text.toAsciiLowercase bucket) htail (by decide)
    endpointHost
  rw [← lower_awsHost] at hread hplain
  constructor
  · intro h
    have hlabels := hplain bucket h (length_splitOn_lower bucket).symm
    have hlower := Option.some.inj ((hread hlabels).symm.trans h)
    rw [hlower] at hlabels
    exact ⟨hlower, hlabels⟩
  · rintro ⟨hlower, hlabels⟩
    rw [hlower] at hread
    exact hread hlabels

variable {parse : Text → Except Text Url}

theorem roundTrips_of_url {text : Text} {url : Url}
    (htext : objectUrl (s3Location bucket key) region config = some text)
    (hurl : parse text = .ok url) :
    RoundTrips parse bucket key region config ↔
      splitBucketAndKey url config = .ok (bucket, key) := by
  constructor
  · rintro ⟨_, _, htext', hurl', hsplit⟩
    obtain rfl := Option.some.inj (htext.symm.trans htext')
    obtain rfl := Except.ok.inj (hurl.symm.trans hurl')
    exact hsplit
  · exact fun hsplit => ⟨text, url, htext, hurl, hsplit⟩

variable (hparse : HttpsUrls parse) (hbucket : HostLabels bucket) (hkey : key ≠ [])

include hparse hbucket hkey

/-- Without a custom endpoint. -/
theorem roundTrips_aws (hregion : HostLabels region) (hnone : config.endpointHost = none) :
    RoundTrips parse bucket key region config ↔ ReadsBack bucket config ∧ KeptKey key := by
  have htext : objectUrl (s3Location bucket key) region config = _ := objectUrl_eq hbucket hkey
  rw [hnone] at htext
  obtain ⟨url, hurl, hhost, hpath⟩ := hparse.name (awsHost_name hbucket hregion)
    (show IsPort [] from .inl rfl) (isPathChar_encodedKey key)
  rw [List.append_nil] at hurl
  rw [roundTrips_of_url htext hurl]
  have hlower := toAsciiLowercase_idem (awsHost bucket region)
  unfold ReadsBack
  rw [hnone]
  cases hstyle : config.urlStyle.getD .auto with
  | path =>
      have hvirtual : virtualBucket config (Text.toAsciiLowercase
          (Text.toAsciiLowercase (awsHost bucket region))) = none := by rw [virtualBucket, hstyle]
      exact iff_of_false (not_split_of_path hkey hhost hpath hvirtual) fun h => h.1
  | virtualHost =>
      have hvirtual : virtualBucket config (Text.toAsciiLowercase
          (Text.toAsciiLowercase (awsHost bucket region))) =
            some (Text.toAsciiLowercase (awsHost bucket region)) := by
        rw [virtualBucket, hstyle, hlower]
      rw [split_of_virtual hkey hhost hpath hvirtual]
      refine iff_of_false (fun h => ?_) fun h => h.1
      rw [awsHost, List.append_assoc] at h
      exact lower_ne_bucket _ _ h.1
  | auto =>
      have hread : virtualHostBucket (Text.toAsciiLowercase (awsHost bucket region)) none =
          some bucket ↔ _ := virtualHostBucket_aws none
      have hvirtual : virtualBucket config (Text.toAsciiLowercase
          (Text.toAsciiLowercase (awsHost bucket region))) =
            virtualHostBucket (Text.toAsciiLowercase (awsHost bucket region)) none := by
        rw [virtualBucket, hstyle, hlower, hnone]
      cases hbucketRead :
        virtualHostBucket (Text.toAsciiLowercase (awsHost bucket region)) none with
      | none =>
          rw [hbucketRead] at hread hvirtual
          exact iff_of_false (not_split_of_path hkey hhost hpath hvirtual) fun h => by
            cases hread.mpr h.1
      | some read =>
          rw [hbucketRead] at hread hvirtual
          rw [split_of_virtual hkey hhost hpath hvirtual, ← Option.some_inj, hread]

/-- Under a custom endpoint, the bucket in the path. -/
theorem roundTrips_path {endpoint : Text} (hendpoint : EndpointHost endpoint)
    (hsome : config.endpointHost = some endpoint)
    (hstyle : config.urlStyle.getD .auto ≠ .virtualHost) :
    RoundTrips parse bucket key region config ↔ ReadsBack bucket config ∧ KeptKey key := by
  have hnever : config.urlStyle ≠ some .virtualHost := by
    intro h
    rw [h] at hstyle
    exact hstyle rfl
  have htext : objectUrl (s3Location bucket key) region config =
      some (httpsUrl endpoint (bucket ++ '/' :: encodedKey key)) := by
    rw [objectUrl_eq hbucket hkey, hsome]
    congr 1
    split
    next heq => exact absurd heq hnever
    next heq _ => rw [Option.some.inj heq]
    next heq => cases heq
  have hfinish :
    ∀ {url host}, parse (httpsUrl endpoint (bucket ++ '/' :: encodedKey key)) = .ok url →
      url.hostStr = some host → url.path = resolvedPath (bucket ++ '/' :: encodedKey key) →
      (virtualHostBucket (Text.toAsciiLowercase host) (some endpoint) = none ↔
        BucketFree (urlHost endpoint) (some endpoint)) →
      (RoundTrips parse bucket key region config ↔ ReadsBack bucket config ∧ KeptKey key) := by
    intro url host hurl hhost hpath hfree
    rw [roundTrips_of_url htext hurl]
    unfold ReadsBack
    rw [hsome]
    cases hcase : config.urlStyle.getD .auto with
    | virtualHost => exact absurd hcase hstyle
    | path =>
        rw [split_of_path hkey hhost hbucket hpath (by rw [virtualBucket, hcase])]
        exact (and_iff_right trivial).symm
    | auto =>
        dsimp only
        rw [← hfree]
        cases hread : virtualHostBucket (Text.toAsciiLowercase host) (some endpoint) with
        | none =>
            rw [split_of_path hkey hhost hbucket hpath (by rw [virtualBucket, hcase, hsome, hread])]
            exact (and_iff_right rfl).symm
        | some read =>
            refine iff_of_false (not_split_of_virtual hkey hhost hbucket hpath
              (by rw [virtualBucket, hcase, hsome, hread])) fun h => ?_
            cases h.1
  cases hendpoint with
  | @name name port hname hport =>
      obtain ⟨url, hurl, hhost, hpath⟩ := hparse.name hname hport (isPathChar_bucket hbucket key)
      refine hfinish hurl hhost hpath ?_
      rw [toAsciiLowercase_idem, urlHost_append hport (hname.notMem (by decide)),
        virtualHostBucket_eq_none]
  | @ipv4 address port haddress hport =>
      obtain ⟨url, hurl, hhost, hpath⟩ := hparse.ipv4 haddress hport (isPathChar_bucket hbucket key)
      refine hfinish hurl hhost hpath ?_
      rw [urlHost_append hport (haddress.notMem (by decide) (by decide)), virtualHostBucket_eq_none]
  | @ipv6 address port haddress hport =>
      obtain ⟨url, host, hurl, hhost, hdot, hpath⟩ :=
        hparse.ipv6 haddress hport (isPathChar_bucket hbucket key)
      refine hfinish hurl hhost hpath ?_
      rw [virtualHostBucket_eq_none]
      exact iff_of_true (bucketFree_of_notMem (mt dot_mem_lower.mp hdot) _)
        (bucketFree_of_notMem (haddress.urlHost_noDot hport) _)

/-- Under a custom endpoint, the bucket in the host: the whole host is read as it. -/
theorem not_roundTrips_virtualHost {endpoint : Text} (hendpoint : EndpointHost endpoint)
    (hsome : config.endpointHost = some endpoint) (hstyle : config.urlStyle = some .virtualHost) :
    ¬ RoundTrips parse bucket key region config := by
  have htext : objectUrl (s3Location bucket key) region config =
      some (httpsUrl (bucket ++ '.' :: endpoint) (encodedKey key)) := by
    rw [objectUrl_eq hbucket hkey, hsome, hstyle]
  have haddress : ∀ {address port}, Ipv4Text address ∨ Ipv6Text address → IsPort port →
      endpoint = address ++ port → ¬ RoundTrips parse bucket key region config := by
    rintro address port htext' hport rfl ⟨_, url, htext'', hurl, -⟩
    obtain rfl := Option.some.inj (htext.symm.trans htext'')
    obtain ⟨e, he⟩ : ∃ e, parse (httpsUrl (bucket ++ '.' :: address ++ port) (encodedKey key)) =
        .error e := hparse.labelled hbucket htext' hport
    rw [List.append_assoc, List.cons_append, hurl] at he
    cases he
  cases hendpoint with
  | ipv4 haddr hport => exact haddress (.inl haddr) hport rfl
  | ipv6 haddr hport => exact haddress (.inr haddr) hport rfl
  | @name name port hname hport =>
      obtain ⟨url, hurl, hhost, hpath⟩ := hparse.name (hbucket.dotted hname) hport
        (isPathChar_encodedKey key)
      rw [List.append_assoc, List.cons_append] at hurl
      rw [roundTrips_of_url htext hurl, split_of_virtual hkey hhost hpath
        (by rw [virtualBucket, hstyle]; rfl), toAsciiLowercase_idem]
      exact fun h => lower_ne_bucket _ _ h.1

/-- Whatever the bucket, the key and the region, the URL of a location is read back
as the location exactly where the configured style reads buckets where
`object_url` puts them, and the path keeps every segment of the key. -/
theorem roundTrips_iff (hregion : HostLabels region)
    (hendpoint : ∀ endpoint ∈ config.endpointHost, EndpointHost endpoint) :
    RoundTrips parse bucket key region config ↔ ReadsBack bucket config ∧ KeptKey key := by
  cases hsome : config.endpointHost with
  | none => exact roundTrips_aws hparse hbucket hkey hregion hsome
  | some endpoint =>
      have hthis := hendpoint endpoint hsome
      by_cases hstyle : config.urlStyle = some .virtualHost
      · refine iff_of_false (not_roundTrips_virtualHost hparse hbucket hkey hthis hsome hstyle) ?_
        rw [ReadsBack, hsome, hstyle]
        exact fun h => h.1
      · refine roundTrips_path hparse hbucket hkey hthis hsome fun h => hstyle ?_
        cases hurl : config.urlStyle with
        | none =>
            rw [hurl] at h
            cases h
        | some style =>
            rw [hurl] at h
            exact congrArg some h

end

/-! ## A parser of these URLs -/

/-- The host of an authority; the groups of an IPv6 address are left out. -/
def plainHost (authority : Text) : Option Text :=
  let host := authority.takeWhile (· ≠ ':')
  if authority.head? = some '[' then some "[]".toList
  else if '[' ∈ authority then none
  else if endsInNumber host then
    if (host.splitOn '.').length = 4 then some host else none
  else some (Text.toAsciiLowercase host)

def plainParse (text : Text) : Except Text Url :=
  match Text.stripPrefix text "https://".toList with
  | none => .error "relative URL without a base".toList
  | some rest =>
      match Text.splitOnce '/' rest with
      | none => .error "no path".toList
      | some (authority, path) =>
          match plainHost authority with
          | none => .error "invalid domain".toList
          | some host => .ok { scheme := "https".toList, hostStr := some host,
                               path := resolvedPath path, queryPairs := [], fragment := none,
                               asStr := text }

theorem plainParse_httpsUrl {authority path : Text} (h : '/' ∉ authority) :
    plainParse (httpsUrl authority path) =
      match plainHost authority with
      | none => .error "invalid domain".toList
      | some host => .ok { scheme := "https".toList, hostStr := some host,
                           path := resolvedPath path, queryPairs := [], fragment := none,
                           asStr := httpsUrl authority path } := by
  have hstrip : Text.stripPrefix (httpsUrl authority path) "https://".toList =
      some (authority ++ '/' :: path) := by
    unfold httpsUrl
    generalize "https://".toList = scheme
    exact Text.stripPrefix_eq_some.mpr (List.append_assoc ..)
  have hsplit := Text.splitOnce_eq_some.mpr ⟨(rfl : authority ++ '/' :: path = _), h⟩
  unfold plainParse
  simp only [hstrip, hsplit]

/-- What a host of some form is parsed as. -/
theorem plainParse_host {host port path : Text} (hport : IsPort port)
    (hslash : '/' ∉ host) {found : Text} (hfound : plainHost (host ++ port) = some found) :
    ∃ url, plainParse (httpsUrl (host ++ port) path) = .ok url ∧ url.hostStr = some found ∧
      url.path = resolvedPath path := by
  have hnone : '/' ∉ host ++ port := fun hmem => by
    rcases List.mem_append.mp hmem with hmem | hmem
    · exact hslash hmem
    · exact hport.notMem (by decide) (by decide) hmem
  rw [plainParse_httpsUrl hnone, hfound]
  exact ⟨_, rfl, rfl, rfl⟩

theorem Ipv6Text.noSlash {address : Text} (h : Ipv6Text address) : '/' ∉ address := fun hmem => by
  obtain ⟨inner, rfl, -, hinner⟩ := h.groups
  rcases List.mem_append.mp hmem with hmem | hmem
  · rcases List.mem_cons.mp hmem with heq | hmem
    · cases heq
    · exact absurd (hinner _ hmem) (by decide)
  · exact absurd hmem (by decide)

/-- The last label of an address is a number. -/
theorem Ipv4Text.endsInNumber {address host : Text} (h : Ipv4Text address) (front : List Text)
    (hhost : host.splitOn '.' = front ++ address.splitOn '.') : endsInNumber host = true := by
  rw [V1.endsInNumber, hhost, List.getLast?_append_of_ne_nil _ (List.splitOn_ne_nil _ _),
    List.getLast?_eq_some_getLast (List.splitOn_ne_nil '.' address)]
  obtain ⟨n, -, hn⟩ := h.decimal _ (List.getLast_mem (List.splitOn_ne_nil '.' address))
  rw [hn, Option.any_some, Bool.or_eq_true]
  exact .inl (List.all_eq_true.mpr fun c hc => Text.isDigit_of_mem_decimal hc)

theorem plain_https : HttpsUrls plainParse where
  name := by
    intro name port path hname hport _
    refine plainParse_host hport (hname.notMem (by decide)) ?_
    have hbracket : '[' ∉ name ++ port := fun hmem => by
      rcases List.mem_append.mp hmem with hmem | hmem
      · exact hname.notMem (by decide) hmem
      · exact hport.notMem (by decide) (by decide) hmem
    rw [plainHost, takeWhile_port hport (hname.notMem (by decide)),
      if_neg fun hhead => hbracket (List.mem_of_head? hhead), if_neg hbracket, hname.last]
    rfl
  ipv4 := by
    intro address port path haddress hport _
    refine plainParse_host hport (haddress.notMem (by decide) (by decide)) ?_
    have hbracket : '[' ∉ address ++ port := fun hmem => by
      rcases List.mem_append.mp hmem with hmem | hmem
      · exact haddress.notMem (by decide) (by decide) hmem
      · exact hport.notMem (by decide) (by decide) hmem
    have hlast := haddress.endsInNumber [] rfl
    rw [plainHost, takeWhile_port hport (haddress.notMem (by decide) (by decide)),
      if_neg fun hhead => hbracket (List.mem_of_head? hhead), if_neg hbracket, if_pos hlast,
      if_pos haddress.octets]
  ipv6 := by
    intro address port path haddress hport _
    have hslash := haddress.noSlash
    obtain ⟨inner, rfl, -, -⟩ := haddress.groups
    obtain ⟨url, hurl, hhost, hpath⟩ :=
      @plainParse_host _ _ path hport hslash "[]".toList (by rw [plainHost]; exact if_pos rfl)
    exact ⟨url, _, hurl, hhost, by decide, hpath⟩
  labelled := by
    intro labels address port path hlabels haddress hport
    have hhead : (labels ++ '.' :: address ++ port).head? ≠ some '[' := fun hhead => by
      obtain ⟨c, rest, hcons⟩ := List.exists_cons_of_ne_nil hlabels.ne_nil
      rw [hcons] at hhead
      obtain rfl := Option.some.inj hhead
      exact hlabels.notMem (c := '[') (by decide) (hcons ▸ List.mem_cons_self ..)
    have hslash : '/' ∉ labels ++ '.' :: address ++ port := fun hmem => by
      rcases List.mem_append.mp hmem with hmem | hmem
      · rcases List.mem_append.mp hmem with hmem | hmem
        · exact hlabels.notMem (by decide) hmem
        · rcases List.mem_cons.mp hmem with heq | hmem
          · cases heq
          · rcases haddress with haddress | haddress
            · exact haddress.notMem (by decide) (by decide) hmem
            · exact haddress.noSlash hmem
      · exact hport.notMem (by decide) (by decide) hmem
    have hnone : plainHost (labels ++ '.' :: address ++ port) = none := by
      rw [plainHost, if_neg hhead]
      rcases haddress with haddress | haddress
      · have hcolon : ':' ∉ labels ++ '.' :: address := fun hmem => by
          rcases List.mem_append.mp hmem with hmem | hmem
          · exact hlabels.notMem (by decide) hmem
          · rcases List.mem_cons.mp hmem with heq | hmem
            · cases heq
            · exact haddress.notMem (by decide) (by decide) hmem
        have hsplit : (labels ++ '.' :: address).splitOn '.' =
            labels.splitOn '.' ++ address.splitOn '.' := List.splitOn_append_cons_self ..
        have hpos := List.length_pos_iff.mpr (List.splitOn_ne_nil '.' labels)
        have hfour := haddress.octets
        split
        · rfl
        · rw [takeWhile_port hport hcolon, if_pos (haddress.endsInNumber _ hsplit), if_neg]
          rw [hsplit, List.length_append]
          omega
      · obtain ⟨inner, rfl, -, -⟩ := haddress.groups
        exact if_pos (List.mem_append_left _ (List.mem_append_right _
          (List.mem_cons_of_mem _ (List.mem_cons_self ..))))
    rw [plainParse_httpsUrl hslash, hnone]
    exact ⟨_, rfl⟩

/-! ## A location, and the same in another style -/

def lakeBucket : Text := "lake".toList

theorem lake_labels : HostLabels lakeBucket :=
  .single (by decide) (by decide) (by decide) (by decide)

theorem ireland_labels : HostLabels "eu-west-1".toList :=
  .single (by decide) (by decide) (by decide) (by decide)

/-- The key of one file. -/
def fileKey : Text := "events/0.parquet".toList

theorem file_kept : KeptKey fileKey := by
  intro segment hsegment
  have hsplit : fileKey.splitOn '/' = ["events".toList, "0.parquet".toList] := rfl
  rw [hsplit] at hsegment
  rcases List.mem_cons.mp hsegment with rfl | hsegment
  · exact ⟨by decide, by decide, by decide⟩
  · obtain rfl := List.mem_singleton.mp hsegment
    exact ⟨by decide, by decide, by decide⟩

theorem aws_roundTrips :
    RoundTrips plainParse lakeBucket fileKey "eu-west-1".toList ⟨some .auto, none, none⟩ := by
  refine (roundTrips_iff plain_https lake_labels (by decide) ireland_labels
    (fun endpoint h => by cases h)).mpr ⟨⟨rfl, fun label hlabel => ?_⟩, file_kept⟩
  rw [List.splitOn_eq_singleton (by decide)] at hlabel
  obtain rfl := List.mem_singleton.mp hlabel
  decide

/-- A store that serves `lake.minio:9000`. -/
def minioEndpoint : Text := "minio".toList ++ ":9000".toList

theorem minio_host : EndpointHost minioEndpoint := by
  refine .name ⟨.single (by decide) (by decide) (by decide) (by decide), ?_⟩
    (.inr ⟨9000, by decide, by decide⟩)
  rw [endsInNumber, List.splitOn_eq_singleton (by decide)]
  decide

/-- In the virtual-host style the URL of a file is read as one of the bucket `lake.minio`. -/
theorem virtualHost_misread :
    HttpsUrls plainParse ∧ HostLabels lakeBucket ∧ EndpointHost minioEndpoint ∧
      ¬ RoundTrips plainParse lakeBucket fileKey "eu-west-1".toList
        ⟨some .virtualHost, some minioEndpoint, none⟩ :=
  ⟨plain_https, lake_labels, minio_host,
    not_roundTrips_virtualHost plain_https lake_labels (by decide) minio_host rfl rfl⟩

end Rustberg.V1
