import Rustberg.V1.Sign

/-!
# The source of a copy

The location `copy_source_location` hands to the containment check is rebuilt
from the segments of the header, while the header is what is signed. S3 reads
the bucket up to the first `/` and the key after it, empty segments and all
(`s3Source`). The two agree on a header without empty segments, white space
inside its ends or signed escapes, and on no other that is accepted
(`signed_copySource`).
-/

namespace Rustberg.V1

open Process Auth Api

/-! ## What S3 reads -/

/-- The white space HTTP allows around a header's value. -/
def isOptionalSpace (c : Char) : Bool := c = ' ' || c = '\t'

/-- The value of a header as it is received. -/
def fieldValue (raw : Text) : Text := (raw.dropWhile isOptionalSpace).rdropWhile isOptionalSpace

/-- What stands before the version. -/
def sourcePath (raw : Text) : Text := (fieldValue raw).takeWhile (· ≠ '?')

/-- The bucket and the key, in bytes. -/
def s3Source (raw : Text) : Option (List UInt8 × List UInt8) :=
  (Text.splitOnce '/' (withoutSlash (sourcePath raw))).map fun (bucket, key) =>
    (Percent.read (Utf8.bytes bucket), Percent.read (Utf8.bytes key))

/-- An escape of the segment is written with a plus sign. -/
def PlusEscape (segment : Text) : Prop := [Percent.percent, Percent.plus] <:+: Utf8.bytes segment

instance : DecidablePred PlusEscape := fun segment =>
  inferInstanceAs (Decidable ([Percent.percent, Percent.plus] <:+: Utf8.bytes segment))

/-- A header that says nothing the check leaves out. -/
structure Canonical (raw : Text) : Prop where
  trimmed : Text.trim (sourcePath raw) = sourcePath raw
  full : [] ∉ (withoutSlash (sourcePath raw)).splitOn '/'
  plain : ∀ segment ∈ (withoutSlash (sourcePath raw)).splitOn '/', ¬ PlusEscape segment

/-! ## The path that is checked -/

theorem isWhitespace_of_optional {c : Char} (h : isOptionalSpace c = true) :
    Text.isWhitespace c = true := by
  rw [isOptionalSpace, Bool.or_eq_true, decide_eq_true_eq, decide_eq_true_eq] at h
  rcases h with rfl | rfl <;> rfl

theorem ne_question_of_optional {c : Char} (h : isOptionalSpace c = true) : c ≠ '?' := by
  rintro rfl
  cases h

/-- The check trims the path that S3 reads. -/
theorem trim_path (raw : Text) :
    Text.trim (raw.takeWhile (· ≠ '?')) = Text.trim (sourcePath raw) := by
  have hraw : raw = raw.takeWhile isOptionalSpace ++
      (fieldValue raw ++ (raw.dropWhile isOptionalSpace).rtakeWhile isOptionalSpace) := by
    rw [fieldValue, List.rdropWhile_append_rtakeWhile, List.takeWhile_append_dropWhile]
  generalize hl : raw.takeWhile isOptionalSpace = l at hraw
  generalize hr : (raw.dropWhile isOptionalSpace).rtakeWhile isOptionalSpace = r at hraw
  have hleft : ∀ c ∈ l, isOptionalSpace c = true := hl ▸ fun c hc => List.mem_takeWhile_imp hc
  have hright : ∀ c ∈ r, isOptionalSpace c = true := hr ▸ fun c hc => List.mem_rtakeWhile_imp hc
  have hkeep : ∀ s : Text, (∀ c ∈ s, isOptionalSpace c = true) →
      s.takeWhile (fun c => decide (c ≠ '?')) = s := fun s hs =>
    List.takeWhile_eq_self_iff.mpr fun c hc => decide_eq_true (ne_question_of_optional (hs c hc))
  have hcut : ∃ s, raw.takeWhile (fun c => decide (c ≠ '?')) = l ++ sourcePath raw ++ s ∧
      ∀ c ∈ s, isOptionalSpace c = true := by
    rw [hraw, List.takeWhile_append, hkeep l hleft, if_pos rfl, List.takeWhile_append, ← hraw]
    split
    · next hwhole =>
        refine ⟨r, ?_, hright⟩
        rw [hkeep r hright, sourcePath, List.takeWhile_eq_self_iff.mpr, List.append_assoc]
        exact List.takeWhile_eq_self_iff.mp (List.takeWhile_sublist _ |>.eq_of_length hwhole)
    · exact ⟨[], by rw [List.append_nil]; rfl, fun c hc => by cases hc⟩
  obtain ⟨s, hs, hspace⟩ := hcut
  rw [hs]
  exact Text.trim_around (fun c hc => isWhitespace_of_optional (hleft c hc)) fun c hc =>
    isWhitespace_of_optional (hspace c hc)

/-! ## The weight of a path

A path weighs as much as it has bytes when read. The check never weighs more
than what S3 reads, and weighs less for all that it leaves out. -/

/-- The bytes of segments joined with a separator, and one more. -/
def weight (f : Text → List UInt8) (segments : List Text) : Nat :=
  (segments.map fun s => (f s).length + 1).sum

def readBytes (s : Text) : List UInt8 := Percent.read (Utf8.bytes s)

theorem bytes_cons_slash (s : Text) : Utf8.bytes ('/' :: s) = 47 :: Utf8.bytes s :=
  Utf8.bytes_append ['/'] s

/-- No escape reaches over a slash. -/
theorem readBytes_slash (s t : Text) :
    readBytes (s ++ '/' :: t) = readBytes s ++ 47 :: readBytes t := by
  rw [readBytes, Utf8.bytes_append, bytes_cons_slash, Percent.read_append,
    Percent.read_cons (by decide)]
  · rfl
  · rintro b hb
    obtain rfl : 47 = b := by simpa using hb
    decide

theorem join_cons (c : Char) (first : Text) {rest : List Text} (h : rest ≠ []) :
    Text.join [c] (first :: rest) = first ++ c :: Text.join [c] rest := by
  obtain ⟨second, rest, rfl⟩ := List.exists_cons_of_ne_nil h
  rw [Text.join, Text.join, List.intercalate_cons_cons]
  simp

theorem bytes_slash (s t : Text) :
    Utf8.bytes (s ++ '/' :: t) = Utf8.bytes s ++ 47 :: Utf8.bytes t := by
  rw [Utf8.bytes_append, bytes_cons_slash]

/-- Segments are read one by one, and joined again. -/
theorem joined {f : Text → List UInt8} (hf : ∀ s t, f (s ++ '/' :: t) = f s ++ 47 :: f t)
    {segments : List Text} (h : segments ≠ []) :
    f (Text.join ['/'] segments) = [47].intercalate (segments.map f) := by
  induction segments with
  | nil => exact absurd rfl h
  | cons first rest ih =>
      by_cases hrest : rest = []
      · subst hrest
        simp [Text.join]
      · rw [join_cons '/' first hrest, hf, ih hrest]
        obtain ⟨second, rest, rfl⟩ := List.exists_cons_of_ne_nil hrest
        simp [List.intercalate_cons_cons]

theorem weight_join {f : Text → List UInt8} (hf : ∀ s t, f (s ++ '/' :: t) = f s ++ 47 :: f t)
    {segments : List Text} (h : segments ≠ []) :
    (f (Text.join ['/'] segments)).length + 1 = weight f segments := by
  induction segments with
  | nil => exact absurd rfl h
  | cons first rest ih =>
      by_cases hrest : rest = []
      · subst hrest
        simp [weight, Text.join]
      · have hih := ih hrest
        rw [join_cons '/' first hrest, hf, weight, List.map_cons, List.sum_cons, List.length_append,
          List.length_cons, ← weight, ← hih]
        omega

theorem percentDecode_ok {raw decoded : Text} (h : percentDecode raw = .ok decoded) :
    Percent.decode (Utf8.bytes raw) = some (Utf8.bytes decoded) := by
  unfold percentDecode at h
  split at h
  · cases h
  · next bytes hdecode =>
      split at h
      · next hread =>
          cases h
          rw [hdecode, Utf8.bytes_of_text hread]
      · cases h

theorem decodeSegment_ok {refusal raw decoded : Text}
    (h : decodeSegment refusal raw = .ok decoded) :
    Percent.decode (Utf8.bytes raw) = some (Utf8.bytes decoded) := by
  obtain ⟨text, htext, h⟩ := Except.bind_eq_ok.mp h
  split at h
  · cases h
  · cases h
    exact percentDecode_ok htext

/-- What the check decodes of the segments it keeps, against all that S3 reads. -/
theorem decoded_spec {refusal : Text} {segments decoded : List Text}
    (h : (segments.filter (· ≠ [])).mapM (decodeSegment refusal) = .ok decoded) :
    weight Utf8.bytes decoded ≤ weight readBytes segments ∧
      (weight readBytes segments ≤ weight Utf8.bytes decoded →
        [] ∉ segments ∧ ∀ segment ∈ segments, ¬ PlusEscape segment) ∧
      ([] ∉ segments → (∀ segment ∈ segments, ¬ PlusEscape segment) →
        decoded.map Utf8.bytes = segments.map readBytes) := by
  induction segments generalizing decoded with
  | nil =>
      cases h
      exact ⟨Nat.le_refl _, fun _ => ⟨List.not_mem_nil, fun _ hs => by cases hs⟩, fun _ _ => rfl⟩
  | cons segment segments ih =>
      have hweigh : weight readBytes (segment :: segments) =
          (readBytes segment).length + 1 + weight readBytes segments := rfl
      by_cases hempty : segment = []
      · subst hempty
        obtain ⟨hle, -, -⟩ := ih h
        refine ⟨by omega, fun hge => by omega, fun hno => absurd (List.mem_cons_self ..) hno⟩
      · rw [List.filter_cons_of_pos (by simpa using hempty), List.mapM_cons] at h
        obtain ⟨first, hfirst, h⟩ := Except.bind_eq_ok.mp h
        obtain ⟨rest, hrest, h⟩ := Except.bind_eq_ok.mp h
        cases h
        obtain ⟨hle, hge, hsame⟩ := ih hrest
        obtain ⟨heq, hless⟩ := Percent.decode_spec (decodeSegment_ok hfirst)
        have hweigh' : weight Utf8.bytes (first :: rest) =
            (Utf8.bytes first).length + 1 + weight Utf8.bytes rest := rfl
        have hread : readBytes segment = Percent.read (Utf8.bytes segment) := rfl
        by_cases hplus : PlusEscape segment
        · have hshort := hless hplus
          refine ⟨by rw [hweigh, hweigh', hread]; omega, fun h => ?_, fun _ hno => ?_⟩
          · rw [hweigh, hweigh', hread] at h
            omega
          · exact absurd hplus (hno segment (List.mem_cons_self ..))
        · have hlen :
            (Utf8.bytes first).length = (readBytes segment).length := by rw [heq hplus, hread]
          refine ⟨by rw [hweigh, hweigh']; omega, fun h => ?_, fun hno hall => ?_⟩
          · rw [hweigh, hweigh'] at h
            obtain ⟨hfull, hplain⟩ := hge (by omega)
            refine ⟨by simpa [Ne.symm hempty] using hfull, fun s hs => ?_⟩
            rcases List.mem_cons.mp hs with rfl | hs
            · exact hplus
            · exact hplain s hs
          · rw [List.map_cons, List.map_cons, heq hplus, hread,
              hsame (fun hmem => hno (List.mem_cons_of_mem _ hmem))
                fun s hs => hall s (List.mem_cons_of_mem _ hs)]

/-! ## White space -/

/-- A byte of white space is no digit and begins no escape. -/
theorem hexDigit_whitespace {c : Char} (h : Text.isWhitespace c = true) {b : UInt8}
    (hb : b ∈ Utf8.bytes [c]) : Percent.hexDigit b = none ∧ b ≠ Percent.percent := by
  rw [Utf8.bytes_eq, List.flatMap_singleton] at hb
  have hnat : b.toNat ≤ 32 ∨ 128 ≤ b.toNat := by
    simp only [Text.isWhitespace, Bool.or_eq_true, Bool.and_eq_true, decide_eq_true_eq,
      beq_iff_eq] at h
    rcases Utf8.mem_encodeChar hb with heq | hpast <;> omega
  constructor
  · have hnone : ∀ b : UInt8, b.toNat ≤ 32 ∨ 128 ≤ b.toNat → Percent.hexDigit b = none := by
      decide +kernel
    exact hnone b hnat
  · rintro rfl
    revert hnat
    decide

theorem bytes_whitespace {s : Text} (h : ∀ c ∈ s, Text.isWhitespace c = true) {b : UInt8}
    (hb : b ∈ Utf8.bytes s) : Percent.hexDigit b = none ∧ b ≠ Percent.percent := by
  rw [Utf8.bytes_eq] at hb
  obtain ⟨c, hc, hb⟩ := List.mem_flatMap.mp hb
  exact hexDigit_whitespace (h c hc) (by rwa [Utf8.bytes_eq, List.flatMap_singleton])

theorem read_plain {p s : List UInt8} (h : ∀ b ∈ p, b ≠ Percent.percent) :
    Percent.read (p ++ s) = p ++ Percent.read s := by
  induction p with
  | nil => rfl
  | cons x p ih =>
      rw [List.cons_append, Percent.read_cons (h x (List.mem_cons_self ..)),
        ih fun b hb => h b (List.mem_cons_of_mem _ hb)]
      rfl

/-- White space around a path is read as it stands. -/
theorem readBytes_around {l s r : Text} (hl : ∀ c ∈ l, Text.isWhitespace c = true)
    (hr : ∀ c ∈ r, Text.isWhitespace c = true) :
    readBytes (l ++ s ++ r) = Utf8.bytes l ++ readBytes s ++ Utf8.bytes r := by
  rw [readBytes, Utf8.bytes_append, Utf8.bytes_append, List.append_assoc,
    read_plain fun b hb => (bytes_whitespace hl hb).2, Percent.read_append, List.append_assoc]
  · have hread : Percent.read (Utf8.bytes r) = Utf8.bytes r := by
      have hplain := read_plain (s := []) fun b hb => (bytes_whitespace hr hb).2
      rwa [List.append_nil, Percent.read, List.append_nil] at hplain
    rw [hread, readBytes]
  · exact fun b hb => (bytes_whitespace hr (List.mem_of_mem_head? hb)).1

theorem length_withoutSlash (s : Text) :
    (readBytes (withoutSlash s)).length ≤ (readBytes s).length := by
  cases s with
  | nil => exact Nat.le_refl _
  | cons c s =>
      rw [withoutSlash_cons]
      split
      · next hc =>
          subst hc
          have hslash := readBytes_slash [] s
          rw [List.nil_append] at hslash
          rw [hslash, List.length_append, List.length_cons]
          omega
      · exact Nat.le_refl _

/-- What S3 reads of a path is longer than the trimmed path by what was trimmed. -/
theorem length_around {l s r : Text} (hl : ∀ c ∈ l, Text.isWhitespace c = true)
    (hr : ∀ c ∈ r, Text.isWhitespace c = true) :
    (Utf8.bytes l).length + (readBytes (withoutSlash s)).length + (Utf8.bytes r).length ≤
      (readBytes (withoutSlash (l ++ s ++ r))).length := by
  have hnoslash : ∀ c, Text.isWhitespace c = true → c ≠ '/' := by
    rintro c hc rfl
    cases hc
  cases l with
  | cons c l =>
      rw [List.cons_append, List.cons_append, withoutSlash_cons,
        if_neg (hnoslash c (hl c (List.mem_cons_self ..)))]
      have hsame := readBytes_around (s := s) hl hr
      rw [List.cons_append, List.cons_append] at hsame
      rw [hsame, List.length_append, List.length_append]
      have hle := length_withoutSlash s
      omega
  | nil =>
      have hnil : Utf8.bytes [] = [] := rfl
      rw [List.nil_append, hnil, List.length_nil, Nat.zero_add]
      have hread : ∀ s, readBytes (s ++ r) = readBytes s ++ Utf8.bytes r := fun s => by
        have hsame := readBytes_around (l := []) (s := s) (fun c hc => by cases hc) hr
        rwa [List.nil_append, hnil, List.nil_append] at hsame
      cases s with
      | nil =>
          cases r with
          | nil => exact Nat.le_refl _
          | cons c r =>
              rw [List.nil_append, withoutSlash_cons,
                if_neg (hnoslash c (hr c (List.mem_cons_self ..)))]
              have hsame := hread []
              rw [List.nil_append] at hsame
              rw [hsame, List.length_append]
              exact Nat.le_refl _
      | cons c s =>
          rw [List.cons_append, withoutSlash_cons, withoutSlash_cons]
          split
          · rw [hread, List.length_append]
          · have hsame := hread (c :: s)
            rw [List.cons_append] at hsame
            rw [hsame, List.length_append]

/-! ## Where the two agree -/

theorem splitOnce_slash {path : Text} {bucket key : Text}
    (h : Text.splitOnce '/' path = some (bucket, key)) :
    path = bucket ++ '/' :: key ∧ path.splitOn '/' = bucket :: key.splitOn '/' := by
  obtain ⟨rfl, hbucket⟩ := Text.splitOnce_eq_some.mp h
  exact ⟨rfl, by rw [List.splitOn_append_cons_self, List.splitOn_eq_singleton hbucket]; rfl⟩

theorem copySource_ok {raw bucket key : Text} (h : copySource raw = .ok (bucket, key)) :
    ∃ refusal first rest, key = Text.join ['/'] (first :: rest) ∧
      (((withoutSlash (Text.trim (sourcePath raw))).splitOn '/').filter (· ≠ [])).mapM
        (decodeSegment refusal) = .ok (bucket :: first :: rest) := by
  obtain ⟨segments, hsegments, h⟩ := Except.bind_eq_ok.mp h
  rw [trim_path] at hsegments
  match segments, h with
  | [], h => cases h
  | [_], h => cases h
  | _ :: first :: rest, h =>
      cases h
      exact ⟨_, first, rest, rfl, hsegments⟩

/-- The key of an accepted header is the one S3 reads where the header is
canonical, and nowhere else. -/
theorem copySource_canonical {raw bucket key : Text} (h : copySource raw = .ok (bucket, key)) :
    s3Source raw = some (Utf8.bytes bucket, Utf8.bytes key) ↔ Canonical raw := by
  obtain ⟨refusal, first, rest, rfl, hdecoded⟩ := copySource_ok h
  obtain ⟨hle, hge, hsame⟩ := decoded_spec hdecoded
  have hjoined : (Utf8.bytes (Text.join ['/'] (bucket :: first :: rest))).length + 1 =
      weight Utf8.bytes (bucket :: first :: rest) := weight_join bytes_slash (List.cons_ne_nil _ _)
  have hread (path : Text) : (readBytes path).length + 1 = weight readBytes (path.splitOn '/') := by
    have hjoin := weight_join readBytes_slash (List.splitOn_ne_nil '/' path)
    rwa [Text.join, List.intercalate_splitOn '/'] at hjoin
  have hbytes : Utf8.bytes (Text.join ['/'] (bucket :: first :: rest)) =
      Utf8.bytes bucket ++ 47 :: Utf8.bytes (Text.join ['/'] (first :: rest)) := by
    rw [join_cons '/' bucket (List.cons_ne_nil _ _), bytes_slash]
  constructor
  · intro hagree
    obtain ⟨⟨s3Bucket, s3Key⟩, hsplit, hparts⟩ := Option.map_eq_some_iff.mp hagree
    obtain ⟨hpath, -⟩ := splitOnce_slash hsplit
    have hwhole : readBytes (withoutSlash (sourcePath raw)) =
        Utf8.bytes (Text.join ['/'] (bucket :: first :: rest)) := by
      rw [hpath, readBytes_slash, hbytes]
      rw [(Prod.mk.inj hparts).1.symm, (Prod.mk.inj hparts).2.symm]
      rfl
    obtain ⟨l, r, haround, hl, hr⟩ := Text.exists_trim (sourcePath raw)
    have hlong := length_around (s := Text.trim (sourcePath raw)) hl hr
    rw [← haround, hwhole] at hlong
    have hchecked := hread (withoutSlash (Text.trim (sourcePath raw)))
    obtain ⟨hfull, hplain⟩ := hge (by omega)
    have htrimmed : Text.trim (sourcePath raw) = sourcePath raw := by
      have hnone : ∀ s : Text, (Utf8.bytes s).length = 0 → s = [] := fun s hs =>
        Utf8.bytes_injective (List.length_eq_zero_iff.mp hs)
      obtain rfl := hnone l (by omega)
      obtain rfl := hnone r (by omega)
      rw [List.nil_append, List.append_nil] at haround
      exact haround.symm
    rw [htrimmed] at hfull hplain
    exact ⟨htrimmed, hfull, hplain⟩
  · rintro ⟨htrimmed, hfull, hplain⟩
    rw [htrimmed] at hsame
    have hparts := hsame hfull hplain
    cases hsplit : Text.splitOnce '/' (withoutSlash (sourcePath raw)) with
    | none =>
        rw [List.splitOn_eq_singleton (Text.splitOnce_eq_none.mp hsplit)] at hparts
        have hlength := congrArg List.length hparts
        simp at hlength
    | some split =>
        obtain ⟨s3Bucket, s3Key⟩ := split
        obtain ⟨hpath, hsegments⟩ := splitOnce_slash hsplit
        rw [hsegments, List.map_cons, List.map_cons] at hparts
        obtain ⟨hbucket, hrest⟩ := List.cons.inj hparts
        have hrest : (first :: rest).map Utf8.bytes = (s3Key.splitOn '/').map readBytes := hrest
        have hkey : Utf8.bytes (Text.join ['/'] (first :: rest)) = readBytes s3Key := by
          rw [joined bytes_slash (List.cons_ne_nil _ _), hrest,
            ← joined readBytes_slash (List.splitOn_ne_nil '/' s3Key), Text.join,
            List.intercalate_splitOn '/']
        rw [s3Source, hsplit, hkey, hbucket]
        rfl

/-! ## What is signed -/

section

variable {ib : Iceberg} {d : Crates ib}

theorem copySourceLocation_ok {headers : HeaderMultiMap} {raw : Text} {source : Option Text}
    (hraw : copySourceValue headers none = .ok (some raw))
    (h : copySourceLocation headers = .ok source) :
    ∃ bucket key, copySource raw = .ok (bucket, key) ∧ source = some (s3Location bucket key) := by
  obtain ⟨value, hvalue, h⟩ := Except.bind_eq_ok.mp h
  cases hraw.symm.trans hvalue
  obtain ⟨⟨bucket, key⟩, hsource, h⟩ := Except.bind_eq_ok.mp h
  cases h
  exact ⟨bucket, key, hsource, rfl⟩

/-- The header's source of a request that is signed: it has been checked as a
location inside the table, and that location is the one S3 reads from the signed
value where the value is canonical, and nowhere else. -/
theorem signed_copySource (app : AppState) (signing : Signing) (principal : Principal)
    (request : RequestContext) (table : TableIdent) (payload : RemoteSignRequest) (raw : Text)
    (hraw : copySourceValue payload.headers none = .ok (some raw)) (h : Past d)
    (response : RemoteSignResponse)
    (hsigned : Prog.Follows
      (signRequest app signing principal request table payload : Served d _).run h
      (.done (.ok response))) :
    ∃ bucket key loaded, copySource raw = .ok (bucket, key) ∧
      ⟨.store (.loadTable table), .ok loaded⟩ ∈ h ∧
      isWithin (ib.location loaded.metadata) (s3Location bucket key) = true ∧
      (s3Source raw = some (Utf8.bytes bucket, Utf8.bytes key) ↔ Canonical raw) := by
  obtain ⟨addressed, -, ⟨operation, hresolve⟩, ⟨loaded, hloaded, hconfine⟩, -⟩ :=
    (signRequest_traced []).of_follows hsigned response rfl
  obtain ⟨url, s3Bucket, s3Key, source, -, -, hsource, hkind⟩ := resolve_ok hresolve
  obtain ⟨bucket, key, hcopy, rfl⟩ := copySourceLocation_ok hraw hsource
  refine ⟨bucket, key, loaded, hcopy, hloaded, ?_, copySource_canonical hcopy⟩
  rcases resolveKind_ok hkind with ⟨copied, hcopied, rfl⟩ | ⟨_, hnone, -⟩ | ⟨_, hnone, -⟩ |
    ⟨hnone, -⟩
  · cases hcopied
    have hconfined := confine_ok.mp hconfine (s3Location bucket key) (by simp)
    simpa using hconfined
  · cases hnone
  · cases hnone
  · cases hnone

end

def copyHeaders (source : String) : HeaderMultiMap := [(copySourceHeader, [source.toList])]

theorem part_canonical : Canonical "/lake/db/events/part.parquet".toList := by
  rw [String.toList_ofList]
  exact ⟨by decide, by decide, by decide⟩

theorem part_copied : ∃ bucket key,
    copySource "/lake/db/events/part.parquet".toList = .ok (bucket, key) ∧
      s3Source "/lake/db/events/part.parquet".toList =
        some (Utf8.bytes bucket, Utf8.bytes key) := by
  obtain ⟨h, hfollows⟩ : ∃ h, Prog.Follows
      (lakeServed (lakePayload "PUT" (copyHeaders "/lake/db/events/part.parquet"))).run h
      (.done (.ok (lakeResponse .write))) := by
    have hurl := lakeUrl_congr String.toList_ofList String.toList_ofList String.toList_ofList
    apply lake_follows
    unfold lakeServed lakeSigning lakePayload lakeResponse copyHeaders
    rw [hurl, String.toList_ofList]
    decide +kernel
  obtain ⟨bucket, key, -, hcopy, -, -, hread⟩ := signed_copySource lakeApp lakeSigning lakeUser
    ⟨none, none, []⟩ lake (lakePayload "PUT" (copyHeaders "/lake/db/events/part.parquet"))
    "/lake/db/events/part.parquet".toList (by decide) h (lakeResponse .write) hfollows
  exact ⟨bucket, key, hcopy, hread.mpr part_canonical⟩

/-- A doubled slash: the copy is signed for a file of the table, and S3 reads a key
that is outside it. -/
theorem slash_copied :
    (∃ h, Prog.Follows
      (lakeServed (lakePayload "PUT" (copyHeaders "/lake//db/events/part.parquet"))).run h
      (.done (.ok (lakeResponse .write)))) ∧
    copySource "/lake//db/events/part.parquet".toList =
      .ok ("lake".toList, "db/events/part.parquet".toList) ∧
    s3Source "/lake//db/events/part.parquet".toList =
      some (Utf8.bytes "lake".toList, Utf8.bytes "/db/events/part.parquet".toList) ∧
    isWithin "s3://lake/db/events".toList
      (s3Location "lake".toList "/db/events/part.parquet".toList) = false := by
  have hurl := lakeUrl_congr String.toList_ofList String.toList_ofList String.toList_ofList
  refine ⟨lake_follows ?_, ?_, ?_, ?_⟩
  · unfold lakeServed lakeSigning lakePayload lakeResponse copyHeaders
    rw [hurl, String.toList_ofList]
    decide +kernel
  · rw [String.toList_ofList]
    decide +kernel
  · rw [String.toList_ofList]
    decide +kernel
  · decide +kernel

end Rustberg.V1
