import Rustberg.Credentials.Providers

/-!
# Vended credentials reach exactly the table

Quoting is character by character in both languages, so a quoted bucket
and key stand for themselves (`escapeIam_eq`, `escapeCelLiteral_eq`), and a
credential reaches the keys below the location's own key, in its bucket.
Below is what `is_within` calls inside, once a key has no `..` segment
(`isWithin_object`).
-/

namespace Rustberg

/-- The key lies properly below `root`; the empty root is the bucket itself. -/
def KeyBelow (root key : Text) : Prop := root = [] ∨ root ++ ['/'] <+: key

/-! ## S3 -/

namespace Aws

theorem escapeIam_eq (value : Text) : escapeIam value = value.flatMap Iam.literal := by
  simp only [escapeIam, Text.replaceChar, List.flatMap_assoc]
  refine List.flatMap_congr fun c _ => ?_
  by_cases hdollar : c = '$'
  · subst hdollar
    decide
  · by_cases hstar : c = '*'
    · subst hstar
      decide
    · by_cases hone : c = '?'
      · subst hone
        decide
      · simp [Iam.literal, Iam.special, hdollar, hstar, hone]

theorem allows_document {bucket keyPrefix : Text} {writeAccess : Bool} {action : String}
    (h : action ∈ objectActions writeAccess) (resource : Text) :
    Iam.allows [] action.toList resource (document bucket keyPrefix writeAccess) =
      Iam.globMatches (if keyPrefix = [] then bucketArn bucket ++ "/*".toList
        else bucketArn bucket ++ ['/'] ++ keyPrefix ++ "/*".toList) resource := by
  have haction : ∀ writeAccess, ∀ action ∈ objectActions writeAccess,
      (Iam.strings (.array ((objectActions writeAccess).map Json.str))).any
        (fun pattern => Iam.globMatches pattern action.toList) = true ∧
      Iam.globMatches "s3:ListBucket".toList action.toList = false := by decide
  obtain ⟨hallowed, hlist⟩ := haction writeAccess action h
  rw [document, Iam.allows_of]
  simp only [List.lookup_cons, String.reduceBEq, Option.bind_some, Json.asArray, List.any_cons,
    List.any_nil, Iam.allowedBy_of, Json.asStr, Json.str, beq_self_eq_true]
  rw [Option.any_some, hallowed]
  simp only [Option.any_some, Iam.strings, List.any_cons, List.any_nil, hlist, List.lookup_nil,
    Option.all_none, Bool.true_and, Bool.and_true, Bool.false_and, Bool.or_false]

theorem literal_bucketArn (bucket : Text) :
    bucketArn (bucket.flatMap Iam.literal) = (bucketArn bucket).flatMap Iam.literal := by
  have harn : "arn:aws:s3:::".toList.flatMap Iam.literal = "arn:aws:s3:::".toList := by
    decide
  exact (List.flatMap_append.trans (congrArg (· ++ bucket.flatMap Iam.literal) harn)).symm

theorem literal_slash (s : Text) :
    s.flatMap Iam.literal ++ ['/'] = (s ++ ['/']).flatMap Iam.literal := by
  rw [List.flatMap_append]
  rfl

theorem escapeIam_eq_nil {value : Text} : escapeIam value = [] ↔ value = [] := by
  rw [escapeIam_eq]
  cases value with
  | nil => simp
  | cons c value => cases hc : Iam.special c <;> simp [Iam.literal, hc]

/-- The policy for a bucket and a key reaches that bucket's keys below the key. -/
theorem allows_document_iff {bucket keyPrefix b k : Text} (hbucket : '/' ∉ bucket) (hb : '/' ∉ b)
    {writeAccess : Bool} {action : String} (haction : action ∈ objectActions writeAccess) :
    Iam.allows [] action.toList (bucketArn b ++ '/' :: k)
        (document (escapeIam bucket) (escapeIam keyPrefix) writeAccess) = true ↔
      b = bucket ∧ KeyBelow keyPrefix k := by
  have hstar : ∀ s : Text, s ++ "/*".toList = s ++ ['/'] ++ ['*'] := fun s => by simp
  have harn : ∀ s t : Text, bucketArn s <+: bucketArn t ↔ s <+: t := fun s t =>
    List.prefix_append_right_inj _
  have hassoc : ∀ s t : Text, bucketArn s ++ t = bucketArn (s ++ t) := fun s t =>
    List.append_assoc ..
  rw [allows_document haction, escapeIam_eq bucket, literal_bucketArn]
  by_cases hkey : keyPrefix = []
  · rw [if_pos (escapeIam_eq_nil.mpr hkey), hstar, literal_slash, Iam.globMatches_star, hassoc,
      hassoc, harn, Text.prefix_cons_iff hbucket hb]
    simp [KeyBelow, hkey]
  · rw [if_neg (mt escapeIam_eq_nil.mp hkey), hstar, literal_slash, escapeIam_eq,
      ← List.flatMap_append, literal_slash, Iam.globMatches_star, hassoc, hassoc, hassoc, hassoc,
      harn, List.append_assoc, List.append_assoc, List.singleton_append,
      Text.prefix_cons_iff hbucket hb]
    simp [KeyBelow, hkey]

end Aws

/-! ## GCS -/

namespace Gcs

theorem escapeCelLiteral_eq (value : Text) : escapeCelLiteral value = value.flatMap Cel.quoted := by
  simp only [escapeCelLiteral, Text.replaceChar, List.flatMap_assoc]
  refine List.flatMap_congr fun c _ => ?_
  by_cases hslash : c = '\\'
  · subst hslash
    decide
  · by_cases hquote : c = '\''
    · subst hquote
      decide
    · simp [Cel.quoted, hslash, hquote]

/-- The literal of the condition is the quoted name of what lies below the key. -/
theorem literal_eq (bucket keyPrefix : Text) :
    "projects/_/buckets/".toList ++ escapeCelLiteral bucket ++ "/objects/".toList ++
        escapeCelLiteral keyPrefix ++ ['/'] =
      (AccessBoundary.objectName bucket (keyPrefix ++ ['/'])).flatMap Cel.quoted := by
  have hall : ∀ buckets objects : Text, buckets.flatMap Cel.quoted = buckets →
      objects.flatMap Cel.quoted = objects →
        buckets ++ escapeCelLiteral bucket ++ objects ++ escapeCelLiteral keyPrefix ++ ['/'] =
          (buckets ++ bucket ++ objects ++ (keyPrefix ++ ['/'])).flatMap Cel.quoted := by
    intro buckets objects hbuckets hobjects
    have hslash : ['/'].flatMap Cel.quoted = ['/'] := by decide
    simp only [List.flatMap_append, hbuckets, hobjects, hslash, escapeCelLiteral_eq,
      List.append_assoc]
  exact hall _ _ (by decide) (by decide)

/-- A name has a line break where its bucket or its key has one. -/
theorem lineBreak_objectName (bucket key : Text) :
    (∀ c ∈ AccessBoundary.objectName bucket key, Cel.isLineBreak c = false) ↔
      ∀ c ∈ bucket ++ key, Cel.isLineBreak c = false := by
  have hall : ∀ buckets objects : Text, (buckets.all fun c => !Cel.isLineBreak c) = true →
      (objects.all fun c => !Cel.isLineBreak c) = true →
        ((∀ c ∈ buckets ++ bucket ++ objects ++ key, Cel.isLineBreak c = false) ↔
          ∀ c ∈ bucket ++ key, Cel.isLineBreak c = false) := by
    intro buckets objects hbuckets hobjects
    constructor
    · intro h c hc
      refine h c ?_
      rcases List.mem_append.mp hc with hc | hc <;> simp [hc]
    · intro h c hc
      simp only [List.mem_append] at hc h
      rcases hc with ((hc | hc) | hc) | hc
      · simpa using List.all_eq_true.mp hbuckets c hc
      · exact h c (Or.inl hc)
      · simpa using List.all_eq_true.mp hobjects c hc
      · exact h c (Or.inr hc)
  exact hall _ _ (by decide) (by decide)

/-- The text of the condition, with its literal apart. -/
theorem expression_eq (bucket keyPrefix : Text) :
    "resource.name.startsWith('projects/_/buckets/".toList ++ escapeCelLiteral bucket ++
        "/objects/".toList ++ escapeCelLiteral keyPrefix ++ "/')".toList =
      "resource.name.startsWith('".toList ++
        ((AccessBoundary.objectName bucket (keyPrefix ++ ['/'])).flatMap Cel.quoted ++
          '\'' :: [')']) := by
  have hopening : "resource.name.startsWith('projects/_/buckets/".toList =
      "resource.name.startsWith('".toList ++ "projects/_/buckets/".toList := by
    rw [String.toList_ofList, String.toList_ofList, String.toList_ofList]
    rfl
  have hshape : ∀ opening buckets objects e e' : Text,
      opening ++ buckets ++ e ++ objects ++ e' ++ ['/', '\'', ')'] =
        opening ++ (buckets ++ e ++ objects ++ e' ++ ['/'] ++ '\'' :: [')']) := by
    intro opening buckets objects e e'
    simp
  exact (congrArg (· ++ escapeCelLiteral bucket ++ "/objects/".toList ++
      escapeCelLiteral keyPrefix ++ "/')".toList) hopening).trans
    ((hshape _ _ _ _ _).trans (congrArg (fun s => "resource.name.startsWith('".toList ++
      (s ++ '\'' :: [')'])) (literal_eq bucket keyPrefix)))

/-- The condition on a key reads, and holds of the names of what lies below it,
when the literal has no line break. -/
theorem startsWith_iff {bucket keyPrefix : Text} (name : Text) :
    Cel.startsWith ("resource.name.startsWith('projects/_/buckets/".toList ++
        escapeCelLiteral bucket ++ "/objects/".toList ++ escapeCelLiteral keyPrefix ++
          "/')".toList) name = some true ↔
      (∀ c ∈ bucket ++ keyPrefix, Cel.isLineBreak c = false) ∧
        AccessBoundary.objectName bucket (keyPrefix ++ ['/']) <+: name := by
  have hbreak : (∀ c ∈ AccessBoundary.objectName bucket (keyPrefix ++ ['/']),
      Cel.isLineBreak c = false) ↔ ∀ c ∈ bucket ++ keyPrefix, Cel.isLineBreak c = false := by
    have hslash : Cel.isLineBreak '/' = false := by decide
    rw [lineBreak_objectName]
    simp [or_imp, forall_and, hslash]
  have hstrip : ∀ s rest : Text, Text.stripPrefix (s ++ rest) s = some rest := fun _ _ =>
    Text.stripPrefix_eq_some.mpr rfl
  rw [Cel.startsWith, expression_eq, hstrip, Option.bind_some, ← hbreak]
  by_cases hplain : ∀ c ∈ AccessBoundary.objectName bucket (keyPrefix ++ ['/']),
      Cel.isLineBreak c = false
  · rw [Cel.readLiteral_flatMap_quoted hplain]
    exact ⟨fun h => ⟨hplain, by simpa using h⟩, fun h => by simpa using h.2⟩
  · have hexists : ∃ c ∈ AccessBoundary.objectName bucket (keyPrefix ++ ['/']),
        Cel.isLineBreak c = true := by
      simpa using hplain
    rw [Cel.readLiteral_lineBreak hexists]
    simp [hplain]

theorem objectName_prefix_iff {bucket b key k : Text} (hbucket : '/' ∉ bucket) (hb : '/' ∉ b) :
    AccessBoundary.objectName bucket key <+: AccessBoundary.objectName b k ↔
      b = bucket ∧ key <+: k := by
  have hall : ∀ buckets objects : Text,
      buckets ++ bucket ++ '/' :: objects ++ key <+: buckets ++ b ++ '/' :: objects ++ k ↔
        b = bucket ∧ key <+: k := by
    intro buckets objects
    simp only [List.append_assoc, List.cons_append]
    rw [List.prefix_append_right_inj, Text.prefix_cons_iff hbucket hb,
      List.prefix_append_right_inj]
  exact hall _ _

/-- The boundary for a bucket and a key reaches that bucket's keys below the key,
if its condition reads. -/
theorem available_boundary_iff {bucket keyPrefix b k : Text} (hbucket : '/' ∉ bucket)
    (hb : '/' ∉ b) (writeAccess : Bool) :
    AccessBoundary.available b k (accessBoundary bucket keyPrefix writeAccess) = true ↔
      b = bucket ∧ KeyBelow keyPrefix k ∧
        (keyPrefix = [] ∨ ∀ c ∈ bucket ++ keyPrefix, Cel.isLineBreak c = false) := by
  have hresource : (some ("//storage.googleapis.com/projects/_/buckets/".toList ++ bucket) ==
      some (AccessBoundary.resource b)) = true ↔ b = bucket := by
    have hinj : ∀ s : Text, some (s ++ bucket) = some (s ++ b) ↔ b = bucket := fun s => by
      rw [Option.some_inj, List.append_right_inj, eq_comm]
    rw [beq_iff_eq]
    exact hinj _
  rw [accessBoundary, AccessBoundary.available_of, List.any_cons, List.any_nil, Bool.or_false,
    AccessBoundary.availableBy_of]
  by_cases hkey : keyPrefix = []
  · rw [if_pos hkey]
    simp only [List.append_nil, List.lookup_cons, String.reduceBEq, List.lookup_nil,
      Option.bind_some, Json.asStr, Option.all_none, Bool.and_true, hresource]
    simp [KeyBelow, hkey]
  · have happend : ∀ x y z : String × Json, [x, y] ++ [z] = [x, y, z] := fun _ _ _ => rfl
    rw [if_neg hkey, happend]
    simp only [List.lookup_cons, String.reduceBEq, Option.bind_some, Json.asStr,
      Option.all_some, Json.of, Json.asObject, Json.get_fields, Option.any_some]
    rw [Bool.and_eq_true, hresource, beq_iff_eq, startsWith_iff]
    constructor
    · rintro ⟨rfl, hbreak, hname⟩
      exact ⟨rfl, Or.inr ((objectName_prefix_iff hbucket hb).mp hname).2, Or.inr hbreak⟩
    · rintro ⟨rfl, hbelow, hbreak⟩
      exact ⟨rfl, hbreak.resolve_left hkey,
        (objectName_prefix_iff hbucket hb).mpr ⟨rfl, hbelow.resolve_left hkey⟩⟩

end Gcs

/-! ## Keys and locations -/

theorem trimEnd_append (a b : Text) :
    (a ++ b).trimEndMatches '/' =
      if b.trimEndMatches '/' = [] then a.trimEndMatches '/' else a ++ b.trimEndMatches '/' := by
  induction b using List.reverseRecOn with
  | nil => simp [Text.trimEndMatches]
  | append_singleton b c ih =>
      rw [← List.append_assoc, Text.trimEndMatches, Text.trimEndMatches, List.rdropWhile_concat,
        List.rdropWhile_concat]
      split
      · exact ih
      · simp

theorem trimEnd_of_notMem {s : Text} (h : '/' ∉ s) : s.trimEndMatches '/' = s := by
  refine List.rdropWhile_eq_self_iff.mpr fun hne hlast => h ?_
  have hmem := List.getLast_mem hne
  rwa [beq_iff_eq.mp hlast] at hmem

/-- What a location splits into. -/
theorem splitBucket_eq_some {schemes : List Text} {location bucket keyPrefix : Text}
    (h : splitBucket schemes location = some (bucket, keyPrefix)) :
    ∃ scheme ∈ schemes, ∃ rest, location = scheme ++ rest ∧ '/' ∉ bucket ∧
      rest.trimEndMatches '/' = if keyPrefix = [] then bucket else bucket ++ '/' :: keyPrefix := by
  obtain ⟨rest, hrest, hsplit⟩ := Option.map_eq_some_iff.mp h
  obtain ⟨scheme, hscheme, hstrip⟩ := List.exists_of_findSome?_eq_some hrest
  refine ⟨scheme, hscheme, rest, Text.stripPrefix_eq_some.mp hstrip, ?_⟩
  cases hslash : Text.splitOnce '/' rest with
  | none =>
      rw [hslash] at hsplit
      cases hsplit
      have hno := Text.splitOnce_eq_none.mp hslash
      exact ⟨hno, trimEnd_of_notMem hno⟩
  | some parts =>
      obtain ⟨first, key⟩ := parts
      rw [hslash] at hsplit
      cases hsplit
      obtain ⟨rfl, hno⟩ := Text.splitOnce_eq_some.mp hslash
      refine ⟨hno, ?_⟩
      have hkey : Text.trimEndMatches '/' ('/' :: key) =
          if key.trimEndMatches '/' = [] then [] else '/' :: key.trimEndMatches '/' :=
        trimEnd_append ['/'] key
      rw [trimEnd_append, hkey, trimEnd_of_notMem hno]
      by_cases hnil : key.trimEndMatches '/' = [] <;> simp [hnil]

/-- The path of a location, by its trimmed text. -/
theorem segments_trimEnd {path scheme : Text} (h : ∃ c ∈ path, c ≠ '/') :
    (segments path scheme).rdropWhile List.isEmpty =
      (segments (path.trimEndMatches '/') scheme).rdropWhile List.isEmpty := by
  induction path using List.reverseRecOn with
  | nil => rfl
  | append_singleton path c ih =>
      rw [Text.trimEndMatches, List.rdropWhile_concat]
      split
      · next hc =>
          obtain rfl : c = '/' := by simpa using hc
          have hpath : ∃ d ∈ path, d ≠ '/' := by
            obtain ⟨d, hd, hslash⟩ := h
            exact ⟨d, (List.mem_append.mp hd).resolve_right (by simpa using hslash), hslash⟩
          rw [segments_slash hpath]
          exact ih hpath
      · rfl

/-- What a location written with a scheme and a bucket contains of the objects
of a bucket. -/
theorem isWithin_object {name name' rest bucket keyPrefix b k : Text}
    (hname : ':' ∉ name) (hname' : ':' ∉ name')
    (hscheme : canonicalScheme name.toAsciiLowercase = canonicalScheme name'.toAsciiLowercase)
    (hfile : canonicalScheme name.toAsciiLowercase ≠ fileScheme)
    (hrest : rest.trimEndMatches '/' =
      if keyPrefix = [] then bucket else bucket ++ '/' :: keyPrefix)
    (hbucket : '/' ∉ bucket) (hne : bucket ≠ []) (hb : '/' ∉ b) (hbne : b ≠ []) :
    isWithin (name ++ ("://".toList ++ rest)) (name' ++ ("://".toList ++ (b ++ '/' :: k))) = true ↔
      b = bucket ∧ (keyPrefix = [] ∨ k = keyPrefix ∨ keyPrefix ++ ['/'] <+: k) ∧
        climbs (name' ++ ("://".toList ++ (b ++ '/' :: k))) = false := by
  have hsplit : ∀ {name : Text} (path : Text), ':' ∉ name →
      split (name ++ ("://".toList ++ path)) = (canonicalScheme name.toAsciiLowercase, path) :=
    fun path h => split_authority (Text.splitOnceStr_of_notMem h ['/', '/'] path)
  have hplain : ∀ {s t : Text}, s ≠ [] → '/' ∉ s → segments (s ++ t)
      (canonicalScheme name.toAsciiLowercase) = (s ++ t).splitOn '/' := by
    intro s t hs hslash
    obtain ⟨c, s, rfl⟩ := List.exists_cons_of_ne_nil hs
    have hhead : (c :: s ++ t).head? ≠ some '/' := fun hc =>
      hslash (Option.some.inj hc ▸ List.mem_cons_self ..)
    rw [segments_unrooted hfile hhead, if_neg (by simp)]
  -- The location's own path, without its trailing slashes.
  have hpath : ((segments rest (canonicalScheme name.toAsciiLowercase)).rdropWhile List.isEmpty) =
      (rest.trimEndMatches '/').splitOn '/' := by
    obtain ⟨tail, htail⟩ : ∃ tail, rest.trimEndMatches '/' = bucket ++ tail := by
      rw [hrest]
      split
      · exact ⟨[], (List.append_nil _).symm⟩
      · exact ⟨_, rfl⟩
    have hnamed : ∃ c ∈ rest, c ≠ '/' := by
      obtain ⟨c, hc⟩ := List.exists_mem_of_ne_nil bucket hne
      have hmem : c ∈ rest.trimEndMatches '/' := htail ▸ List.mem_append_left tail hc
      exact ⟨c, (List.rdropWhile_prefix _ _).subset hmem, fun h => hbucket (h ▸ hc)⟩
    rw [segments_trimEnd hnamed, htail, hplain hne hbucket]
    refine Text.splitOn_rdropWhile (by simp [hne]) ?_
    rw [← htail]
    exact List.rdropWhile_idempotent _ _
  have hcontains : (place (name ++ ("://".toList ++ rest))).trimmed.Contains
      (place (name' ++ ("://".toList ++ (b ++ '/' :: k)))) ↔
        (rest.trimEndMatches '/').splitOn '/' <+: (b ++ '/' :: k).splitOn '/' := by
    simp only [Place.Contains, Place.trimmed, place, hsplit _ hname, hsplit _ hname', ← hscheme,
      hpath, hplain hbne hb, true_and]
    simp [hfile]
  rw [isWithin_iff, hcontains, Text.splitOn_prefix_iff, hrest, ← and_assoc]
  refine and_congr_left fun _ => ?_
  by_cases hkey : keyPrefix = []
  · have hself : b ++ '/' :: k ≠ bucket := fun h => hbucket (h ▸ by simp)
    rw [if_pos hkey, Text.prefix_cons_iff hbucket hb]
    simp [hself, hkey]
  · rw [if_neg hkey, List.append_assoc, List.cons_append, Text.prefix_cons_iff hbucket hb,
      Text.append_cons_inj_left hb hbucket, ← and_or_left]
    simp [hkey]

theorem keyBelow_iff {keyPrefix k : Text} (hk : k ≠ []) :
    KeyBelow keyPrefix k ↔
      (keyPrefix = [] ∨ k = keyPrefix ∨ keyPrefix ++ ['/'] <+: k) ∧ k ≠ keyPrefix := by
  have hlonger : keyPrefix ++ ['/'] <+: k → k ≠ keyPrefix := by
    rintro hpre rfl
    have := hpre.length_le
    simp at this
  constructor
  · rintro (rfl | hpre)
    · exact ⟨Or.inl rfl, hk⟩
    · exact ⟨Or.inr (Or.inr hpre), hlonger hpre⟩
  · rintro ⟨hroot | rfl | hpre, hne⟩
    · exact Or.inl hroot
    · exact absurd rfl hne
    · exact Or.inr hpre

/-! ## The credentials -/

/-- The object of a bucket, as a location of a scheme. -/
def objectLocation (scheme : String) (bucket key : Text) : Text :=
  scheme.toList ++ ("://".toList ++ (bucket ++ '/' :: key))

/-- For a location of one of a provider's schemes, the keys below are the other
objects inside. -/
theorem keyBelow_iff_isWithin {schemes : List Text} {scheme : String}
    (hschemes : ∀ spelling ∈ schemes, ∃ name : Text, spelling = name ++ "://".toList ∧ ':' ∉ name ∧
      canonicalScheme name.toAsciiLowercase =
        canonicalScheme (Text.toAsciiLowercase scheme.toList))
    (hscheme : ':' ∉ scheme.toList)
    (hfile : canonicalScheme (Text.toAsciiLowercase scheme.toList) ≠ fileScheme)
    {location bucket keyPrefix b k : Text}
    (hsplit : splitBucket schemes location = some (bucket, keyPrefix)) (hne : bucket ≠ [])
    (hb : '/' ∉ b) (hbne : b ≠ []) (hk : k ≠ [])
    (hclimbs : climbs (objectLocation scheme b k) = false) :
    b = bucket ∧ KeyBelow keyPrefix k ↔
      isWithin location (objectLocation scheme b k) = true ∧ ¬ (b = bucket ∧ k = keyPrefix) := by
  obtain ⟨spelling, hspelling, rest, rfl, hbucket, hrest⟩ := splitBucket_eq_some hsplit
  obtain ⟨name, rfl, hname, hcanonical⟩ := hschemes spelling hspelling
  rw [List.append_assoc, objectLocation, isWithin_object hname hscheme hcanonical
    (hcanonical ▸ hfile) hrest hbucket hne hb hbne, keyBelow_iff hk]
  have hclimbs' := hclimbs
  rw [objectLocation] at hclimbs'
  constructor
  · rintro ⟨rfl, hbelow, hself⟩
    exact ⟨⟨rfl, hbelow, hclimbs'⟩, fun h => hself h.2⟩
  · rintro ⟨⟨rfl, hbelow, -⟩, hself⟩
    exact ⟨rfl, hbelow, fun h => hself ⟨rfl, h⟩⟩

/-- What the provider splits its location into has the location's characters. -/
theorem mem_splitBucket {schemes : List Text} {location bucket keyPrefix : Text}
    (h : splitBucket schemes location = some (bucket, keyPrefix)) {c : Char}
    (hc : c ∈ bucket ++ keyPrefix) : c ∈ location := by
  obtain ⟨scheme, -, rest, rfl, -, hrest⟩ := splitBucket_eq_some h
  refine List.mem_append_right scheme ((List.rdropWhile_prefix (· == '/') rest).subset ?_)
  change c ∈ rest.trimEndMatches '/'
  rw [hrest]
  split
  · next hnil => simpa [hnil] using hc
  · rcases List.mem_append.mp hc with hc | hc
    · exact List.mem_append_left _ hc
    · exact List.mem_append_right bucket (List.mem_cons_of_mem _ hc)

theorem Aws.schemes_named : ∀ spelling ∈ Aws.schemes, ∃ name : Text,
    spelling = name ++ "://".toList ∧ ':' ∉ name ∧
      canonicalScheme name.toAsciiLowercase =
        canonicalScheme (Text.toAsciiLowercase "s3".toList) := by
  intro spelling h
  rcases (by simpa [Aws.schemes] using h :
      spelling = "s3://".toList ∨ spelling = "s3a://".toList ∨ spelling = "s3n://".toList) with
    rfl | rfl | rfl
  · exact ⟨"s3".toList, by decide⟩
  · exact ⟨"s3a".toList, by decide⟩
  · exact ⟨"s3n".toList, by decide⟩

theorem Gcs.schemes_named : ∀ spelling ∈ Gcs.schemes, ∃ name : Text,
    spelling = name ++ "://".toList ∧ ':' ∉ name ∧
      canonicalScheme name.toAsciiLowercase =
        canonicalScheme (Text.toAsciiLowercase "gs".toList) := by
  intro spelling h
  rcases (by simpa [Gcs.schemes] using h :
      spelling = "gs://".toList ∨ spelling = "gcs://".toList) with rfl | rfl
  · exact ⟨"gs".toList, by decide⟩
  · exact ⟨"gcs".toList, by decide⟩

theorem Aws.of_vendPolicy {print : Json → Text} {allowed : List Text} {location : Text}
    {writeAccess : Bool} {policy : Json}
    (h : Aws.vendPolicy print allowed location writeAccess = .ok (some policy)) :
    ∃ bucket keyPrefix, Aws.splitLocation location = some (bucket, keyPrefix) ∧
      policy = Aws.document (Aws.escapeIam bucket) (Aws.escapeIam keyPrefix) writeAccess := by
  unfold Aws.vendPolicy Aws.sessionPolicy at h
  split at h
  · split at h
    · cases h
    · next bucket keyPrefix hsplit =>
        simp only at h
        split at h
        · cases h
        · cases h
          exact ⟨bucket, keyPrefix, hsplit, rfl⟩
  · cases h

theorem Gcs.of_vendBoundary {allowed : List Text} {location : Text} {writeAccess : Bool}
    {boundary : Json} (h : Gcs.vendBoundary allowed location writeAccess = .ok (some boundary)) :
    ∃ bucket keyPrefix, Gcs.splitLocation location = some (bucket, keyPrefix) ∧
      boundary = Gcs.accessBoundary bucket keyPrefix writeAccess := by
  unfold Gcs.vendBoundary at h
  split at h
  · split at h
    · cases h
    · next bucket keyPrefix hsplit =>
        cases h
        exact ⟨bucket, keyPrefix, hsplit, rfl⟩
  · cases h

/-- A vended credential reaches the keys properly below the table's own, in the
table's bucket: the objects inside the location other than the location. -/
theorem credentials_exact (print : Json → Text) (allowed : List Text) (location : Text)
    (writeAccess : Bool) :
    (∀ policy, Aws.vendPolicy print allowed location writeAccess = .ok (some policy) →
      ∃ bucket keyPrefix, Aws.splitLocation location = some (bucket, keyPrefix) ∧
        ∀ b k, '/' ∉ b → ∀ action ∈ Aws.objectActions writeAccess,
          (Iam.allows [] action.toList (Aws.bucketArn b ++ '/' :: k) policy = true ↔
            b = bucket ∧ KeyBelow keyPrefix k) ∧
          (bucket ≠ [] → b ≠ [] → k ≠ [] → climbs (objectLocation "s3" b k) = false →
            (Iam.allows [] action.toList (Aws.bucketArn b ++ '/' :: k) policy = true ↔
              isWithin location (objectLocation "s3" b k) = true ∧
                ¬ (b = bucket ∧ k = keyPrefix)))) ∧
    (∀ boundary, Gcs.vendBoundary allowed location writeAccess = .ok (some boundary) →
      ∃ bucket keyPrefix, Gcs.splitLocation location = some (bucket, keyPrefix) ∧
        ∀ b k, '/' ∉ b →
          (AccessBoundary.available b k boundary = true → b = bucket ∧ KeyBelow keyPrefix k) ∧
          ((∀ c ∈ location, Cel.isLineBreak c = false) →
            (AccessBoundary.available b k boundary = true ↔ b = bucket ∧ KeyBelow keyPrefix k) ∧
            (bucket ≠ [] → b ≠ [] → k ≠ [] → climbs (objectLocation "gs" b k) = false →
              (AccessBoundary.available b k boundary = true ↔
                isWithin location (objectLocation "gs" b k) = true ∧
                  ¬ (b = bucket ∧ k = keyPrefix))))) := by
  constructor
  · intro policy hpolicy
    obtain ⟨bucket, keyPrefix, hsplit, rfl⟩ := Aws.of_vendPolicy hpolicy
    refine ⟨bucket, keyPrefix, hsplit, fun b k hb action haction => ?_⟩
    obtain ⟨-, -, -, -, hbucket, -⟩ := splitBucket_eq_some hsplit
    have hallows : Iam.allows [] action.toList (Aws.bucketArn b ++ '/' :: k) (Aws.document
        (Aws.escapeIam bucket) (Aws.escapeIam keyPrefix) writeAccess) = true ↔
          b = bucket ∧ KeyBelow keyPrefix k := Aws.allows_document_iff hbucket hb haction
    refine ⟨hallows, fun hne hbne hk hclimbs => hallows.trans ?_⟩
    exact keyBelow_iff_isWithin Aws.schemes_named (by decide) (by decide) hsplit
      hne hb hbne hk hclimbs
  · intro boundary hboundary
    obtain ⟨bucket, keyPrefix, hsplit, rfl⟩ := Gcs.of_vendBoundary hboundary
    refine ⟨bucket, keyPrefix, hsplit, fun b k hb => ?_⟩
    obtain ⟨-, -, -, -, hbucket, -⟩ := splitBucket_eq_some hsplit
    have havailable : AccessBoundary.available b k
        (Gcs.accessBoundary bucket keyPrefix writeAccess) = true ↔ b = bucket ∧
          KeyBelow keyPrefix k ∧
            (keyPrefix = [] ∨ ∀ c ∈ bucket ++ keyPrefix, Cel.isLineBreak c = false) :=
      Gcs.available_boundary_iff hbucket hb writeAccess
    refine ⟨fun h => ?_, fun hplain => ?_⟩
    · obtain ⟨hbucket, hbelow, -⟩ := havailable.mp h
      exact ⟨hbucket, hbelow⟩
    · have hbreak : ∀ c ∈ bucket ++ keyPrefix, Cel.isLineBreak c = false := fun c hc =>
        hplain c (mem_splitBucket hsplit hc)
      have hreads := havailable.trans
        (and_congr_right fun _ => and_iff_left (Or.inr hbreak))
      refine ⟨hreads, fun hne hbne hk hclimbs => hreads.trans ?_⟩
      exact keyBelow_iff_isWithin Gcs.schemes_named (by decide) (by decide) hsplit
        hne hb hbne hk hclimbs

/-- A key with `..` in it is a name like any other to the boundary and outside
to `is_within`; a location that ends in a line break has a boundary that
reads for no object. -/
theorem credentials_not_exact :
    (Gcs.vendBoundary ["gs://b".toList] "gs://b/t".toList false =
        .ok (some (Gcs.accessBoundary ['b'] ['t'] false)) ∧
      AccessBoundary.available ['b'] "t/../u".toList (Gcs.accessBoundary ['b'] ['t'] false) =
        true ∧
      isWithin "gs://b/t".toList (objectLocation "gs" ['b'] "t/../u".toList) = false) ∧
    (Gcs.vendBoundary ["gs://b".toList] "gs://b/t\n".toList false =
        .ok (some (Gcs.accessBoundary ['b'] "t\n".toList false)) ∧
      AccessBoundary.available ['b'] "t\n/x".toList
        (Gcs.accessBoundary ['b'] "t\n".toList false) = false ∧
      isWithin "gs://b/t\n".toList (objectLocation "gs" ['b'] "t\n/x".toList) = true) := by
  have hvend : ∀ location bucket keyPrefix : Text, isVendable ["gs://b".toList] location = true →
      Gcs.splitLocation location = some (bucket, keyPrefix) →
        Gcs.vendBoundary ["gs://b".toList] location false =
          .ok (some (Gcs.accessBoundary bucket keyPrefix false)) := by
    intro location bucket keyPrefix hvendable hsplit
    rw [Gcs.vendBoundary, if_pos hvendable, hsplit]
  have hslash : '/' ∉ ['b'] := by decide
  refine ⟨⟨hvend _ _ _ (by decide) (by decide), ?_, by decide⟩,
    hvend _ _ _ (by decide) (by decide), ?_, by decide⟩
  · exact (Gcs.available_boundary_iff hslash hslash false).mpr
      ⟨rfl, Or.inr (by decide),
        Or.inr (List.forall_mem_cons.mpr ⟨by decide, List.forall_mem_singleton.mpr (by decide)⟩)⟩
  · refine Bool.eq_false_iff.mpr fun h => ?_
    obtain ⟨-, -, hroot | hplain⟩ := (Gcs.available_boundary_iff hslash hslash false).mp h
    · exact absurd hroot (by decide)
    · exact absurd (hplain '\n' (by decide)) (by decide)

end Rustberg
