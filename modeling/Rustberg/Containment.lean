import Rustberg.Location

/-!
# Containment on an object store

What `is_within` and `is_prefix_within` decide, said in the words of an
object store: a bucket, and the segments of a key in it. `ObjectLocation`
is read off a location without `segments`; `isWithin_exact` is the
characterization, and `isWithin_of_startsWith` says what a listing by a
prefix can return.
-/

namespace Rustberg

/-- What a location names on an object store. -/
structure ObjectLocation where
  store : Text
  bucket : Text
  key : List Text
  deriving DecidableEq

/-- The path of a location, without the slash that separates nothing. -/
def objectPath (location : Text) : Text :=
  (Text.stripPrefix (split location).2 ['/']).getD (split location).2

/-- The bucket is what stands before the first `/`, the key what stands after it. -/
def objectAt (location : Text) : ObjectLocation :=
  match Text.splitOnce '/' (objectPath location) with
  | some (bucket, key) => ⟨(split location).1, bucket, key.splitOn '/'⟩
  | none => ⟨(split location).1, objectPath location, []⟩

/-- On an object store rather than a filesystem. -/
def OnObjectStore (location : Text) : Prop := (split location).1 ≠ fileScheme

instance : DecidablePred OnObjectStore := fun location =>
  inferInstanceAs (Decidable ((split location).1 ≠ fileScheme))

namespace ObjectLocation

/-- No `..` among the segments. -/
def Straight (o : ObjectLocation) : Prop := o.bucket ≠ parentSegment ∧ parentSegment ∉ o.key

/-- The segments of a root's key: trailing empty ones are not counted. -/
def rootKey (o : ObjectLocation) : List Text := o.key.rdropWhile List.isEmpty

/-- A root such as `s3://`, which names neither a bucket nor a key. -/
def NamesStoreOnly (o : ObjectLocation) : Prop := o.bucket = [] ∧ o.rootKey = []

/-- The same bucket, and the root's key segments first in the key. -/
structure Holds (root candidate : ObjectLocation) : Prop where
  store : root.store = candidate.store
  bucket : root.bucket = candidate.bucket
  key : root.rootKey <+: candidate.key

end ObjectLocation

/-! ## The segments are the bucket and the key -/

theorem splitOn_objectPath (location : Text) :
    (objectPath location).splitOn '/' =
      (objectAt location).bucket :: (objectAt location).key := by
  unfold objectAt
  cases honce : Text.splitOnce '/' (objectPath location) with
  | none => exact List.splitOn_eq_singleton (Text.splitOnce_eq_none.mp honce)
  | some parts =>
      obtain ⟨hpath, hbucket⟩ := Text.splitOnce_eq_some.mp honce
      rw [hpath, List.splitOn_append_cons_self, List.splitOn_eq_singleton hbucket]
      rfl

theorem objectAt_store (location : Text) :
    (objectAt location).store = (split location).1 := by
  unfold objectAt
  split <;> rfl

theorem path_eq_of_file {location : Text} (hfile : (split location).1 = fileScheme) :
    (place location).path = ((objectPath location).splitOn '/').filter (· ≠ []) := by
  have hempty : ∀ rest : Text, ('/' :: rest).splitOn '/' = [] :: rest.splitOn '/' := fun rest =>
    List.splitOn_append_cons_self [] rest
  simp only [place, segments, hfile, if_true, objectPath]
  cases hstrip : Text.stripPrefix (split location).2 ['/'] with
  | none => rfl
  | some rest =>
      rw [Text.stripPrefix_eq_some.mp hstrip, List.singleton_append, hempty]
      rfl

theorem path_eq {location : Text} (hstore : OnObjectStore location) :
    (place location).path =
      if objectPath location = [] then [] else (objectPath location).splitOn '/' := by
  simp only [place, segments, if_neg hstore]
  rfl

theorem objectAt_of_path_nil {location : Text} (h : objectPath location = []) :
    (objectAt location).bucket = [] ∧ (objectAt location).key = [] := by
  have hsplit := splitOn_objectPath location
  rw [h] at hsplit
  obtain ⟨hbucket, hkey⟩ := List.cons.inj hsplit
  exact ⟨hbucket.symm, hkey.symm⟩

theorem straight_iff {location : Text} (hstore : OnObjectStore location) :
    climbs location = false ↔ (objectAt location).Straight := by
  rw [climbs, path_eq hstore, ObjectLocation.Straight]
  by_cases hpath : objectPath location = []
  · obtain ⟨hbucket, hkey⟩ := objectAt_of_path_nil hpath
    simp [hpath, hbucket, hkey, parentSegment]
  · rw [if_neg hpath, splitOn_objectPath, List.contains_eq_mem, decide_eq_false_iff_not,
      List.mem_cons, not_or, ne_comm]

theorem rdropWhile_cons {α : Type*} (f : α → Bool) (x : α) (xs : List α) :
    (x :: xs).rdropWhile f =
      if xs.rdropWhile f = [] then (if f x then [] else [x]) else x :: xs.rdropWhile f := by
  simp only [List.rdropWhile, List.reverse_cons, List.dropWhile_append, List.isEmpty_iff,
    List.reverse_eq_nil_iff]
  split
  · cases hx : f x <;> simp [hx]
  · simp

/-- What is left of a root's segments once its trailing slashes are gone. -/
theorem trimmed_path {root : Text} (hstore : OnObjectStore root) :
    (place root).trimmed.path = [] ∧ (objectAt root).NamesStoreOnly ∨
      (place root).trimmed.path = (objectAt root).bucket :: (objectAt root).rootKey ∧
        ¬ (objectAt root).NamesStoreOnly := by
  simp only [Place.trimmed, path_eq hstore, ObjectLocation.NamesStoreOnly, ObjectLocation.rootKey]
  by_cases hpath : objectPath root = []
  · obtain ⟨hbucket, hkey⟩ := objectAt_of_path_nil hpath
    simp [hpath, hbucket, hkey]
  · rw [if_neg hpath, splitOn_objectPath, rdropWhile_cons]
    by_cases hkey : (objectAt root).key.rdropWhile List.isEmpty = []
    · by_cases hbucket : (objectAt root).bucket = [] <;> simp [hkey, hbucket]
    · exact Or.inr ⟨if_neg hkey, fun h => hkey h.2⟩

theorem OnObjectStore.of_store_eq {root candidate : Text} (hroot : OnObjectStore root)
    (h : (objectAt root).store = (objectAt candidate).store) :
    OnObjectStore candidate := by
  rw [objectAt_store, objectAt_store] at h
  exact fun hfile => hroot (h.trans hfile)

theorem place_contains_iff {root candidate : Text} (hstore : OnObjectStore root) :
    (place root).trimmed.Contains (place candidate) ↔
      (objectAt root).store = (objectAt candidate).store ∧
        (place root).trimmed.path <+: (place candidate).path := by
  rw [objectAt_store, objectAt_store]
  constructor
  · exact fun h => ⟨h.1, h.2.2⟩
  · rintro ⟨hsame, hpath⟩
    have hcandidate : (split candidate).1 ≠ fileScheme := hsame ▸ hstore
    have hrooted : (place root).trimmed.rooted = (place candidate).rooted := by
      have hroot : (split root).1 ≠ fileScheme := hstore
      simp [Place.trimmed, place, hroot, hcandidate]
    exact ⟨hsame, hrooted, hpath⟩

/-- A root with a bucket or a key holds what is in that bucket, below that key. -/
theorem isWithin_iff_holds {root candidate : Text} (hstore : OnObjectStore root)
    (hnamed : ¬ (objectAt root).NamesStoreOnly) :
    isWithin root candidate = true ↔ (objectAt candidate).Straight ∧
      (objectAt root).Holds (objectAt candidate) := by
  obtain ⟨-, h⟩ | ⟨htrimmed, -⟩ := trimmed_path hstore
  · exact absurd h hnamed
  rw [isWithin_iff, place_contains_iff hstore, htrimmed]
  have hpath : OnObjectStore candidate → ((objectAt root).bucket ::
        (objectAt root).rootKey <+: (place candidate).path ↔
      (objectAt root).bucket = (objectAt candidate).bucket ∧
        (objectAt root).rootKey <+: (objectAt candidate).key) := by
    intro hcandidate
    rw [path_eq hcandidate]
    by_cases hnil : objectPath candidate = []
    · -- A location without a path is in no bucket.
      obtain ⟨hbucket, hkey⟩ := objectAt_of_path_nil hnil
      rw [if_pos hnil, hbucket, hkey, List.prefix_nil, List.prefix_nil]
      exact ⟨fun h => absurd h (List.cons_ne_nil _ _), fun h => absurd h hnamed⟩
    · rw [if_neg hnil, splitOn_objectPath, List.cons_prefix_cons]
  constructor
  · rintro ⟨⟨hsame, hprefix⟩, hclimbs⟩
    have hcandidate := hstore.of_store_eq hsame
    obtain ⟨hbucket, hkey⟩ := (hpath hcandidate).mp hprefix
    exact ⟨(straight_iff hcandidate).mp hclimbs, hsame, hbucket, hkey⟩
  · rintro ⟨hstraight, hsame, hbucket, hkey⟩
    have hcandidate := hstore.of_store_eq hsame
    exact ⟨⟨hsame, (hpath hcandidate).mpr ⟨hbucket, hkey⟩⟩, (straight_iff hcandidate).mpr hstraight⟩

/-- A root that names its store only holds all of it. -/
theorem isWithin_iff_store {root candidate : Text} (hstore : OnObjectStore root)
    (hnamed : (objectAt root).NamesStoreOnly) :
    isWithin root candidate = true ↔ (objectAt candidate).Straight ∧
      (objectAt root).store = (objectAt candidate).store := by
  obtain ⟨htrimmed, -⟩ | ⟨-, h⟩ := trimmed_path hstore
  swap
  · exact absurd hnamed h
  rw [isWithin_iff, place_contains_iff hstore, htrimmed, and_comm]
  constructor
  · rintro ⟨hclimbs, hsame, -⟩
    exact ⟨(straight_iff (hstore.of_store_eq hsame)).mp hclimbs, hsame⟩
  · rintro ⟨hstraight, hsame⟩
    exact ⟨(straight_iff (hstore.of_store_eq hsame)).mpr hstraight, hsame, List.nil_prefix⟩

/-! ## Reflexivity, transitivity, siblings -/

theorem isWithin_refl {location : Text} (h : climbs location = false) :
    isWithin location location = true :=
  isWithin_iff.mpr ⟨⟨rfl, rfl, List.rdropWhile_prefix _ _⟩, h⟩

theorem splitOnceStr_none_of_notMem {w : Text} (hw : '/' ∉ w) :
    Text.splitOnceStr "://".toList w = none := by
  cases h : Text.splitOnceStr "://".toList w with
  | none => rfl
  | some parts =>
      have hmem : '/' ∈ w := by
        rw [Text.splitOnceStr_eq_some h]
        simp
      exact absurd hmem hw

/-- What is written after a location, without a slash, is written after its path. -/
theorem split_extend {location w : Text} (hstore : OnObjectStore location) (hw : '/' ∉ w) :
    split (location ++ w) = ((split location).1, (split location).2 ++ w) := by
  have hcross : ∀ x, x ≠ [] → x <:+ location → "://".toList <+: x ++ w → "://".toList <+: x := by
    intro x hx _ hpat
    change [':', '/', '/'] <+: x ++ w at hpat
    -- The last character of the separator is a slash, and `w` has none.
    match x with
    | [a] =>
        have h : '/' ∈ w := List.IsPrefix.subset (List.cons_prefix_cons.mp hpat).2 (by simp)
        exact absurd h hw
    | [a, b] =>
        have h : '/' ∈ w := List.IsPrefix.subset
          (List.cons_prefix_cons.mp (List.cons_prefix_cons.mp hpat).2).2 (by simp)
        exact absurd h hw
    | a :: b :: c :: x =>
        exact List.prefix_of_prefix_length_le hpat (List.prefix_append ..) (by simp)
  have hstr := Text.splitOnceStr_append hcross (splitOnceStr_none_of_notMem hw)
  cases hauthority : Text.splitOnceStr "://".toList location with
  | some parts =>
      rw [hauthority] at hstr
      rw [split_authority hauthority, split_authority hstr]
  | none =>
      rw [hauthority] at hstr
      by_cases hscheme : ∃ a b, Text.splitOnce ':' location = some (a, b) ∧
          isScheme a = true ∧ isAbsolute b = true
      · obtain ⟨a, b, honce, ha, hb⟩ := hscheme
        obtain ⟨hlocation, hcolon⟩ := Text.splitOnce_eq_some.mp honce
        have hlong : Text.splitOnce ':' (location ++ w) = some (a, b ++ w) :=
          Text.splitOnce_eq_some.mpr ⟨by simp [hlocation], hcolon⟩
        have hne : b ≠ [] := by
          rintro rfl
          cases hb
        rw [split_scheme hauthority honce ha hb,
          split_scheme hstr hlong ha ((isAbsolute_append hne).trans hb)]
      · have hfile : split location = (fileScheme, location) :=
          split_path hauthority fun a b honce ha =>
            Bool.eq_false_iff.mpr fun hb => hscheme ⟨a, b, honce, ha, hb⟩
        exact absurd (by rw [hfile]) hstore

theorem objectPath_extend {location w : Text} (hstore : OnObjectStore location) (hw : '/' ∉ w) :
    objectPath (location ++ w) = objectPath location ++ w := by
  simp only [objectPath, split_extend hstore hw]
  cases hpath : (split location).2 with
  | nil =>
      have hhead : Text.stripPrefix w ['/'] = none := by
        rw [Text.stripPrefix_eq_none]
        exact fun h => hw (h.subset (List.mem_singleton_self _))
      rw [List.nil_append, hhead]
      rfl
  | cons c p =>
      by_cases hc : c = '/'
      · have hstrip : ∀ q : Text, Text.stripPrefix ('/' :: q) ['/'] = some q := fun q =>
          Text.stripPrefix_eq_some.mpr rfl
        rw [hc, List.cons_append, hstrip, hstrip]
        rfl
      · have hstrip : ∀ q : Text, Text.stripPrefix (c :: q) ['/'] = none := fun q => by
          rw [Text.stripPrefix_eq_none]
          exact fun h => hc (List.cons_prefix_cons.mp h).1.symm
        rw [List.cons_append, hstrip, hstrip]
        rfl

theorem getLast_of_suffix {p l : Text} (h : p <:+ l) (hne : p ≠ []) : p.getLast? = l.getLast? := by
  obtain ⟨front, rfl⟩ := h
  rw [List.getLast?_append_of_ne_nil front hne]

theorem getLast_of_split_nil {location : Text} (hstore : OnObjectStore location)
    (h : (split location).2 = []) : location.getLast? = some '/' := by
  cases hstr : Text.splitOnceStr "://".toList location with
  | some ab =>
      obtain ⟨a, b⟩ := ab
      obtain rfl : b = [] := by rwa [split_authority hstr] at h
      rw [Text.splitOnceStr_eq_some hstr, List.append_nil,
        List.getLast?_append_of_ne_nil a (by simp)]
      rfl
  | none =>
      by_cases hscheme : ∃ a b, Text.splitOnce ':' location = some (a, b) ∧
          isScheme a = true ∧ isAbsolute b = true
      · obtain ⟨a, b, honce, ha, hb⟩ := hscheme
        obtain rfl : b = [] := by rwa [split_scheme hstr honce ha hb] at h
        cases hb
      · have hfile : split location = (fileScheme, location) :=
          split_path hstr fun a b honce ha => Bool.eq_false_iff.mpr fun hb =>
            hscheme ⟨a, b, honce, ha, hb⟩
        exact absurd (by rw [hfile]) hstore

theorem objectPath_suffix (location : Text) : objectPath location <:+ (split location).2 := by
  unfold objectPath
  cases h : Text.stripPrefix (split location).2 ['/'] with
  | none => exact List.suffix_rfl
  | some rest => exact ⟨['/'], (Text.stripPrefix_eq_some.mp h).symm⟩

theorem objectPath_getLast {location : Text} (hstore : OnObjectStore location)
    (hlast : location.getLast? ≠ some '/') :
    objectPath location ≠ [] ∧ (objectPath location).getLast? ≠ some '/' := by
  have hpath : (split location).2 ≠ [] := fun h => hlast (getLast_of_split_nil hstore h)
  have hends := getLast_of_suffix (split_suffix location) hpath
  have hne : objectPath location ≠ [] := by
    intro h
    cases hstrip : Text.stripPrefix (split location).2 ['/'] with
    | none => exact hpath (by simpa [objectPath, hstrip] using h)
    | some rest =>
        obtain rfl : rest = [] := by simpa [objectPath, hstrip] using h
        rw [Text.stripPrefix_eq_some.mp hstrip] at hends
        exact hlast hends.symm
  exact ⟨hne, by rwa [getLast_of_suffix (objectPath_suffix location) hne, hends]⟩

/-- A sibling that goes on with the last segment's spelling is outside. -/
theorem isWithin_extend {root w : Text} (hstore : OnObjectStore root)
    (hlast : root.getLast? ≠ some '/') (hw : w ≠ []) (hslash : '/' ∉ w) :
    isWithin root (root ++ w) = false := by
  obtain ⟨hne, hpath⟩ := objectPath_getLast hstore hlast
  obtain ⟨base, last, hsplit, hnil, hext⟩ := Text.splitOn_append '/' (objectPath root)
  have hlast' : last ≠ [] := fun h => (hnil h).elim hne hpath
  have hpiece : '/' ∉ last := Text.notMem_of_mem_splitOn (s := objectPath root) (by simp [hsplit])
  have hstore' : OnObjectStore (root ++ w) := by
    rw [OnObjectStore, split_extend hstore hslash]
    exact hstore
  have hroot : (place root).trimmed.path = base ++ [last] := by
    rw [Place.trimmed, path_eq hstore, if_neg hne, hsplit,
      List.rdropWhile_concat_neg _ _ _ (by simpa using hlast')]
  have hlong : (place (root ++ w)).path = base ++ [last ++ w] := by
    rw [path_eq hstore', objectPath_extend hstore hslash, if_neg (by simp [hne]), hext,
      List.splitOn_eq_singleton (by simp [hpiece, hslash])]
  refine Bool.eq_false_iff.mpr fun hwithin => ?_
  have hprefix := (isWithin_iff.mp hwithin).1.2.2
  rw [hroot, hlong, List.prefix_append_right_inj, List.cons_prefix_cons] at hprefix
  exact hw (List.append_right_eq_self.mp hprefix.1.symm)

/-! ## The characterization -/

/-- Segment-wise containment in a bucket, without `..`. -/
def Contained (root candidate : ObjectLocation) : Prop :=
  candidate.Straight ∧ root.Holds candidate

/-- `is_within` on an object store: for a root with a bucket or a key it is
the bucket's identity and the prefix order of key segments, for a root that
names its store only the store's identity, in both without `..`. So it is
reflexive, transitive, and tells a sibling from a child. -/
theorem isWithin_exact :
    (∀ root candidate, OnObjectStore root → ¬ (objectAt root).NamesStoreOnly →
      (isWithin root candidate = true ↔
        Contained (objectAt root) (objectAt candidate))) ∧
    (∀ root candidate, OnObjectStore root → (objectAt root).NamesStoreOnly →
      (isWithin root candidate = true ↔ (objectAt candidate).Straight ∧
        (objectAt root).store = (objectAt candidate).store)) ∧
    (∀ location, OnObjectStore location → (objectAt location).Straight →
      isWithin location location = true) ∧
    (∀ a b c, isWithin a b = true → isWithin b c = true → isWithin a c = true) ∧
    ∀ root w, OnObjectStore root → root.getLast? ≠ some '/' → w ≠ [] → '/' ∉ w →
      isWithin root (root ++ w) = false :=
  ⟨fun _ _ hstore hnamed => isWithin_iff_holds hstore hnamed,
    fun _ _ hstore hnamed => isWithin_iff_store hstore hnamed,
    fun _ hstore hstraight => isWithin_refl ((straight_iff hstore).mpr hstraight),
    fun _ _ _ => isWithin_trans, fun _ _ => isWithin_extend⟩

/-- An alias of the scheme and a trailing slash do not matter, spelling does. -/
theorem isWithin_sales :
    (isWithin "s3a://lake/sales/".toList "s3://lake/sales/t".toList = true ↔
      Contained (objectAt "s3a://lake/sales/".toList)
        (objectAt "s3://lake/sales/t".toList)) ∧
      isWithin "s3://lake/sales".toList ("s3://lake/sales".toList ++ "-archive".toList) = false :=
  ⟨isWithin_exact.1 _ _ (by decide) (fun h => absurd h.1 (by decide)),
    isWithin_exact.2.2.2.2 _ _ (by decide) (by decide) (by decide) (by decide)⟩

/-- `s3://` names no bucket, and holds every one. -/
theorem store_root_holds_buckets :
    ¬ ∀ root candidate, OnObjectStore root → OnObjectStore candidate →
      (isWithin root candidate = true ↔
        Contained (objectAt root) (objectAt candidate)) := by
  intro h
  have hiff := h "s3://".toList "s3://lake/t".toList (by decide) (by decide)
  have hbucket := (hiff.mp (by decide)).2.bucket
  exact absurd hbucket (by decide)

/-! ## Prefixes of a listing -/

def isPrefixWithin (root candidate : Text) : Bool :=
  let (rootScheme, rootPath) := split root
  let (candidateScheme, candidatePath) := split candidate
  if rootScheme ≠ candidateScheme then false
  else if rootScheme = fileScheme ∧ isAbsolute rootPath ≠ isAbsolute candidatePath then false
  else
    let rootSegments := rootSegments rootPath rootScheme
    let candidateSegments := segments candidatePath candidateScheme
    if candidateSegments.contains parentSegment ||
        decide (candidateSegments.length < rootSegments.length) then false
    else if !(rootSegments.zip candidateSegments).all (fun (a, b) => a == b) then false
    else decide (rootSegments.length < candidateSegments.length) ||
      candidatePath.getLast? == some '/'

/-- A prefix is inside, and deeper than the root or ended by a slash. -/
theorem isPrefixWithin_iff {root candidate : Text} :
    isPrefixWithin root candidate = true ↔ isWithin root candidate = true ∧
      ((place root).trimmed.path.length < (place candidate).path.length ∨
        (split candidate).2.getLast? = some '/') := by
  simp only [isPrefixWithin, isWithin, Place.trimmed, place, rootSegments]
  obtain ⟨rootScheme, rootPath⟩ := split root
  obtain ⟨scheme, path⟩ := split candidate
  dsimp only
  by_cases hscheme : rootScheme ≠ scheme
  · rw [if_pos hscheme, if_pos hscheme]
    simp
  rw [if_neg hscheme, if_neg hscheme]
  by_cases hrooted : rootScheme = fileScheme ∧ isAbsolute rootPath ≠ isAbsolute path
  · rw [if_pos hrooted, if_pos hrooted]
    simp
  rw [if_neg hrooted, if_neg hrooted]
  cases hclimb : (segments path scheme).contains parentSegment with
  | true => simp
  | false =>
      by_cases hlen : (segments path scheme).length <
          ((segments rootPath rootScheme).rdropWhile List.isEmpty).length
      · simp [hlen]
      · by_cases hall : ((((segments rootPath rootScheme).rdropWhile List.isEmpty).zip
            (segments path scheme)).all fun x => x.1 == x.2) = true
        · simp only [hlen, hall, decide_false, Bool.or_false, Bool.not_true, Bool.false_eq_true,
            if_false, true_and, Bool.or_eq_true, beq_iff_eq]
          exact or_congr_left ⟨of_decide_eq_true, decide_eq_true⟩
        · simp [hlen, hall]

/-- The object's path goes on where the prefix ends, on the same store. -/
structure StartsWith (candidate object : Text) : Prop where
  store : (place candidate).scheme = (place object).scheme
  rooted : (place candidate).rooted = (place object).rooted
  path : objectPath candidate <+: objectPath object

/-- A path ended by a slash has an empty last segment. -/
theorem last_segment_nil {location : Text} {base : List Text} {last : Text}
    (hsplit : (objectPath location).splitOn '/' = base ++ [last])
    (hends : (split location).2.getLast? = some '/') : last = [] := by
  by_cases hnil : objectPath location = []
  · rw [hnil] at hsplit
    have hempty : [] ++ [[]] = base ++ [last] := hsplit
    exact (List.cons.inj (List.append_inj' hempty rfl).2).1.symm
  · rw [← getLast_of_suffix (objectPath_suffix location) hnil] at hends
    obtain ⟨front, hfront⟩ := List.getLast?_eq_some_iff.mp hends
    rw [hfront, List.splitOn_append_cons_self] at hsplit
    exact (List.cons.inj (List.append_inj' hsplit rfl).2).1.symm

theorem trimmed_ne_slash {p : Place} {base : List Text} : p.trimmed.path ≠ base ++ [[]] := by
  intro h
  have htwice : p.trimmed.path.rdropWhile List.isEmpty = p.trimmed.path :=
    List.rdropWhile_idempotent ..
  rw [h, List.rdropWhile_concat_pos _ _ _ rfl] at htwice
  have hlen := (List.rdropWhile_prefix List.isEmpty base).length_le
  rw [htwice, List.length_append, List.length_singleton] at hlen
  omega

/-- Whole segments of a prefix are segments of what starts with it, and an
accepted root is among them. -/
theorem isWithin_of_startsWith {root candidate object : Text}
    (hlisted : isPrefixWithin root candidate = true) (hstarts : StartsWith candidate object)
    (hclimbs : climbs object = false) : isWithin root object = true := by
  obtain ⟨hwithin, hdeeper⟩ := isPrefixWithin_iff.mp hlisted
  obtain ⟨⟨hscheme, hrooted, hpath⟩, -⟩ := isWithin_iff.mp hwithin
  refine isWithin_iff.mpr ⟨⟨hscheme.trans hstarts.store, hrooted.trans hstarts.rooted, ?_⟩, hclimbs⟩
  obtain ⟨base, last, hsplit, -, hext⟩ := Text.splitOn_append '/' (objectPath candidate)
  obtain ⟨rest, hrest⟩ := hstarts.path
  have hlong : (objectPath object).splitOn '/' = base ++ (last ++ rest).splitOn '/' := by
    rw [← hrest, hext]
  -- The root ends before the last segment of the prefix, which may go on.
  by_cases hfile : (split candidate).1 = fileScheme
  · have hfile' : (split object).1 = fileScheme := hstarts.store.symm.trans hfile
    rw [path_eq_of_file hfile, hsplit, List.filter_append] at hpath hdeeper
    rw [path_eq_of_file hfile', hlong, List.filter_append]
    refine List.IsPrefix.trans ?_ (List.prefix_append _ _)
    rcases hdeeper with hlen | hends
    · rw [List.length_append] at hlen
      have hone : ([last].filter fun s => decide (s ≠ [])).length ≤ 1 := List.length_filter_le _ _
      generalize ([last].filter fun s => decide (s ≠ [])).length = count at hlen hone
      exact List.prefix_of_prefix_length_le hpath (List.prefix_append _ _) (by omega)
    · rw [last_segment_nil hsplit hends] at hpath
      simpa using hpath
  · have hfile' : OnObjectStore object := fun h => hfile (hstarts.store.trans h)
    rw [path_eq hfile] at hpath hdeeper
    rw [path_eq hfile', hlong]
    by_cases hnil : objectPath candidate = []
    · rw [if_pos hnil, List.prefix_nil] at hpath
      rw [hpath]
      exact List.nil_prefix
    rw [if_neg hnil, hsplit] at hpath hdeeper
    rw [if_neg (by rw [← hrest]; simp [hnil])]
    refine List.IsPrefix.trans ?_ (List.prefix_append _ _)
    refine List.prefix_of_prefix_length_le hpath (List.prefix_append _ _) ?_
    rw [List.length_append, List.length_singleton] at hdeeper
    rcases hdeeper with hlen | hends
    · omega
    · rw [last_segment_nil hsplit hends] at hpath
      have hle := hpath.length_le
      rw [List.length_append, List.length_singleton] at hle
      have hne : (place root).trimmed.path.length ≠ base.length + 1 := fun heq =>
        trimmed_ne_slash (hpath.eq_of_length (by simpa using heq))
      omega

end Rustberg
