import Rustberg.Names

/-!
# Storage locations and containment

The pure half of `location.rs`: reading a location (`split`, `segments`),
deciding containment (`isWithin`), and building the prefix a resource's
files live under (`namespacePrefix`, `canonicalPrefix`).

Over it stands `Place`: the store a location names and the segments of
its path. `isWithin_iff` reads the code's check as the prefix order on
places, with `..` excluded, and `place_below` computes the place of any
location that is a warehouse followed by valid names - the shape of every
location the registries assign.
-/

namespace Rustberg

/-! ## Reading a location -/

/-- The scheme of a local path. -/
def fileScheme : Text := "file".toList

/-- The segment that would climb out of its parent. -/
def parentSegment : Text := "..".toList

def canonicalScheme (scheme : Text) : Text :=
  if scheme ∈ ["s3".toList, "s3a".toList, "s3n".toList] then "s3".toList
  else if scheme ∈ ["gs".toList, "gcs".toList] then "gs".toList
  else if scheme ∈ ["abfs".toList, "abfss".toList, "az".toList, "adls".toList] then "abfs".toList
  else scheme

def isScheme (candidate : Text) : Bool :=
  1 < candidate.len && (candidate.head?.any Char.isAlpha) &&
    candidate.tail.all fun c => c.isAlphanum || c == '+' || c == '-' || c == '.'

/-- `path.starts_with('/')` -/
def isAbsolute (path : Text) : Bool := path.head? == some '/'

/-- The canonical scheme of a location and its path. -/
def split (location : Text) : Text × Text :=
  match Text.splitOnceStr "://".toList location with
  | some (scheme, rest) => (canonicalScheme scheme.toAsciiLowercase, rest)
  | none =>
      match Text.splitOnce ':' location with
      | some (scheme, rest) =>
          if isScheme scheme && isAbsolute rest then
            (canonicalScheme scheme.toAsciiLowercase, rest)
          else (fileScheme, location)
      | none => (fileScheme, location)

def segments (path scheme : Text) : List Text :=
  if scheme = fileScheme then (path.splitOn '/').filter (· ≠ [])
  else
    let path := (path.stripPrefix ['/']).getD path
    if path = [] then [] else path.splitOn '/'

def rootSegments (path scheme : Text) : List Text :=
  (segments path scheme).rdropWhile List.isEmpty

def isWithin (root candidate : Text) : Bool :=
  let (rootScheme, rootPath) := split root
  let (candidateScheme, candidatePath) := split candidate
  if rootScheme ≠ candidateScheme then false
  else if rootScheme = fileScheme ∧ isAbsolute rootPath ≠ isAbsolute candidatePath then false
  else
    let rootSegments := rootSegments rootPath rootScheme
    let candidateSegments := segments candidatePath candidateScheme
    if candidateSegments.contains parentSegment then false
    else if candidateSegments.length < rootSegments.length then false
    else (rootSegments.zip candidateSegments).all fun (a, b) => a == b

/-! ## Building a prefix -/

/-- `<warehouse>/<namespace…>`, with no trailing slash. -/
def joinSegments (warehouse : Text) (namespc : List Text) : Text :=
  namespc.foldl (fun out level => out ++ ['/'] ++ level) (warehouse.trimEndMatches '/')

def namespacePrefix (warehouse : Text) (namespc : List Text) : Text :=
  joinSegments warehouse namespc

def canonicalPrefix (warehouse : Text) (namespc : List Text) (name : Text) : Text :=
  joinSegments warehouse namespc ++ ['/'] ++ name

/-! ## Places

What the check is about: which store, and where in it. -/

/-- A store and a path in it. `rooted` tells an absolute local path from a
relative one; every other store is rooted. -/
structure Place where
  scheme : Text
  rooted : Bool
  path : List Text
  deriving DecidableEq

/-- `r` is `c`, or an ancestor of it. -/
def Place.Contains (r c : Place) : Prop :=
  r.scheme = c.scheme ∧ r.rooted = c.rooted ∧ r.path <+: c.path

def Place.extend (p : Place) (pieces : List Text) : Place :=
  { p with path := p.path ++ pieces }

theorem Place.Contains.trans {a b c : Place} (hab : a.Contains b) (hbc : b.Contains c) :
    a.Contains c :=
  ⟨hab.1.trans hbc.1, hab.2.1.trans hbc.2.1, hab.2.2.trans hbc.2.2⟩

/-- Two places that contain a third are nested. -/
theorem Place.Contains.comparable {a b c : Place} (ha : a.Contains c) (hb : b.Contains c) :
    a.Contains b ∨ b.Contains a := by
  have hscheme := ha.1.trans hb.1.symm
  have hrooted := ha.2.1.trans hb.2.1.symm
  rcases List.prefix_or_prefix_of_prefix ha.2.2 hb.2.2 with h | h
  · exact Or.inl ⟨hscheme, hrooted, h⟩
  · exact Or.inr ⟨hscheme.symm, hrooted.symm, h⟩

@[simp] theorem Place.contains_extend {p : Place} {xs ys : List Text} :
    (p.extend xs).Contains (p.extend ys) ↔ xs <+: ys := by
  simp [Place.Contains, Place.extend]

/-- The place a location names. -/
def place (location : Text) : Place where
  scheme := (split location).1
  rooted := (split location).1 ≠ fileScheme || isAbsolute (split location).2
  path := segments (split location).2 (split location).1

/-- A location with a `..` segment: `is_within` admits none. -/
def climbs (location : Text) : Bool := (place location).path.contains parentSegment

/-- A root's own trailing slashes do not count. -/
def Place.trimmed (p : Place) : Place := { p with path := p.path.rdropWhile List.isEmpty }

theorem all_zip_eq_iff_prefix {xs ys : List Text} (h : xs.length ≤ ys.length) :
    ((xs.zip ys).all fun (a, b) => a == b) = true ↔ xs <+: ys := by
  induction xs generalizing ys with
  | nil => simp
  | cons x xs ih =>
      cases ys with
      | nil => simp at h
      | cons y ys =>
          simp only [List.length_cons, Nat.add_le_add_iff_right] at h
          simp [List.cons_prefix_cons, ← ih h]

/-- The check is containment of places, for a candidate that does not climb. -/
theorem isWithin_iff {root candidate : Text} :
    isWithin root candidate = true ↔
      (place root).trimmed.Contains (place candidate) ∧ climbs candidate = false := by
  simp only [isWithin, Place.Contains, Place.trimmed, climbs, place, rootSegments]
  obtain ⟨rootScheme, rootPath⟩ := split root
  obtain ⟨scheme, path⟩ := split candidate
  dsimp only
  by_cases hscheme : rootScheme = scheme
  swap
  · simp [hscheme]
  subst hscheme
  rw [if_neg (by simp)]
  have hroot : ((rootScheme ≠ fileScheme || isAbsolute rootPath) =
        (rootScheme ≠ fileScheme || isAbsolute path)) ↔
      ¬ (rootScheme = fileScheme ∧ isAbsolute rootPath ≠ isAbsolute path) := by
    by_cases h : rootScheme = fileScheme <;> simp [h]
  rw [hroot]
  by_cases hrooted : rootScheme = fileScheme ∧ isAbsolute rootPath ≠ isAbsolute path
  · simp [hrooted]
  rw [if_neg hrooted]
  cases hclimb : (segments path rootScheme).contains parentSegment with
  | true => simp
  | false =>
      by_cases hlen : (segments path rootScheme).length <
          ((segments rootPath rootScheme).rdropWhile List.isEmpty).length
      · have hnot : ¬ (segments rootPath rootScheme).rdropWhile List.isEmpty <+:
            segments path rootScheme := fun h => absurd h.length_le (Nat.not_le.mpr hlen)
        simp [hlen, hnot]
      · rw [← all_zip_eq_iff_prefix (Nat.not_lt.mp hlen)]
        simp only [hlen, hrooted, not_false_eq_true, true_and, and_true, if_false,
          Bool.false_eq_true]

theorem rdropWhile_prefix_of_prefix {f : Text → Bool} {xs ys : List Text}
    (h : xs.rdropWhile f <+: ys) : xs.rdropWhile f <+: ys.rdropWhile f := by
  obtain ⟨rest, rfl⟩ := h
  induction rest using List.reverseRecOn with
  | nil => rw [List.append_nil, List.rdropWhile_idempotent]
  | append_singleton rest x ih =>
      rw [← List.append_assoc, List.rdropWhile_concat]
      split
      · exact ih
      · exact ⟨rest ++ [x], by rw [List.append_assoc]⟩

/-- A root contains what it contains without trailing slashes. -/
theorem Place.Contains.trimmed {r c : Place} (h : r.trimmed.Contains c) :
    r.trimmed.Contains c.trimmed :=
  ⟨h.1, h.2.1, rdropWhile_prefix_of_prefix h.2.2⟩

theorem climbs_eq_false_iff {location : Text} :
    climbs location = false ↔ parentSegment ∉ (place location).trimmed.path := by
  simp only [climbs, List.contains_eq_mem, decide_eq_false_iff_not, Place.trimmed]
  refine not_congr ⟨fun hmem => ?_, fun hmem => (List.rdropWhile_prefix _ _).subset hmem⟩
  rw [← List.rdropWhile_append_rtakeWhile (p := List.isEmpty) (l := (place location).path)] at hmem
  refine (List.mem_append.mp hmem).resolve_right fun htail => ?_
  have hempty := List.mem_rtakeWhile_imp htail
  simp [parentSegment] at hempty

theorem isWithin_trans {a b c : Text} (hab : isWithin a b = true) (hbc : isWithin b c = true) :
    isWithin a c = true := by
  obtain ⟨hab, -⟩ := isWithin_iff.mp hab
  obtain ⟨hbc, hclimb⟩ := isWithin_iff.mp hbc
  exact isWithin_iff.mpr ⟨hab.trimmed.trans hbc, hclimb⟩

/-- A location inside both of two roots makes one contain the other. -/
theorem isWithin_of_both {a b location : Text} (ha : isWithin a location = true)
    (hb : isWithin b location = true) : isWithin a b = true ∨ isWithin b a = true := by
  obtain ⟨ha, hclimb⟩ := isWithin_iff.mp ha
  obtain ⟨hb, -⟩ := isWithin_iff.mp hb
  have hstays : ∀ {r : Text}, (place r).trimmed.Contains (place location) → climbs r = false :=
    fun hr => by
      simp only [climbs, List.contains_eq_mem, decide_eq_false_iff_not] at hclimb
      exact climbs_eq_false_iff.mpr fun hmem => hclimb (hr.2.2.subset hmem)
  have hwithin : ∀ {r r' : Text}, (place r').trimmed.Contains (place location) →
      (place r).trimmed.Contains (place r').trimmed → isWithin r r' = true := fun hr' h =>
    isWithin_iff.mpr
      ⟨⟨h.1, h.2.1, h.2.2.trans (List.rdropWhile_prefix _ _)⟩, hstays hr'⟩
  rcases ha.comparable hb with h | h
  · exact Or.inl (hwithin hb h)
  · exact Or.inr (hwithin ha h)

/-! ## The place of a warehouse followed by names -/

/-- What a path piece must be for its `/`s to be the separators only. -/
def IsPiece (s : Text) : Prop := s ≠ [] ∧ '/' ∉ s

theorem ValidName.isPiece {u : UnicodeData} {name : Text} (h : ValidName u name) :
    IsPiece name :=
  ⟨h.ne_nil, h.slash_notMem⟩

/-- The place of `warehouse/`, without the empty segment its slash leaves. -/
def anchor (warehouse : Text) : Place :=
  let dir := place (warehouse ++ ['/'])
  { dir with path := if dir.scheme = fileScheme then dir.path else dir.path.dropLast }

section

variable {pieces : List Text}

theorem join_head_ne (hne : pieces ≠ []) (h : ∀ s ∈ pieces, IsPiece s) :
    (Text.join ['/'] pieces).head? ≠ some '/' := by
  obtain ⟨s, rest, rfl⟩ := List.exists_cons_of_ne_nil hne
  obtain ⟨hs, hslash⟩ := h s (List.mem_cons_self ..)
  obtain ⟨c, s, rfl⟩ := List.exists_cons_of_ne_nil hs
  have hc : c ≠ '/' := fun hc => hslash (hc ▸ List.mem_cons_self ..)
  cases rest with
  | nil => simpa [Text.join] using hc
  | cons t rest => simpa [Text.join, List.intercalate_cons_cons] using hc

theorem splitOn_append_join (hne : pieces ≠ []) (h : ∀ s ∈ pieces, IsPiece s) (q : Text) :
    (q ++ '/' :: Text.join ['/'] pieces).splitOn '/' = q.splitOn '/' ++ pieces := by
  rw [Text.cons_join hne]
  exact Text.splitOn_append_below q fun s hs => (h s hs).2

theorem splitOn_join (hne : pieces ≠ []) (h : ∀ s ∈ pieces, IsPiece s) :
    (Text.join ['/'] pieces).splitOn '/' = pieces :=
  List.splitOn_intercalate '/' (fun s hs => (h s hs).2) hne

/-- No `//`, and so no `://`, inside a path of nonempty pieces. -/
theorem splitOnceStr_join (hne : pieces ≠ []) (h : ∀ s ∈ pieces, IsPiece s) :
    Text.splitOnceStr "://".toList (Text.join ['/'] pieces) = none := by
  cases hs : Text.splitOnceStr "://".toList (Text.join ['/'] pieces) with
  | none => rfl
  | some ab =>
      obtain ⟨a, b⟩ := ab
      have hsplit : Text.join ['/'] pieces = (a ++ [':']) ++ '/' :: ([] ++ '/' :: b) := by
        simpa using Text.splitOnceStr_eq_some hs
      have hpieces := splitOn_join hne h
      rw [hsplit, List.splitOn_append_cons_self, List.splitOn_append_cons_self] at hpieces
      have hmem : [] ∈ pieces := by simp [← hpieces]
      exact absurd rfl (h [] hmem).1

theorem not_isScheme_of_slash {s : Text} (h : '/' ∈ s) : isScheme s = false := by
  cases s with
  | nil => simp at h
  | cons c s =>
      rcases List.mem_cons.mp h with rfl | h
      · simp [isScheme]
      · have : (s.all fun c => c.isAlphanum || c == '+' || c == '-' || c == '.') = false := by
          rw [List.all_eq_false]
          exact ⟨'/', h, by decide⟩
        simp [isScheme, this]

theorem isAbsolute_append {p q : Text} (hp : p ≠ []) : isAbsolute (p ++ q) = isAbsolute p := by
  obtain ⟨c, p, rfl⟩ := List.exists_cons_of_ne_nil hp
  rfl

/-- The `://` of a location that goes on below a directory is the directory's. -/
theorem splitOnceStr_append_join (hne : pieces ≠ []) (h : ∀ s ∈ pieces, IsPiece s) (v : Text) :
    Text.splitOnceStr "://".toList (v ++ ['/'] ++ Text.join ['/'] pieces) =
      (Text.splitOnceStr "://".toList (v ++ ['/'])).map
        fun (a, b) => (a, b ++ Text.join ['/'] pieces) := by
  refine Text.splitOnceStr_append (fun x hx hxv hpat => ?_) (splitOnceStr_join hne h)
  have hhead := join_head_ne hne h
  obtain ⟨y, rfl, -⟩ := (List.suffix_concat_iff.mp hxv).resolve_left hx
  match y with
  | [] => simp at hpat
  | [c] =>
      cases hj : Text.join ['/'] pieces with
      | nil => simp_all
      | cons d j =>
          rw [hj] at hhead hpat
          have hd : '/' = d := by simpa using (by simpa using hpat : ':' = c ∧ '/' = d).2
          exact absurd (by rw [← hd]; rfl) hhead
  | c :: d :: y =>
      exact List.prefix_of_prefix_length_le hpat (List.prefix_append ..) (by simp)

/-- Reading a location that goes on below a directory: the split falls inside
the directory. -/
theorem split_append (hne : pieces ≠ []) (h : ∀ s ∈ pieces, IsPiece s) (v : Text) :
    split (v ++ ['/'] ++ Text.join ['/'] pieces) =
      ((split (v ++ ['/'])).1, (split (v ++ ['/'])).2 ++ Text.join ['/'] pieces) := by
  have hstr := splitOnceStr_append_join hne h v
  unfold split
  rw [hstr]
  cases Text.splitOnceStr "://".toList (v ++ ['/']) with
  | some ab => rfl
  | none =>
      simp only [Option.map_none]
      cases hv : Text.splitOnce ':' (v ++ ['/']) with
      | some ab =>
          obtain ⟨a, b⟩ := ab
          obtain ⟨hab, ha⟩ := Text.splitOnce_eq_some.mp hv
          have hlong : Text.splitOnce ':' (v ++ ['/'] ++ Text.join ['/'] pieces) =
              some (a, b ++ Text.join ['/'] pieces) := by
            rw [Text.splitOnce_eq_some, hab]
            exact ⟨by simp, ha⟩
          have hb : b ≠ [] := by
            rintro rfl
            have := congrArg List.getLast? hab
            simp at this
          simp only [hlong, isAbsolute_append hb]
          split <;> rfl
      | none =>
          simp only
          cases hlong : Text.splitOnce ':' (v ++ ['/'] ++ Text.join ['/'] pieces) with
          | none => rfl
          | some ab =>
              obtain ⟨a, b⟩ := ab
              obtain ⟨hab, ha⟩ := Text.splitOnce_eq_some.mp hlong
              have hslash : '/' ∈ a := by
                have hle : a ++ [':'] <+: v ++ ['/'] ++ Text.join ['/'] pieces :=
                  ⟨b, by simp [hab]⟩
                rcases List.prefix_or_prefix_of_prefix hle (List.prefix_append ..) with hp | hp
                · exact absurd (hp.subset (by simp)) (Text.splitOnce_eq_none.mp hv)
                · simpa using hp.subset (List.mem_append_right v (List.mem_singleton_self '/'))
              simp [not_isScheme_of_slash hslash]

/-- The path of a location ends it. -/
theorem split_suffix (location : Text) : (split location).2 <:+ location := by
  unfold split
  cases hstr : Text.splitOnceStr "://".toList location with
  | some ab =>
      obtain ⟨a, b⟩ := ab
      exact ⟨a ++ "://".toList, by rw [Text.splitOnceStr_eq_some hstr, List.append_assoc]⟩
  | none =>
      cases hv : Text.splitOnce ':' location with
      | none => exact List.suffix_rfl
      | some ab =>
          obtain ⟨a, b⟩ := ab
          simp only
          split
          · exact ⟨a ++ [':'], by simp [(Text.splitOnce_eq_some.mp hv).1]⟩
          · exact List.suffix_rfl

theorem split_dir (v : Text) :
    (split (v ++ ['/'])).2 = [] ∨ ∃ q, (split (v ++ ['/'])).2 = q ++ ['/'] := by
  rcases List.suffix_concat_iff.mp (split_suffix (v ++ ['/'])) with h | ⟨q, h, -⟩
  · exact Or.inl h
  · exact Or.inr ⟨q, h⟩

/-- Outside `file`, one leading slash separates nothing. -/
theorem segments_rooted {scheme : Text} (hscheme : scheme ≠ fileScheme) (path : Text) :
    segments ('/' :: path) scheme = if path = [] then [] else path.splitOn '/' := by
  have : Text.stripPrefix ('/' :: path) ['/'] = some path := Text.stripPrefix_eq_some.mpr rfl
  simp only [segments, if_neg hscheme, this, Option.getD_some]

theorem segments_unrooted {scheme path : Text} (hscheme : scheme ≠ fileScheme)
    (hhead : path.head? ≠ some '/') :
    segments path scheme = if path = [] then [] else path.splitOn '/' := by
  have : Text.stripPrefix path ['/'] = none := by
    rw [Text.stripPrefix_eq_none]
    rintro ⟨t, rfl⟩
    exact hhead rfl
  simp only [segments, if_neg hscheme, this, Option.getD_none]

theorem join_ne_nil (hne : pieces ≠ []) (h : ∀ s ∈ pieces, IsPiece s) :
    Text.join ['/'] pieces ≠ [] := fun hnil => by
  have hjoin := splitOn_join hne h
  rw [hnil] at hjoin
  have : [[]] = pieces := hjoin
  subst this
  exact absurd rfl (h [] (List.mem_singleton_self _)).1

/-- The segments of a directory written with its slash: the slash leaves an
empty one outside `file`, and names below take its place. -/
theorem segments_append (hne : pieces ≠ []) (h : ∀ s ∈ pieces, IsPiece s) {dir scheme : Text}
    (hscheme : scheme ≠ fileScheme) (hdir : dir = [] ∨ ∃ q, dir = q ++ ['/']) :
    ∃ base, segments (dir ++ Text.join ['/'] pieces) scheme = base ++ pieces ∧
      (segments dir scheme = base ++ [[]] ∨ segments dir scheme = base ∧ base = []) := by
  have hhead := join_head_ne hne h
  have hjne := join_ne_nil hne h
  have hjoin := splitOn_join hne h
  rcases hdir with rfl | ⟨q, rfl⟩
  · refine ⟨[], ?_, Or.inr ⟨?_, rfl⟩⟩
    · rw [List.nil_append, segments_unrooted hscheme hhead, if_neg hjne, hjoin, List.nil_append]
    · rw [segments_unrooted hscheme (by simp), if_pos rfl]
  cases q with
  | nil =>
      refine ⟨[], ?_, Or.inr ⟨?_, rfl⟩⟩
      · rw [List.nil_append, List.singleton_append, segments_rooted hscheme, if_neg hjne, hjoin,
          List.nil_append]
      · rw [List.nil_append, segments_rooted hscheme, if_pos rfl]
  | cons c q =>
      by_cases hc : c = '/'
      · subst hc
        refine ⟨q.splitOn '/', ?_, Or.inl ?_⟩
        · rw [List.append_assoc, List.cons_append, segments_rooted hscheme, if_neg (by simp),
            List.singleton_append, splitOn_append_join hne h]
        · rw [List.cons_append, segments_rooted hscheme, if_neg (by simp),
            List.splitOn_append_cons_self]
          rfl
      · refine ⟨(c :: q).splitOn '/', ?_, Or.inl ?_⟩
        · rw [List.append_assoc, segments_unrooted hscheme (by simpa using hc), if_neg (by simp),
            List.singleton_append, splitOn_append_join hne h]
        · rw [segments_unrooted hscheme (by simpa using hc), if_neg (by simp),
            List.splitOn_append_cons_self]
          rfl

/-- On a filesystem empty segments fold, so names just follow. -/
theorem segments_append_file (hne : pieces ≠ []) (h : ∀ s ∈ pieces, IsPiece s) {dir : Text}
    (hdir : dir = [] ∨ ∃ q, dir = q ++ ['/']) :
    segments (dir ++ Text.join ['/'] pieces) fileScheme = segments dir fileScheme ++ pieces := by
  have hjoin := splitOn_join hne h
  have hpieces : pieces.filter (fun s => decide (s ≠ [])) = pieces :=
    List.filter_eq_self.mpr fun s hs => by simpa using (h s hs).1
  simp only [segments, if_true]
  rcases hdir with rfl | ⟨q, rfl⟩
  · rw [List.nil_append, hjoin, hpieces]
    simp
  · rw [List.append_assoc, List.singleton_append, splitOn_append_join hne h, List.filter_append,
      hpieces, List.splitOn_append_cons_self, List.filter_append]
    simp

/-- A warehouse followed by names is the warehouse's directory, extended. -/
theorem place_below (hne : pieces ≠ []) (h : ∀ s ∈ pieces, IsPiece s) (warehouse : Text) :
    place (warehouse ++ Text.below '/' pieces) = (anchor warehouse).extend pieces := by
  rw [← Text.cons_join hne, List.append_cons]
  have hdir := split_dir warehouse
  have hrooted : isAbsolute ((split (warehouse ++ ['/'])).2 ++ Text.join ['/'] pieces) =
      isAbsolute (split (warehouse ++ ['/'])).2 := by
    rcases hdir with hnil | ⟨q, hq⟩
    · simpa [hnil, isAbsolute] using join_head_ne hne h
    · exact isAbsolute_append (by simp [hq])
  simp only [place, anchor, Place.extend, split_append hne h, hrooted]
  by_cases hscheme : (split (warehouse ++ ['/'])).1 = fileScheme
  · simp only [hscheme, if_true, segments_append_file hne h hdir]
  · obtain ⟨base, hlong, hshort⟩ := segments_append hne h hscheme hdir
    have hbase : (segments (split (warehouse ++ ['/'])).2
        (split (warehouse ++ ['/'])).1).dropLast = base := by
      rcases hshort with hshort | ⟨hshort, hnil⟩
      · rw [hshort, List.dropLast_concat]
      · rw [hshort, hnil]; rfl
    simp only [if_neg hscheme, hlong, hbase]

theorem parent_mem_anchor (warehouse : Text) :
    parentSegment ∈ (anchor warehouse).path ↔ climbs (warehouse ++ ['/']) = true := by
  simp only [climbs, anchor, List.contains_iff_mem]
  by_cases hscheme : (place (warehouse ++ ['/'])).scheme = fileScheme
  · rw [if_pos hscheme]
  · -- any piece will do: the base does not depend on what follows
    have hx : IsPiece ['x'] := ⟨by simp, by simp⟩
    have hpieces : ∀ s ∈ [['x']], IsPiece s := by simpa using hx
    obtain ⟨base, -, hshort⟩ := segments_append (by simp) hpieces hscheme (split_dir warehouse)
    have hpath : (place (warehouse ++ ['/'])).path = base ++ [[]] ∨
        (place (warehouse ++ ['/'])).path = base ∧ base = [] := hshort
    rw [if_neg hscheme]
    rcases hpath with hpath | ⟨hpath, hnil⟩
    · rw [hpath, List.dropLast_concat]
      simp [parentSegment]
    · rw [hpath, hnil]; simp

/-- Names that are no `..` climb only where the warehouse does. -/
theorem climbs_below (hne : pieces ≠ []) (h : ∀ s ∈ pieces, IsPiece s)
    (hparent : parentSegment ∉ pieces) (warehouse : Text) :
    climbs (warehouse ++ Text.below '/' pieces) = climbs (warehouse ++ ['/']) := by
  rw [Bool.eq_iff_iff, ← parent_mem_anchor]
  simp [climbs, place_below hne h, Place.extend, hparent]

theorem trimmed_extend (hne : pieces ≠ []) (h : ∀ s ∈ pieces, IsPiece s) (p : Place) :
    (p.extend pieces).trimmed = p.extend pieces := by
  obtain ⟨init, last, rfl⟩ := (List.eq_nil_or_concat' pieces).resolve_left hne
  have hlast : last ≠ [] := (h last (by simp)).1
  simp [Place.trimmed, Place.extend, ← List.append_assoc, List.rdropWhile_concat_neg, hlast]

/-- Containment between locations below one warehouse: a prefix of the names. -/
theorem isWithin_below {pieces' : List Text} (hne : pieces ≠ []) (h : ∀ s ∈ pieces, IsPiece s)
    (hne' : pieces' ≠ []) (h' : ∀ s ∈ pieces', IsPiece s) (hparent : parentSegment ∉ pieces')
    (warehouse : Text) :
    isWithin (warehouse ++ Text.below '/' pieces) (warehouse ++ Text.below '/' pieces') = true ↔
      pieces <+: pieces' ∧ climbs (warehouse ++ ['/']) = false := by
  rw [isWithin_iff, climbs_below hne' h' hparent, place_below hne h, place_below hne' h']
  rw [trimmed_extend hne h, Place.contains_extend]

end

theorem joinSegments_eq (warehouse : Text) (namespc : List Text) :
    joinSegments warehouse namespc = warehouse.trimEndMatches '/' ++ Text.below '/' namespc := by
  have key : ∀ out : Text, namespc.foldl (fun out level => out ++ ['/'] ++ level) out =
      out ++ Text.below '/' namespc := by
    induction namespc with
    | nil => simp [Text.below]
    | cons s rest ih =>
        intro out
        rw [List.foldl_cons, ih]
        simp [Text.below]
  exact key _

theorem canonicalPrefix_eq (warehouse : Text) (namespc : List Text) (name : Text) :
    canonicalPrefix warehouse namespc name =
      warehouse.trimEndMatches '/' ++ Text.below '/' (namespc ++ [name]) := by
  simp [canonicalPrefix, joinSegments_eq, Text.below]

/-! ## Trailing slashes -/

/-- The location has more to its path than separators. -/
def NamesPath (location : Text) : Prop := ∃ c ∈ (split location).2, c ≠ '/'

theorem split_authority {s a b : Text} (h : Text.splitOnceStr "://".toList s = some (a, b)) :
    split s = (canonicalScheme a.toAsciiLowercase, b) := by
  unfold split
  rw [h]

theorem split_scheme {s a b : Text} (hstr : Text.splitOnceStr "://".toList s = none)
    (h : Text.splitOnce ':' s = some (a, b)) (ha : isScheme a = true) (hb : isAbsolute b = true) :
    split s = (canonicalScheme a.toAsciiLowercase, b) := by
  unfold split
  rw [hstr]
  simp [h, ha, hb]

theorem split_path {s : Text} (hstr : Text.splitOnceStr "://".toList s = none)
    (h : ∀ a b, Text.splitOnce ':' s = some (a, b) → isScheme a = true → isAbsolute b = false) :
    split s = (fileScheme, s) := by
  unfold split
  rw [hstr]
  cases hs : Text.splitOnce ':' s with
  | none => rfl
  | some ab =>
      obtain ⟨a, b⟩ := ab
      cases ha : isScheme a with
      | false => simp [ha]
      | true => simp [ha, h a b hs ha]

/-- A trailing slash belongs to the path. -/
theorem split_slash {s : Text} (h : NamesPath (s ++ ['/'])) :
    split (s ++ ['/']) = ((split s).1, (split s).2 ++ ['/']) := by
  obtain ⟨c, hc, hslash⟩ := h
  cases hstr : Text.splitOnceStr "://".toList (s ++ ['/']) with
  | some ab =>
      obtain ⟨a, b⟩ := ab
      rw [split_authority hstr] at hc
      obtain ⟨q, d, rfl⟩ := (List.eq_nil_or_concat' b).resolve_left (List.ne_nil_of_mem hc)
      have hsplit : s ++ ['/'] = (a ++ ("://".toList ++ q)) ++ [d] := by
        simpa using Text.splitOnceStr_eq_some hstr
      obtain ⟨rfl, hd⟩ := List.append_inj' hsplit rfl
      obtain rfl : '/' = d := by simpa using hd
      rw [split_authority hstr, split_authority (Text.splitOnceStr_of_append (by decide) hstr)]
  | none =>
      have hshort : Text.splitOnceStr "://".toList s = none := by
        cases hs : Text.splitOnceStr "://".toList s with
        | none => rfl
        | some ab =>
            rw [Text.splitOnceStr_append_of_some hs] at hstr
            cases hstr
      by_cases hscheme : ∃ a b, Text.splitOnce ':' (s ++ ['/']) = some (a, b) ∧
          isScheme a = true ∧ isAbsolute b = true
      · obtain ⟨a, b, hone, ha, hb⟩ := hscheme
        rw [split_scheme hstr hone ha hb] at hc ⊢
        obtain ⟨q, d, rfl⟩ := (List.eq_nil_or_concat' b).resolve_left (List.ne_nil_of_mem hc)
        obtain ⟨hs, hcolon⟩ := Text.splitOnce_eq_some.mp hone
        have hsplit : s ++ ['/'] = (a ++ ':' :: q) ++ [d] := by simpa using hs
        obtain ⟨rfl, hd⟩ := List.append_inj' hsplit rfl
        obtain rfl : '/' = d := by simpa using hd
        have hq : q ≠ [] := by
          rintro rfl
          exact hslash (by simpa using hc)
        rw [split_scheme hshort (Text.splitOnce_eq_some.mpr ⟨rfl, hcolon⟩) ha
          (by rwa [isAbsolute_append hq] at hb)]
      · have hpath : ∀ a b, Text.splitOnce ':' (s ++ ['/']) = some (a, b) →
            isScheme a = true → isAbsolute b = false := fun a b hone ha =>
          Bool.eq_false_iff.mpr fun hb => hscheme ⟨a, b, hone, ha, hb⟩
        have hpath' : ∀ a b, Text.splitOnce ':' s = some (a, b) →
            isScheme a = true → isAbsolute b = false := fun a b hone ha => by
          obtain ⟨hs, hcolon⟩ := Text.splitOnce_eq_some.mp hone
          by_cases hb : b = []
          · rw [hb]
            rfl
          · have hone' : Text.splitOnce ':' (s ++ ['/']) = some (a, b ++ ['/']) :=
              Text.splitOnce_eq_some.mpr ⟨by simp [hs], hcolon⟩
            rw [← isAbsolute_append hb]
            exact hpath a _ hone' ha
        rw [split_path hstr hpath, split_path hshort hpath']

theorem segments_slash {p scheme : Text} (h : ∃ c ∈ p, c ≠ '/') :
    (segments (p ++ ['/']) scheme).rdropWhile List.isEmpty =
      (segments p scheme).rdropWhile List.isEmpty := by
  have hsplitOn : ∀ q : Text, (q ++ ['/']).splitOn '/' = q.splitOn '/' ++ [[]] := fun q => by
    rw [List.splitOn_append_cons_self]
    rfl
  by_cases hscheme : scheme = fileScheme
  · simp [segments, hscheme, hsplitOn, List.filter_append]
  · obtain ⟨c, hc, hslash⟩ := h
    obtain ⟨d, q, rfl⟩ := List.exists_cons_of_ne_nil (List.ne_nil_of_mem hc)
    by_cases hd : d = '/'
    · subst hd
      have hq : q ≠ [] := List.ne_nil_of_mem ((List.mem_cons.mp hc).resolve_left hslash)
      rw [List.cons_append, segments_rooted hscheme, segments_rooted hscheme, if_neg hq,
        if_neg (by simp), hsplitOn, List.rdropWhile_concat_pos _ _ _ rfl]
    · have hhead : ∀ q' : Text, (d :: q').head? ≠ some '/' := fun q' => by simpa using hd
      rw [List.cons_append, segments_unrooted hscheme (hhead _),
        segments_unrooted hscheme (hhead _),
        if_neg (by simp), if_neg (by simp), ← List.cons_append, hsplitOn,
        List.rdropWhile_concat_pos _ _ _ rfl]

/-- Trailing slashes do not tell places apart, below the root of a store. -/
theorem place_slash {s : Text} (h : NamesPath (s ++ ['/'])) :
    NamesPath s ∧ (place (s ++ ['/'])).trimmed = (place s).trimmed := by
  have hsplit := split_slash h
  have hnamed : NamesPath s := by
    obtain ⟨c, hc, hslash⟩ := h
    rw [hsplit] at hc
    exact ⟨c, (List.mem_append.mp hc).resolve_right (by simpa using hslash), hslash⟩
  have hne : (split s).2 ≠ [] := by
    obtain ⟨c, hc, -⟩ := hnamed
    exact List.ne_nil_of_mem hc
  refine ⟨hnamed, ?_⟩
  simp only [place, Place.trimmed, hsplit, isAbsolute_append hne, segments_slash hnamed]

theorem place_trimEnd {s : Text} (h : NamesPath s) :
    (place (s.trimEndMatches '/')).trimmed = (place s).trimmed := by
  induction s using List.reverseRecOn with
  | nil => rfl
  | append_singleton s c ih =>
      rw [Text.trimEndMatches, List.rdropWhile_concat]
      split
      · next hc =>
          obtain rfl : c = '/' := by simpa using hc
          obtain ⟨hnamed, hplace⟩ := place_slash h
          rw [hplace]
          exact ih hnamed
      · rfl

/-- A location keeps its root when its trailing slashes go. -/
theorem isWithin_trimEnd {root s : Text} (hnamed : NamesPath s) (h : isWithin root s = true) :
    isWithin root (s.trimEndMatches '/') = true := by
  obtain ⟨hplace, hclimbs⟩ := isWithin_iff.mp h
  have htrim := place_trimEnd hnamed
  refine isWithin_iff.mpr ⟨?_, climbs_eq_false_iff.mpr ?_⟩
  · have := hplace.trimmed
    rw [← htrim] at this
    exact ⟨this.1, this.2.1, this.2.2.trans (List.rdropWhile_prefix _ _)⟩
  · rw [htrim]
    exact climbs_eq_false_iff.mp hclimbs

end Rustberg
