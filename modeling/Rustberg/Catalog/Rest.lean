import Rustberg.Api.Pagination

/-!
# A mounted remote catalog

A remote's page token names the start of a page and nothing finer, so a
cursor is the pair of a token and an offset: `RemoteCursor`. Resuming
fetches the page again, at a size that covers the offset, and `repage`
drops what was served.

`PagesOf` is a fixed remote listing paged as the specification allows:
a page is a front of what its token stands before, of any length, with a
token exactly when rows are left after it. Whether the mount then serves
the listing depends on what the remote does at the positions a client can
come to (`Resumed`): the page fetched again has to reach past the offset,
and a page without a token has to fit the limit (`Steady`).
-/

namespace Rustberg

variable {α : Type}

/-! ## Positions in a remote listing -/

/-- `REMOTE_CURSOR_SEP` -/
def remoteCursorSep : Char := Char.ofNat 0x1E

/-- A position inside a remote listing: the token that produced a page,
`none` for the first one, and how many of its items were served. -/
structure RemoteCursor where
  token : Option Text
  skip : Nat
  deriving DecidableEq

namespace RemoteCursor

def start : RemoteCursor := ⟨none, 0⟩

/-- Anything not written by `after` or `startOf` restarts the listing. -/
def parse (cursor : Option Text) : RemoteCursor :=
  match cursor with
  | none => start
  | some raw =>
      match Text.splitOnce remoteCursorSep raw with
      | none => start
      | some (skip, token) =>
          match Text.parseUnsigned 64 skip with
          | none => start
          | some skip => ⟨if token = [] then none else some token, skip⟩

/-- `RemoteCursor::at`: this cursor's page, resumed after its `skip`-th item. -/
def after (cursor : RemoteCursor) (skip : Nat) : Text :=
  Text.decimal skip ++ remoteCursorSep :: cursor.token.getD []

/-- The first item of the page `token` fetches. -/
def startOf (token : Text) : Text := '0' :: remoteCursorSep :: token

theorem remoteCursorSep_notMem_decimal (n : Nat) : remoteCursorSep ∉ Text.decimal n := fun h => by
  have := Text.isDigit_of_mem_decimal h
  revert this
  decide

theorem parse_after {cursor : RemoteCursor} (htoken : cursor.token ≠ some []) {skip : Nat}
    (hskip : skip < 2 ^ 64) : parse (some (cursor.after skip)) = ⟨cursor.token, skip⟩ := by
  have hsplit : Text.splitOnce remoteCursorSep (cursor.after skip) =
      some (Text.decimal skip, cursor.token.getD []) :=
    Text.splitOnce_eq_some.mpr ⟨rfl, remoteCursorSep_notMem_decimal skip⟩
  simp only [parse, hsplit, Text.parseUnsigned_decimal hskip]
  rcases cursor with ⟨_ | token, _⟩
  · rfl
  · have hne : token ≠ [] := fun h => htoken (congrArg some h)
    simp [hne]

theorem parse_startOf {token : Text} (htoken : token ≠ []) :
    parse (some (startOf token)) = ⟨some token, 0⟩ :=
  have hcursor : (RemoteCursor.mk (some token) 0).token ≠ some [] :=
    fun h => htoken (Option.some.inj h)
  parse_after hcursor (show 0 < 2 ^ 64 by decide)

end RemoteCursor

/-! ## The mount -/

/-- `ListNamespacesResponse` -/
structure ListNamespacesResponse where
  namespaces : List (List Text)
  nextPageToken : Option Text

structure RemoteIdentifier where
  namespc : List Text
  name : Text

/-- `ListTabularsResponse` -/
structure ListTabularsResponse where
  identifiers : List RemoteIdentifier
  nextPageToken : Option Text

/-- A mounted catalog, as the answers of `get_with`: to a path and a query,
what the remote holds there if it holds anything. -/
structure RestCatalog where
  getNamespaces : Text → List (Text × Text) → Except Error (Option ListNamespacesResponse)
  getTabulars : Text → List (Text × Text) → Except Error (Option ListTabularsResponse)

namespace RestCatalog

/-- Two upper case hexadecimal digits. -/
def hexByte (byte : UInt8) : Text :=
  ((Nat.toDigits 16 byte.toNat).map Char.toUpper).leftpad 2 '0'

def encodeSegment (segment : Text) : Text :=
  (Utf8.bytes segment).flatMap fun byte =>
    let c := Char.ofNat byte.toNat
    if c.isAlphanum ∨ c ∈ ['-', '_', '.', '~'] then [c] else '%' :: hexByte byte

def encodeNamespace (ns : NamespaceIdent) : Text :=
  encodeSegment (Text.join [partSeparator] ns)

/-- The paging parameters of a request. -/
def pagingQuery (token : Option Text) (size : Nat) : List (Text × Text) :=
  let query := [("pageSize".toList, Text.decimal size)]
  match token with
  | some token => query ++ [("pageToken".toList, token)]
  | none => query

/-- The caller's limit and what the cursor says to drop, at most a full page. -/
def askedSize (limit skip : Nat) : Nat := min (limit + skip) maxPageSize

def pageQuery (page : PageRequest) (resume : RemoteCursor) : List (Text × Text) :=
  pagingQuery resume.token (askedSize page.effectiveLimit resume.skip)

/-- What resumes after an item of a remote page: the last one is named by the remote's own next
token, every other one by its offset. -/
def cursorAfter (total : Nat) (nextToken : Option Text) (resume : RemoteCursor)
    (index : Nat) : Text :=
  match decide (index + 1 = total), nextToken with
  | true, some token => RemoteCursor.startOf token
  | _, _ => resume.after (index + 1)


def repage (items : List α) (nextToken : Option Text) (resume : RemoteCursor) (limit : Nat) :
    Page α :=
  let total := items.length
  -- A page that came back shorter than the position is restarted.
  let skip := if 0 < resume.skip ∧ total ≤ resume.skip then 0 else resume.skip
  ⟨((items.zipIdx.drop skip).take limit).map fun (item, index) =>
      ⟨cursorAfter total nextToken resume index, item⟩,
    nextToken.map RemoteCursor.startOf⟩

def identifiers (remote : List RemoteIdentifier) : Except Error (List TableIdent) :=
  remote.mapM fun identifier => do
    let ns ← NamespaceIdent.fromVec identifier.namespc
    return ⟨ns, identifier.name⟩

def parentQuery (parent : Option NamespaceIdent) : List (Text × Text) :=
  match parent with
  | some parent => [("parent".toList, Text.join [partSeparator] parent)]
  | none => []

def listNamespaces (rest : RestCatalog) (parent : Option NamespaceIdent) (page : PageRequest) :
    Except Error (Page NamespaceIdent) := do
  let resume := RemoteCursor.parse page.after
  match ← rest.getNamespaces "/v1/namespaces".toList
    (pageQuery page resume ++ parentQuery parent) with
  | none => return ⟨[], none⟩
  | some response =>
      let namespaces ← response.namespaces.mapM NamespaceIdent.fromVec
      return repage namespaces response.nextPageToken resume page.effectiveLimit

def tablesPath (ns : NamespaceIdent) : Text :=
  "/v1/namespaces/".toList ++ encodeNamespace ns ++ "/tables".toList

def listTables (rest : RestCatalog) (ns : NamespaceIdent) (page : PageRequest) :
    Except Error (Page TableIdent) := do
  let resume := RemoteCursor.parse page.after
  match ← rest.getTabulars (tablesPath ns) (pageQuery page resume) with
  | none => throw ⟨.namespaceNotFound, Text.join ['.'] ns⟩
  | some response =>
      let identifiers ← identifiers response.identifiers
      return repage identifiers response.nextPageToken resume page.effectiveLimit

end RestCatalog

/-! ## What a remote may answer -/

/-- A remote's answers: to a token and a size, some items and the next token. -/
abbrev Paging (α : Type) := Option Text → Nat → List α × Option Text

/-- `paging` pages the listing `rows` as the specification allows: a page is a
nonempty front of what its token stands before, and a next token, never the
empty one, is given exactly when rows are left. -/
def PagesOf (rows : List α) (paging : Paging α) : Prop :=
  ∃ Before : Option Text → List α → Prop, Before none rows ∧
    ∀ token l size, Before token l → 0 < size →
      ∃ rest, l = (paging token size).1 ++ rest ∧ ((paging token size).1 = [] → l = []) ∧
        (paging token size).1.length < 2 ^ 64 ∧
        match (paging token size).2 with
        | none => rest = []
        | some next => next ≠ [] ∧ rest ≠ [] ∧ Before (some next) rest

/-- The positions a client can come to: a page's item that is not its last, and
the page after one that was served to its end. -/
inductive Resumed (paging : Paging α) : Option Text → Nat → Prop where
  | start : Resumed paging none 0
  | within {token : Option Text} {skip : Nat} (h : Resumed paging token skip) {limit served : Nat}
      (hpos : 0 < limit) (hmax : limit ≤ maxPageSize) (hserved : skip < served)
      (hlimit : served ≤ skip + limit)
      (hinside : served < (paging token (RestCatalog.askedSize limit skip)).1.length) :
      Resumed paging token served
  | next {token : Option Text} {skip : Nat} (h : Resumed paging token skip) {limit : Nat}
      {next : Text} (hpos : 0 < limit) (hmax : limit ≤ maxPageSize)
      (hend : (paging token (RestCatalog.askedSize limit skip)).1.length ≤ skip + limit)
      (hnext : (paging token (RestCatalog.askedSize limit skip)).2 = some next) :
      Resumed paging (some next) 0

/-- A page fetched again reaches past the position it is resumed at, and a page
without a next token fits the limit asked for. -/
def Steady (paging : Paging α) : Prop :=
  ∀ token skip limit, Resumed paging token skip → 0 < limit → limit ≤ maxPageSize →
    (0 < skip → skip < (paging token (RestCatalog.askedSize limit skip)).1.length) ∧
    ((paging token (RestCatalog.askedSize limit skip)).2 = none →
      (paging token (RestCatalog.askedSize limit skip)).1.length ≤ skip + limit)

/-! ## A steady remote loses nothing -/

/-- `cursor` stands before `l`, the rest of `rows` from a position a client can
come to. -/
def MountAt (rows : List α) (paging : Paging α) (Before : Option Text → List α → Prop)
    (cursor : Option Text) (l : List α) : Prop :=
  ∃ token skip whole, RemoteCursor.parse cursor = ⟨token, skip⟩ ∧ token ≠ some [] ∧
    Resumed paging token skip ∧ Before token whole ∧ whole <:+ rows ∧ l = whole.drop skip

theorem zipIdx_window (items : List α) (skip limit : Nat) :
    (items.zipIdx.drop skip).take limit = ((items.drop skip).take limit).zipIdx skip := by
  refine List.ext_getElem? fun i => ?_
  simp only [List.getElem?_take, List.getElem?_zipIdx, List.getElem?_drop]
  split
  · simp
  · rfl

/-- A window on a list reads as the window, when every cursor in it does. -/
theorem reads_window {At : Option Text → List α → Prop} {cursorOf : Nat → Text} {whole : List α}
    {window rest : List α} {k : Nat} (hsplit : whole.drop k = window ++ rest)
    (hat : ∀ i, k ≤ i → i < k + window.length → whole.drop (i + 1) ≠ [] →
      At (some (cursorOf i)) (whole.drop (i + 1))) :
    Reads At (window ++ rest) ((window.zipIdx k).map fun (item, i) => ⟨cursorOf i, item⟩) rest := by
  induction window generalizing k with
  | nil => rfl
  | cons item window ih =>
      have hdrop : whole.drop (k + 1) = window ++ rest := by
        rw [← List.drop_drop, hsplit]
        rfl
      refine ⟨window ++ rest, rfl, fun hne => ?_, ih hdrop fun i hi hlt => ?_⟩
      · rw [← hdrop] at hne ⊢
        exact hat k le_rfl (by simp) hne
      · exact hat i (by omega) (by rw [List.length_cons]; omega)

theorem cursorAfter_last {total index : Nat} {resume : RemoteCursor} {next : Text}
    (h : index + 1 = total) :
    RestCatalog.cursorAfter total (some next) resume index = RemoteCursor.startOf next := by
  simp [RestCatalog.cursorAfter, h]

theorem cursorAfter_inside {total index : Nat} {resume : RemoteCursor} {next : Option Text}
    (h : index + 1 ≠ total) :
    RestCatalog.cursorAfter total next resume index = resume.after (index + 1) := by
  simp [RestCatalog.cursorAfter, h]

/-- Pages of a steady remote, repaged, are a source that loses nothing. -/
theorem repage_serves {rows : List α} {paging : Paging α}
    {Before : Option Text → List α → Prop}
    (hbefore : ∀ token l size, Before token l → 0 < size →
      ∃ rest, l = (paging token size).1 ++ rest ∧ ((paging token size).1 = [] → l = []) ∧
        (paging token size).1.length < 2 ^ 64 ∧
        match (paging token size).2 with
        | none => rest = []
        | some next => next ≠ [] ∧ rest ≠ [] ∧ Before (some next) rest)
    (hsteady : Steady paging) {fetch : PageRequest → Except AppError (Page α)}
    (hfetch : ∀ cursor limit token skip, RemoteCursor.parse cursor = ⟨token, skip⟩ → 0 < limit →
      limit ≤ maxPageSize →
      (∀ x ∈ (paging token (RestCatalog.askedSize limit skip)).1, x ∈ rows) →
      fetch ⟨cursor, limit⟩ = .ok (RestCatalog.repage
        (paging token (RestCatalog.askedSize limit skip)).1
        (paging token (RestCatalog.askedSize limit skip)).2 ⟨token, skip⟩ limit)) :
    Serves (MountAt rows paging Before) fetch := by
  rintro cursor _ limit ⟨token, skip, whole, hparse, htoken, hres, hbef, hsuffix, rfl⟩ hpos hmax
  have hsize : 0 < RestCatalog.askedSize limit skip := by
    have : 0 < maxPageSize := by decide
    unfold RestCatalog.askedSize
    omega
  obtain ⟨rest, hwhole, hempty, hlen, hnext⟩ := hbefore token whole _ hbef hsize
  obtain ⟨hreach, hfit⟩ := hsteady token skip limit hres hpos hmax
  have hpage := hfetch cursor limit token skip hparse hpos hmax fun x hx =>
    hsuffix.subset (by rw [hwhole]; exact List.mem_append_left _ hx)
  obtain ⟨items, next, hp⟩ : ∃ items next,
      paging token (RestCatalog.askedSize limit skip) = (items, next) := ⟨_, _, rfl⟩
  rw [hp] at hwhole hempty hlen hnext hreach hfit hpage
  dsimp only at hwhole hempty hlen hnext hreach hfit hpage
  have hskip : skip ≤ items.length := by
    rcases Nat.eq_zero_or_pos skip with rfl | h
    · exact Nat.zero_le _
    · exact (hreach h).le
  have hrestart : ¬ (0 < skip ∧ items.length ≤ skip) := fun h =>
    absurd (hreach h.1) (Nat.not_lt.mpr h.2)
  have hsplit :
    whole.drop skip = (items.drop skip).take limit ++ (items.drop (skip + limit) ++ rest) := by
    rw [hwhole, List.drop_append_of_le_length hskip, ← List.drop_drop, ← List.append_assoc,
      List.take_append_drop]
  refine ⟨_, items.drop (skip + limit) ++ rest, hpage, ?_, ?_, ?_⟩
  · rw [RestCatalog.repage, if_neg hrestart, zipIdx_window, hsplit]
    refine reads_window hsplit fun i hi hlt hne => ?_
    rw [List.length_take, List.length_drop] at hlt
    dsimp only at hi hlt
    by_cases hlast : i + 1 = items.length
    · have hdrop : whole.drop (i + 1) = rest := by rw [hwhole, hlast, List.drop_left]
      cases next with
      | none => exact absurd (hdrop.trans hnext) hne
      | some next =>
          obtain ⟨hnonempty, -, hbef'⟩ := hnext
          rw [cursorAfter_last hlast, hdrop]
          refine ⟨some next, 0, rest, RemoteCursor.parse_startOf hnonempty,
            fun h => hnonempty (Option.some.inj h),
            .next hres hpos hmax (by rw [hp]; dsimp only; omega) (by rw [hp]), hbef', ?_, rfl⟩
          exact List.IsSuffix.trans ⟨items, hwhole.symm⟩ hsuffix
    · rw [cursorAfter_inside hlast]
      exact ⟨token, i + 1, whole, RemoteCursor.parse_after htoken (by omega), htoken,
        .within hres hpos hmax (by omega) (by omega) (by rw [hp]; dsimp only; omega), hbef,
        hsuffix, rfl⟩
  · cases next with
    | none =>
        have hdrop : items.drop (skip + limit) = [] := List.drop_eq_nil_of_le (hfit rfl)
        simp [RestCatalog.repage, hdrop, show rest = [] from hnext]
    | some next => simp [RestCatalog.repage, hnext.2.1]
  · intro hnil
    rw [RestCatalog.repage, if_neg hrestart, zipIdx_window] at hnil
    have hwindow : (items.drop skip).take limit = [] := by simpa using hnil
    have hend : items.length ≤ skip := by
      rw [List.take_eq_nil_iff, List.drop_eq_nil_iff] at hwindow
      omega
    obtain rfl : skip = 0 := Nat.eq_zero_of_not_pos fun h => hrestart ⟨h, hend⟩
    obtain rfl : items = [] := List.length_eq_zero_iff.mp (Nat.le_zero.mp hend)
    have hrest : rest = [] := (hwhole.symm.trans (hempty rfl))
    simp [hrest]

/-! ## The listings of a mount -/

/-- The remote answers listings of the namespaces under `parent` with `paging`. -/
def ServesNamespaces (remote : RestCatalog) (parent : Option NamespaceIdent)
    (paging : Paging NamespaceIdent) : Prop :=
  ∀ token size, size ≤ maxPageSize →
    remote.getNamespaces "/v1/namespaces".toList
        (RestCatalog.pagingQuery token size ++ RestCatalog.parentQuery parent) =
      .ok (some ⟨(paging token size).1, (paging token size).2⟩)

/-- The remote answers listings of the tables of `ns` with `paging`. -/
def ServesTables (remote : RestCatalog) (ns : NamespaceIdent) (paging : Paging TableIdent) : Prop :=
  ∀ token size, size ≤ maxPageSize →
    remote.getTabulars (RestCatalog.tablesPath ns) (RestCatalog.pagingQuery token size) =
      .ok (some ⟨(paging token size).1.map fun ident => ⟨ident.namespc, ident.name⟩,
        (paging token size).2⟩)

theorem mapM_fromVec {names : List (List Text)} (h : ∀ ns ∈ names, ns ≠ []) :
    names.mapM NamespaceIdent.fromVec = .ok names := by
  induction names with
  | nil => rfl
  | cons ns names ih =>
      obtain ⟨hns, hnames⟩ := List.forall_mem_cons.mp h
      rw [List.mapM_cons, NamespaceIdent.fromVec_ok hns, ih hnames]
      rfl

theorem identifiers_ok {idents : List TableIdent} (h : ∀ ident ∈ idents, ident.namespc ≠ []) :
    RestCatalog.identifiers (idents.map fun ident => ⟨ident.namespc, ident.name⟩) = .ok idents := by
  induction idents with
  | nil => rfl
  | cons ident idents ih =>
      obtain ⟨hident, hidents⟩ := List.forall_mem_cons.mp h
      rw [RestCatalog.identifiers] at ih ⊢
      rw [List.map_cons, List.mapM_cons, NamespaceIdent.fromVec_ok hident, ih hidents]
      rfl

theorem listNamespaces_repage {remote : RestCatalog} {parent : Option NamespaceIdent}
    {paging : Paging NamespaceIdent} (hserves : ServesNamespaces remote parent paging)
    {cursor token : Option Text} {limit skip : Nat}
    (hparse : RemoteCursor.parse cursor = ⟨token, skip⟩) (hpos : 0 < limit)
    (hmax : limit ≤ maxPageSize)
    (hitems : ∀ ns ∈ (paging token (RestCatalog.askedSize limit skip)).1, ns ≠ []) :
    remote.listNamespaces parent ⟨cursor, limit⟩ = .ok (RestCatalog.repage
      (paging token (RestCatalog.askedSize limit skip)).1
      (paging token (RestCatalog.askedSize limit skip)).2 ⟨token, skip⟩ limit) := by
  have hget := hserves token (RestCatalog.askedSize limit skip) (Nat.min_le_right ..)
  rw [RestCatalog.listNamespaces, hparse, RestCatalog.pageQuery, effectiveLimit_eq hpos hmax,
    hget]
  simp only [Except.bind, bind, mapM_fromVec hitems]
  rfl

theorem listTables_repage {remote : RestCatalog} {ns : NamespaceIdent}
    {paging : Paging TableIdent} (hserves : ServesTables remote ns paging)
    {cursor token : Option Text} {limit skip : Nat}
    (hparse : RemoteCursor.parse cursor = ⟨token, skip⟩) (hpos : 0 < limit)
    (hmax : limit ≤ maxPageSize)
    (hitems : ∀ ident ∈ (paging token (RestCatalog.askedSize limit skip)).1, ident.namespc ≠ []) :
    remote.listTables ns ⟨cursor, limit⟩ = .ok (RestCatalog.repage
      (paging token (RestCatalog.askedSize limit skip)).1
      (paging token (RestCatalog.askedSize limit skip)).2 ⟨token, skip⟩ limit) := by
  have hget := hserves token (RestCatalog.askedSize limit skip) (Nat.min_le_right ..)
  rw [RestCatalog.listTables, hparse, RestCatalog.pageQuery, effectiveLimit_eq hpos hmax,
    hget]
  simp only [Except.bind, bind, identifiers_ok hitems]
  rfl

/-- Following the tokens of a filtered listing of a mount whose remote is steady
shows exactly the visible rows, each once and in order. -/
theorem remote_listing_exact (b64 : Base64) (remote : RestCatalog) :
    (∀ parent rows paging, ServesNamespaces remote parent paging → (∀ ns ∈ rows, ns ≠ []) →
      PagesOf rows paging → Steady paging → ∀ (p : NamespaceIdent → Bool)
        (sizes : Nat → Option Nat),
        Visits (listPage b64 (fun ns => (p ns, ns)) fun page =>
          (remote.listNamespaces parent page).mapError AppError.fromIceberg) sizes none
          (rows.filter p)) ∧
    ∀ ns rows paging, ServesTables remote ns paging → (∀ ident ∈ rows, ident.namespc ≠ []) →
      PagesOf rows paging → Steady paging → ∀ (p : TableIdent → Bool) (sizes : Nat → Option Nat),
        Visits (listPage b64 (fun ident => (p ident, ident)) fun page =>
          (remote.listTables ns page).mapError AppError.fromIceberg) sizes none
          (rows.filter p) := by
  constructor
  · rintro parent rows paging hserves hrows ⟨Before, hstart, hbefore⟩ hsteady p sizes
    have hat : MountAt rows paging Before none rows :=
      ⟨none, 0, rows, rfl, by simp, .start, hstart, List.suffix_rfl, rfl⟩
    refine serves_visits (repage_serves hbefore hsteady ?_) b64 p hat sizes
    intro cursor limit token skip hparse hpos hmax hitems
    rw [listNamespaces_repage hserves hparse hpos hmax fun ns hns => hrows ns (hitems ns hns)]
    rfl
  · rintro ns rows paging hserves hrows ⟨Before, hstart, hbefore⟩ hsteady p sizes
    have hat : MountAt rows paging Before none rows :=
      ⟨none, 0, rows, rfl, by simp, .start, hstart, List.suffix_rfl, rfl⟩
    refine serves_visits (repage_serves hbefore hsteady ?_) b64 p hat sizes
    intro cursor limit token skip hparse hpos hmax hitems
    rw [listTables_repage hserves hparse hpos hmax fun ident hident =>
      hrows ident (hitems ident hident)]
    rfl

/-- A remote that answers every listing of tables with `paging`. -/
def RestCatalog.ofTables (paging : Paging TableIdent) : RestCatalog where
  getNamespaces _ _ := .ok none
  getTabulars _ query :=
    let size := ((query.lookup "pageSize".toList).bind (Text.parseUnsigned 64)).getD 0
    let (items, next) := paging (query.lookup "pageToken".toList) size
    .ok (some ⟨items.map fun ident => ⟨ident.namespc, ident.name⟩, next⟩)

theorem ofTables_serves (paging : Paging TableIdent) (ns : NamespaceIdent) :
    ServesTables (.ofTables paging) ns paging := by
  intro token size hsize
  have hlookup : (RestCatalog.pagingQuery token size).lookup "pageSize".toList =
      some (Text.decimal size) := by
    cases token <;> rfl
  have htoken : (RestCatalog.pagingQuery token size).lookup "pageToken".toList = token := by
    cases token <;> rfl
  have hmax : size < 2 ^ 64 := hsize.trans_lt (by decide)
  simp only [RestCatalog.ofTables, hlookup, htoken, Option.bind_some,
    Text.parseUnsigned_decimal hmax, Option.getD_some]

def tableOf (name : String) : TableIdent := ⟨["db".toList], name.toList⟩

def threeTables : List TableIdent := [tableOf "a", tableOf "b", tableOf "c"]

/-- A row a page. -/
def oneByOne : Paging TableIdent := fun token _ =>
  match token with
  | none => ([tableOf "a"], some "b".toList)
  | some token =>
      if token = "b".toList then ([tableOf "b"], some "c".toList) else ([tableOf "c"], none)

theorem oneByOne_pagesOf : PagesOf threeTables oneByOne := by
  refine ⟨fun token l => (token, l) ∈ [(none, threeTables),
    (some "b".toList, [tableOf "b", tableOf "c"]), (some "c".toList, [tableOf "c"])],
    by simp, fun token l size hmem _ => ?_⟩
  simp only [List.mem_cons, Prod.mk.injEq, List.not_mem_nil, or_false] at hmem
  rcases hmem with ⟨rfl, rfl⟩ | ⟨rfl, rfl⟩ | ⟨rfl, rfl⟩
  · exact ⟨[tableOf "b", tableOf "c"], rfl, by simp [oneByOne], by simp [oneByOne], by
      simp [oneByOne]⟩
  · exact ⟨[tableOf "c"], rfl, by simp [oneByOne], by simp [oneByOne], by simp [oneByOne]⟩
  · exact ⟨[], rfl, by simp [oneByOne], by simp [oneByOne], by simp [oneByOne]⟩

theorem oneByOne_length (token : Option Text) (size : Nat) :
    (oneByOne token size).1.length = 1 := by
  cases token with
  | none => rfl
  | some token =>
      simp only [oneByOne]
      split <;> rfl

theorem oneByOne_steady : Steady oneByOne := by
  have hskip : ∀ token skip, Resumed oneByOne token skip → skip = 0 := by
    intro token skip h
    induction h with
    | start => rfl
    | within h hpos hmax hserved hlimit hinside ih =>
        rw [oneByOne_length] at hinside
        omega
    | next => rfl
  intro token skip limit hres hpos _
  rw [oneByOne_length, hskip token skip hres]
  omega

/-- Three tables of a steady remote, the second one hidden. -/
theorem remote_listing_exact_three :
    Visits (listPage Base64.urlSafeNoPad (fun ident => (ident != tableOf "b", ident)) fun page =>
        ((RestCatalog.ofTables oneByOne).listTables ["db".toList] page).mapError
          AppError.fromIceberg)
      (fun _ => some 1) none [tableOf "a", tableOf "c"] :=
  (remote_listing_exact Base64.urlSafeNoPad (.ofTables oneByOne)).2 ["db".toList]
    threeTables oneByOne
    (ofTables_serves oneByOne _) (by decide) oneByOne_pagesOf oneByOne_steady (· != tableOf "b")
    fun _ => some 1

/-- Everything at once, whatever the size. -/
def allAtOnce : Paging TableIdent := fun _ _ => (threeTables, none)

theorem allAtOnce_pagesOf : PagesOf threeTables allAtOnce :=
  ⟨fun _ l => l = threeTables, rfl, fun _ l _ hl _ =>
    ⟨[], by simpa [allAtOnce] using hl, by simp [allAtOnce, threeTables],
      by simp [allAtOnce, threeTables], rfl⟩⟩

/-- Two rows when asked for one, and one row when asked for two. -/
def contrary : Paging TableIdent := fun token size =>
  match token with
  | none =>
      if size = 1 then ([tableOf "a", tableOf "b"], some "c".toList)
      else ([tableOf "a"], some "b".toList)
  | some token =>
      if token = "b".toList then ([tableOf "b"], some "c".toList) else ([tableOf "c"], none)

theorem contrary_pagesOf : PagesOf threeTables contrary := by
  refine ⟨fun token l => (token, l) ∈ [(none, threeTables),
    (some "b".toList, [tableOf "b", tableOf "c"]), (some "c".toList, [tableOf "c"])],
    by simp, fun token l size hmem _ => ?_⟩
  simp only [List.mem_cons, Prod.mk.injEq, List.not_mem_nil, or_false] at hmem
  rcases hmem with ⟨rfl, rfl⟩ | ⟨rfl, rfl⟩ | ⟨rfl, rfl⟩
  · by_cases hsize : size = 1
    · exact ⟨[tableOf "c"], by simp [contrary, hsize, threeTables], by simp [contrary, hsize],
        by simp [contrary, hsize], by simp [contrary, hsize]⟩
    · exact ⟨[tableOf "b", tableOf "c"], by simp [contrary, hsize, threeTables],
        by simp [contrary, hsize], by simp [contrary, hsize], by simp [contrary, hsize]⟩
  · exact ⟨[tableOf "c"], rfl, by simp [contrary], by simp [contrary], by simp [contrary]⟩
  · exact ⟨[], rfl, by simp [contrary], by simp [contrary], by simp [contrary]⟩

/-- The tables of a mount over `paging`, page by page, nothing hidden. -/
def mountPages (paging : Paging TableIdent) :
    PaginationQuery → Except AppError (FilteredPage TableIdent) :=
  listPage Base64.urlSafeNoPad (fun ident => (true, ident)) fun page =>
    ((RestCatalog.ofTables paging).listTables ["db".toList] page).mapError AppError.fromIceberg

theorem visits_allAtOnce :
    Visits (mountPages allAtOnce) (fun _ => some 2) none [tableOf "a", tableOf "b"] :=
  .last (by decide +kernel)

/-- The second page is the first one again: it came back shorter than its position. -/
theorem visits_contrary :
    Visits (mountPages contrary) (fun _ => some 1) none
      [tableOf "a", tableOf "a", tableOf "b", tableOf "c"] := by
  have hfirst : mountPages contrary ⟨none, some 1⟩ =
      .ok ⟨[tableOf "a"], some "MR4".toList⟩ := by decide +kernel
  have hagain : mountPages contrary ⟨some "MR4".toList, some 1⟩ =
      .ok ⟨[tableOf "a"], some "MB5i".toList⟩ := by decide +kernel
  have hsecond : mountPages contrary ⟨some "MB5i".toList, some 1⟩ =
      .ok ⟨[tableOf "b"], some "MB5j".toList⟩ := by decide +kernel
  have hthird : mountPages contrary ⟨some "MB5j".toList, some 1⟩ =
      .ok ⟨[tableOf "c"], none⟩ := by decide +kernel
  have hend : Visits (mountPages contrary) (fun _ => some 1) (some "MB5j".toList) [tableOf "c"] :=
    .last hthird
  have hrest : Visits (mountPages contrary) (fun _ => some 1) (some "MB5i".toList)
      ([tableOf "b"] ++ [tableOf "c"]) := .more hsecond hend
  have hall : Visits (mountPages contrary) (fun _ => some 1) none
      ([tableOf "a"] ++ ([tableOf "a"] ++ ([tableOf "b"] ++ [tableOf "c"]))) :=
    .more hfirst (.more hagain hrest)
  exact hall

/-- A remote that ignores the page size loses rows to the mount's own limit, and
one that answers a larger size with fewer rows has some repeated. -/
theorem remote_listing_inexact :
    (PagesOf threeTables allAtOnce ∧ ServesTables (.ofTables allAtOnce) ["db".toList] allAtOnce ∧
      ¬ Visits (mountPages allAtOnce) (fun _ => some 2) none threeTables) ∧
    PagesOf threeTables contrary ∧ ServesTables (.ofTables contrary) ["db".toList] contrary ∧
      ¬ Visits (mountPages contrary) (fun _ => some 1) none threeTables := by
  refine ⟨⟨allAtOnce_pagesOf, ofTables_serves _ _, fun h => ?_⟩, contrary_pagesOf,
    ofTables_serves _ _, fun h => ?_⟩
  · exact absurd (h.unique visits_allAtOnce) (by decide)
  · exact absurd (h.unique visits_contrary) (by decide)

end Rustberg
