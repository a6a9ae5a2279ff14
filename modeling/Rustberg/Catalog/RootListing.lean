import Rustberg.Catalog.Listing
import Rustberg.Catalog.Mounting

/-!
# The root listing of a federated catalog

`listRoot` joins two listings, the mounts by name and the native catalog's
roots, behind a cursor that carries the phase. `Walks` follows its pages
under any sequence of limits. In the mount phase a page is cut after a
name, and going on after that name leaves the names above it; the page
that runs out of names starts the native listing, and from then on every
page is a native one with the shadowed rows left out (`walks_native`,
`walks_mounts`).
-/

namespace Rustberg

open Process

variable {α : Type}

/-- Listing from `cursor` on with the limits as they come, page after page,
returns `items`. -/
inductive Walks (list : PageRequest → Except Error (Page α)) :
    (Nat → Nat) → Option Text → List α → Prop where
  | last {limits : Nat → Nat} {cursor : Option Text} {entries : List (Entry α)}
      (h : list ⟨cursor, limits 0⟩ = .ok ⟨entries, none⟩) :
      Walks list limits cursor (entries.map Entry.item)
  | more {limits : Nat → Nat} {cursor : Option Text} {next : Text} {entries : List (Entry α)}
      {rest : List α} (h : list ⟨cursor, limits 0⟩ = .ok ⟨entries, some next⟩)
      (hrest : Walks list (fun n => limits (n + 1)) (some next) rest) :
      Walks list limits cursor (entries.map Entry.item ++ rest)

/-- `list` returns each of `isItem` once, whatever the limits it is given. -/
def Complete (list : PageRequest → Except Error (Page α)) (isItem : α → Prop) : Prop :=
  ∀ limits : Nat → Nat, (∀ n, 0 < limits n ∧ limits n ≤ maxPageSize) →
    ∃ items, Walks list limits none items ∧ items.Nodup ∧ ∀ x, x ∈ items ↔ isItem x

/-- No page goes on after the empty key. -/
def NamesKeys (list : PageRequest → Except Error (Page α)) : Prop :=
  ∀ request page, list request = .ok page → page.next ≠ some []

namespace FederatedCatalog

variable {ib : Iceberg}

/-- A native catalog seen through its root listing. -/
def answerNative (native : PageRequest → Except Error (Page NamespaceIdent)) :
    (asked : Asked ib) → Unit → asked.Answer × Unit
  | ⟨.native, .listNamespaces none page⟩, s => (native page, s)
  | _, s => (.error ⟨.featureUnsupported, []⟩, s)

/-- `list_root` over the native catalog `native`. -/
def rootPage (ib : Iceberg) (f : FederatedCatalog)
    (native : PageRequest → Except Error (Page NamespaceIdent)) (page : PageRequest) :
    Except Error (Page NamespaceIdent) :=
  (Prog.run (answerNative native) (f.listRoot page : Federated ib (Page NamespaceIdent)).run ()).1

variable (f : FederatedCatalog) {native : PageRequest → Except Error (Page NamespaceIdent)}

/-- The rows of a native page that no mount shadows, with the native phase in
their cursors. -/
def shown (entries : List (Entry NamespaceIdent)) : List (Entry NamespaceIdent) :=
  (entries.filter fun entry => !f.shadows entry.item).map fun entry =>
    ⟨RootCursor.nativeToken entry.cursor, entry.item⟩

theorem shown_items (entries : List (Entry NamespaceIdent)) :
    (f.shown entries).map Entry.item = (entries.map Entry.item).filter fun ns => !f.shadows ns := by
  rw [shown, List.map_map, List.filter_map]
  rfl

/-- The limits of native pages: what a page of the root listing asks for. -/
def clamped (limits : Nat → Nat) (n : Nat) : Nat := PageRequest.effectiveLimit ⟨none, limits n⟩

theorem clamped_bounds (limits : Nat → Nat) (n : Nat) :
    0 < clamped limits n ∧ clamped limits n ≤ maxPageSize := by
  simp only [clamped, PageRequest.effectiveLimit, maxPageSize]
  omega

theorem rootPage_full {limits : Nat → Nat} {cursor : Option Text} {resume : RootCursor}
    {entries : List (Entry NamespaceIdent)} (hresume : RootCursor.parse cursor = resume)
    (hentries : f.rootEntries resume (clamped limits 0) = entries)
    (h : clamped limits 0 ≤ entries.length) :
    rootPage ib f native ⟨cursor, limits 0⟩ =
      .ok ⟨entries, entries.getLast?.map Entry.cursor⟩ := by
  subst hresume hentries
  have hlimit : PageRequest.effectiveLimit ⟨cursor, limits 0⟩ = clamped limits 0 := rfl
  simp only [rootPage, listRoot, hlimit, if_pos h]
  rfl

theorem rootPage_native {limits : Nat → Nat} {cursor : Option Text} {resume : RootCursor}
    {entries : List (Entry NamespaceIdent)} {answer : Page NamespaceIdent}
    (hresume : RootCursor.parse cursor = resume)
    (hentries : f.rootEntries resume (clamped limits 0) = entries)
    (h : entries.length < clamped limits 0)
    (hnative : native ⟨resume.nativeAfter, clamped limits 0 - entries.length⟩ = .ok answer) :
    rootPage ib f native ⟨cursor, limits 0⟩ =
      .ok ⟨entries ++ f.shown answer.entries, answer.next.map RootCursor.nativeToken⟩ := by
  subst hresume hentries
  have hlimit : PageRequest.effectiveLimit ⟨cursor, limits 0⟩ = clamped limits 0 := rfl
  simp only [rootPage, listRoot, hlimit, if_neg (Nat.not_le.mpr h), Prog.run_bind_except, ask,
    ExceptT.run_mk, Prog.run_perform, Prog.run_done, answerNative, hnative]
  rfl

/-! ## Cursors and their phases -/

theorem parse_mountToken {name : Text} (h : name ≠ []) :
    RootCursor.parse (some (RootCursor.mountToken name)) = .mounts (some name) := by
  have hsplit : Text.splitOnce rootCursorSep (RootCursor.mountToken name) = some (['m'], name) :=
    Text.splitOnce_eq_some.mpr ⟨rfl, by decide⟩
  simp [RootCursor.parse, hsplit, h]

theorem parse_nativeToken {cursor : Text} (h : cursor ≠ []) :
    RootCursor.parse (some (RootCursor.nativeToken cursor)) = .native (some cursor) := by
  have hsplit : Text.splitOnce rootCursorSep (RootCursor.nativeToken cursor) =
      some (['n'], cursor) :=
    Text.splitOnce_eq_some.mpr ⟨rfl, by decide⟩
  simp [RootCursor.parse, hsplit, h]

/-- A cursor with the tag of a phase. -/
def Tagged (cursor : Text) : Prop :=
  ∃ rest, cursor = RootCursor.mountToken rest ∨ cursor = RootCursor.nativeToken rest

theorem parse_untagged {cursor : Text} (h : ¬ Tagged cursor) :
    RootCursor.parse (some cursor) = .mounts none := by
  rw [RootCursor.parse, Option.bind_some]
  cases hsplit : Text.splitOnce rootCursorSep cursor with
  | none => rfl
  | some parts =>
      obtain ⟨tag, rest⟩ := parts
      obtain ⟨hcursor, -⟩ := Text.splitOnce_eq_some.mp hsplit
      have hm : tag ≠ ['m'] := fun htag => h ⟨rest, Or.inl (by rw [hcursor, htag]; rfl)⟩
      have hn : tag ≠ ['n'] := fun htag => h ⟨rest, Or.inr (by rw [hcursor, htag]; rfl)⟩
      simp [hm, hn]

/-- A page depends on the phase its cursor carries and on its limit. -/
theorem listRoot_congr {page page' : PageRequest}
    (hparse : RootCursor.parse page.after = RootCursor.parse page'.after)
    (hlimit : page.effectiveLimit = page'.effectiveLimit) :
    (f.listRoot page : Federated ib (Page NamespaceIdent)) = f.listRoot page' := by
  dsimp only [listRoot]
  rw [hparse, hlimit]

/-! ## The native phase -/

/-- A page of the native phase is the native page, without the shadowed rows. -/
theorem rootPage_nativeToken {limits : Nat → Nat} {cursor : Text} {answer : Page NamespaceIdent}
    (hcursor : cursor ≠ []) (h : native ⟨some cursor, clamped limits 0⟩ = .ok answer) :
    rootPage ib f native ⟨some (RootCursor.nativeToken cursor), limits 0⟩ =
      .ok ⟨f.shown answer.entries, answer.next.map RootCursor.nativeToken⟩ := by
  have hentries : f.rootEntries (.native (some cursor)) (clamped limits 0) = [] := rfl
  exact f.rootPage_native (parse_nativeToken hcursor) hentries (clamped_bounds limits 0).1 h

theorem walks_native {limits : Nat → Nat} {cursor : Text} {items : List NamespaceIdent}
    (hkeys : NamesKeys native) (hcursor : cursor ≠ [])
    (h : Walks native (clamped limits) (some cursor) items) :
    Walks (rootPage ib f native) limits (some (RootCursor.nativeToken cursor))
      (items.filter fun ns => !f.shadows ns) := by
  generalize hat : some cursor = at' at h
  generalize hlimits : clamped limits = limits' at h
  induction h generalizing limits cursor with
  | last h =>
      subst hat hlimits
      rw [← shown_items]
      exact .last (f.rootPage_nativeToken hcursor h)
  | more h _ ih =>
      subst hat hlimits
      have hnext : _ ≠ [] := fun hnil => hkeys _ _ h (congrArg some hnil)
      rw [List.filter_append, ← shown_items]
      exact .more (f.rootPage_nativeToken hcursor h) (ih hnext rfl rfl)

/-! ## The mount phase -/

theorem rootEntries_mounts (after : Option Text) (limit : Nat) :
    f.rootEntries (.mounts after) limit = ((left f.mounts.keys after).take limit).map fun name =>
      ⟨RootCursor.mountToken name, [name]⟩ := by
  cases after with
  | none => simp [rootEntries, mountEntries, left]
  | some after => rfl

theorem mount_ne_nil {name : Text} (h : name ∈ f.mounts.keys) : name ≠ [] := by
  rintro rfl
  obtain ⟨mount, hmount⟩ := Option.isSome_iff_exists.mp
    (Std.ExtTreeMap.mem_iff_isSome_getElem?.mp (Std.ExtTreeMap.mem_keys.mp h))
  exact (f.valid _ _ hmount).2.1 rfl

/-- Once the mounts have run out, the native listing from its start. -/
theorem walks_start {limits : Nat → Nat} {cursor : Option Text} {after : Option Text}
    {roots : NamespaceIdent → Prop} (hkeys : NamesKeys native) (hroots : Complete native roots)
    (hparse : RootCursor.parse cursor = .mounts after)
    (hlen : (left f.mounts.keys after).length < clamped limits 0) :
    ∃ items : List NamespaceIdent, Walks (rootPage ib f native) limits cursor
        ((left f.mounts.keys after).map ([·]) ++ items.filter fun ns => !f.shadows ns) ∧
      items.Nodup ∧ ∀ ns, ns ∈ items ↔ roots ns := by
  have hentries : f.rootEntries (.mounts after) (clamped limits 0) =
      (left f.mounts.keys after).map fun name => ⟨RootCursor.mountToken name, [name]⟩ := by
    rw [rootEntries_mounts, List.take_of_length_le hlen.le]
  have hnames : ((left f.mounts.keys after).map fun name =>
      (⟨RootCursor.mountToken name, [name]⟩ : Entry NamespaceIdent)).map Entry.item =
        (left f.mounts.keys after).map ([·]) := by
    rw [List.map_map]
    rfl
  -- The first native page gets what the mounts left of this one's limit.
  obtain ⟨items, hwalks, hnodup, hmem⟩ := hroots
    (fun n =>
      if n = 0 then clamped limits 0 - (left f.mounts.keys after).length else clamped limits n)
    (fun n => by
      have := clamped_bounds limits 0
      have := clamped_bounds limits n
      split <;> omega)
  have hpage : ∀ answer : Page NamespaceIdent,
      native ⟨none, clamped limits 0 - (left f.mounts.keys after).length⟩ = .ok answer →
        rootPage ib f native ⟨cursor, limits 0⟩ =
          .ok ⟨(left f.mounts.keys after).map (fun name => ⟨RootCursor.mountToken name, [name]⟩) ++
            f.shown answer.entries, answer.next.map RootCursor.nativeToken⟩ := fun answer h =>
    f.rootPage_native hparse hentries (by simpa using hlen)
      (by simpa [RootCursor.nativeAfter] using h)
  refine ⟨items, ?_, hnodup, hmem⟩
  rw [← hnames]
  cases hwalks with
  | last h =>
      rw [← shown_items, ← List.map_append]
      exact .last (hpage _ h)
  | more h hrest =>
      have hnext : _ ≠ [] := fun hnil => hkeys _ _ h (congrArg some hnil)
      rw [List.filter_append, ← shown_items, ← List.append_assoc, ← List.map_append]
      exact .more (hpage _ h) (f.walks_native hkeys hnext hrest)

theorem walks_mounts {limits : Nat → Nat} {cursor : Option Text} {after : Option Text}
    {roots : NamespaceIdent → Prop} (hkeys : NamesKeys native) (hroots : Complete native roots)
    (hparse : RootCursor.parse cursor = .mounts after) :
    ∃ items : List NamespaceIdent, Walks (rootPage ib f native) limits cursor
        ((left f.mounts.keys after).map ([·]) ++ items.filter fun ns => !f.shadows ns) ∧
      items.Nodup ∧ ∀ ns, ns ∈ items ↔ roots ns := by
  -- By induction on the names that `after` leaves.
  induction hn : (left f.mounts.keys after).length using Nat.strong_induction_on
    generalizing limits cursor after with
  | _ n ih =>
      subst hn
      by_cases hlen : (left f.mounts.keys after).length < clamped limits 0
      · exact f.walks_start hkeys hroots hparse hlen
      · have hpos := (clamped_bounds limits 0).1
        have htake : (left f.mounts.keys after).take (clamped limits 0) ≠ [] := by
          intro hnil
          have := congrArg List.length hnil
          rw [List.length_take, List.length_nil] at this
          omega
        obtain ⟨last, hlast⟩ := Option.ne_none_iff_exists'.mp
          (mt List.getLast?_eq_none_iff.mp htake)
        have hmem : last ∈ f.mounts.keys := (left_sublist _ _).subset
          (List.mem_of_mem_take (List.mem_of_getLast? hlast))
        have hrest := left_last (Relation.keys_sorted f.mounts) hlast
        obtain ⟨items, hwalks, hitems⟩ := @ih _ (by rw [hrest, List.length_drop]; omega)
          (fun n => limits (n + 1)) _ _ (parse_mountToken (f.mount_ne_nil hmem)) rfl
        refine ⟨items, ?_, hitems⟩
        rw [hrest] at hwalks
        have hpage : rootPage ib f native ⟨cursor, limits 0⟩ =
            .ok ⟨((left f.mounts.keys after).take (clamped limits 0)).map fun name =>
              ⟨RootCursor.mountToken name, [name]⟩, some (RootCursor.mountToken last)⟩ := by
          have hfull : clamped limits 0 ≤
              (f.rootEntries (.mounts after) (clamped limits 0)).length := by
            rw [rootEntries_mounts, List.length_map, List.length_take]
            omega
          rw [f.rootPage_full hparse rfl hfull, rootEntries_mounts, List.getLast?_map, hlast]
          rfl
        have hwalk := Walks.more hpage hwalks
        rw [← List.append_assoc, List.map_map] at hwalk
        rw [← List.take_append_drop (clamped limits 0) (left f.mounts.keys after), List.map_append]
        exact hwalk

/-! ## The whole listing -/

/-- Following the cursors from the start lists the mounts by name, then the
native roots that no mount shadows, each once; a cursor that carries no phase
starts again. -/
theorem root_listing_complete (f : FederatedCatalog)
    (native : PageRequest → Except Error (Page NamespaceIdent)) (hkeys : NamesKeys native)
    (roots : NamespaceIdent → Prop) (hroots : Complete native roots) :
    (∀ limits : Nat → Nat, ∃ (names : List Text) (rows : List NamespaceIdent),
      Walks (rootPage ib f native) limits none (names.map ([·]) ++ rows) ∧
        names.Pairwise (· < ·) ∧ (∀ name, name ∈ names ↔ name ∈ f.mounts) ∧
        rows.Nodup ∧ ∀ ns, ns ∈ rows ↔ roots ns ∧ f.shadows ns = false) ∧
    ∀ cursor, ¬ Tagged cursor → ∀ limit,
      rootPage ib f native ⟨some cursor, limit⟩ = rootPage ib f native ⟨none, limit⟩ := by
  constructor
  · intro limits
    obtain ⟨items, hwalks, hnodup, hmem⟩ :=
      @walks_mounts ib f native limits none none roots hkeys hroots rfl
    refine ⟨f.mounts.keys, _, hwalks, Relation.keys_sorted f.mounts,
      fun name => Std.ExtTreeMap.mem_keys, hnodup.filter _, fun ns => ?_⟩
    rw [List.mem_filter, hmem, Bool.not_eq_true']
  · intro cursor htagged limit
    have hparse : RootCursor.parse (some cursor) = RootCursor.parse none := parse_untagged htagged
    have hpage : (f.listRoot ⟨some cursor, limit⟩ : Federated ib (Page NamespaceIdent)) =
        f.listRoot ⟨none, limit⟩ := f.listRoot_congr hparse rfl
    rw [rootPage, hpage]
    rfl

/-- A native catalog of two roots, one of them shadowed by the mount `lake`, in
pages of one. -/
def twoRoots (request : PageRequest) : Except Error (Page NamespaceIdent) :=
  match request.after with
  | none => .ok ⟨[⟨['a'], [['a']]⟩], some ['a']⟩
  | some _ => .ok ⟨[⟨"lake".toList, ["lake".toList]⟩], none⟩

theorem twoRoots_complete : Complete twoRoots fun ns => ns = [['a']] ∨ ns = ["lake".toList] := by
  intro limits _
  refine ⟨_, .more rfl (.last rfl), by decide, fun ns => ?_⟩
  simp

theorem root_listing_complete_two :
    ∃ (names : List Text) (rows : List NamespaceIdent),
      Walks (rootPage .plain acmeCatalog twoRoots) (fun _ => 2) none (names.map ([·]) ++ rows) ∧
        names.Pairwise (· < ·) ∧ (∀ name, name ∈ names ↔ name ∈ acmeCatalog.mounts) ∧
        rows.Nodup ∧ ∀ ns, ns ∈ rows ↔
          (ns = [['a']] ∨ ns = ["lake".toList]) ∧ acmeCatalog.shadows ns = false :=
  (root_listing_complete acmeCatalog twoRoots
    (fun request page h => by
      rw [twoRoots] at h
      split at h <;> cases h <;> simp)
    _ twoRoots_complete).1 _

/-- A native catalog without namespaces whose first page goes on after the empty
string. -/
def blankCursor (request : PageRequest) : Except Error (Page NamespaceIdent) :=
  match request.after with
  | none => .ok ⟨[], some []⟩
  | some _ => .ok ⟨[], none⟩

theorem blankCursor_endless {limits : Nat → Nat} {cursor : Option Text}
    {items : List NamespaceIdent}
    (hcursor : cursor = none ∨ cursor = some (RootCursor.nativeToken []))
    (h : Walks (rootPage .plain empty blankCursor) limits cursor items) : False := by
  have hpage : ∀ (limits : Nat → Nat) (cursor : Option Text),
      cursor = none ∨ cursor = some (RootCursor.nativeToken []) →
      rootPage .plain empty blankCursor ⟨cursor, limits 0⟩ =
        .ok ⟨[], some (RootCursor.nativeToken [])⟩ := by
    rintro limits _ (rfl | rfl)
    · have hentries : empty.rootEntries (.mounts none) (clamped limits 0) = [] := by
        simp [rootEntries, mountEntries, empty]
      have hparse : RootCursor.parse none = .mounts none := rfl
      have hnative : blankCursor ⟨none, clamped limits 0 - 0⟩ = .ok ⟨[], some []⟩ := rfl
      exact empty.rootPage_native hparse hentries (clamped_bounds limits 0).1 hnative
    · have hentries : empty.rootEntries (.native none) (clamped limits 0) = [] := rfl
      have hparse : RootCursor.parse (some (RootCursor.nativeToken [])) = .native none := by decide
      have hnative : blankCursor ⟨none, clamped limits 0 - 0⟩ = .ok ⟨[], some []⟩ := rfl
      exact empty.rootPage_native hparse hentries (clamped_bounds limits 0).1 hnative
  induction h with
  | last h => cases (hpage _ _ hcursor).symm.trans h
  | more h _ ih =>
      cases (hpage _ _ hcursor).symm.trans h
      exact ih (Or.inr rfl)

/-- A cursor that some page of the root listing gives out. -/
def Produced (f : FederatedCatalog) (native : PageRequest → Except Error (Page NamespaceIdent))
    (cursor : Text) : Prop :=
  ∃ request page, rootPage ib f native request = .ok page ∧
    (page.next = some cursor ∨ cursor ∈ page.entries.map Entry.cursor)

/-- A native catalog without namespaces. -/
def noRoots (_ : PageRequest) : Except Error (Page NamespaceIdent) := .ok ⟨[], none⟩

theorem rootEntries_cursor {resume : RootCursor} {limit : Nat} {entry : Entry NamespaceIdent}
    (h : entry ∈ f.rootEntries resume limit) :
    ∃ name, entry.cursor = RootCursor.mountToken name := by
  cases resume with
  | mounts after =>
      obtain ⟨name, -, rfl⟩ := List.mem_map.mp h
      exact ⟨name, rfl⟩
  | native after => cases h

/-- With no native rows every cursor is a mount's. -/
theorem produced_noRoots {cursor : Text} (h : @Produced ib f noRoots cursor) :
    ∃ name, cursor = RootCursor.mountToken name := by
  obtain ⟨⟨after, limit⟩, page, hpage, hcursor⟩ := h
  by_cases hfull : clamped (fun _ => limit) 0 ≤
      (f.rootEntries (RootCursor.parse after) (clamped (fun _ => limit) 0)).length
  · cases (f.rootPage_full rfl rfl hfull).symm.trans hpage
    rcases hcursor with hnext | hmem
    · obtain ⟨entry, hentry, rfl⟩ := Option.map_eq_some_iff.mp hnext
      exact f.rootEntries_cursor (List.mem_of_getLast? hentry)
    · obtain ⟨entry, hentry, rfl⟩ := List.mem_map.mp hmem
      exact f.rootEntries_cursor hentry
  · cases (f.rootPage_native rfl rfl (Nat.not_le.mp hfull) rfl).symm.trans hpage
    rcases hcursor with hnext | hmem
    · cases hnext
    · obtain ⟨entry, hentry, rfl⟩ := List.mem_map.mp hmem
      exact f.rootEntries_cursor (by simpa [shown] using hentry)

/-- A string with a tag goes on in the phase it names, whoever made it; and
after an empty native cursor the native listing starts again, for ever. -/
theorem root_listing_incomplete :
    (¬ @Produced .plain acmeCatalog noRoots (RootCursor.nativeToken "zzz".toList) ∧
      rootPage .plain acmeCatalog noRoots
          ⟨some (RootCursor.nativeToken "zzz".toList), 10⟩ = .ok ⟨[], none⟩ ∧
      rootPage .plain acmeCatalog noRoots ⟨none, 10⟩ =
        .ok ⟨[⟨RootCursor.mountToken "lake".toList, ["lake".toList]⟩], none⟩) ∧
    Complete blankCursor (fun _ => False) ∧
      ¬ ∃ items, Walks (rootPage .plain empty blankCursor) (fun _ => 10) none items := by
  refine ⟨⟨?_, ?_, ?_⟩,
    fun limits _ => ⟨_, .more rfl (.last rfl), by decide, by simp⟩,
    fun ⟨items, h⟩ => blankCursor_endless (Or.inl rfl) h⟩
  · intro h
    obtain ⟨name, hname⟩ := acmeCatalog.produced_noRoots h
    cases hname
  · decide
  · decide

end FederatedCatalog

end Rustberg
