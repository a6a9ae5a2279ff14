import Rustberg.Base.Base64
import Rustberg.Base.Process
import Rustberg.Catalog.Listing

/-!
# Filtered pages

`collectPage` fetches batch after batch and keeps the rows the caller may
see, until the page is full, the source is exhausted or a ceiling is
reached; the token it returns is the cursor of the last row *examined*.

`Serves` says what a source owes the loop: from a cursor that stands
before the rows `l`, a batch is a front of `l`, its entries' cursors stand
before what is left after them, and it reports more exactly when more is
left. Over such a source one page shows the visible rows of a front of
`l` and its token stands before the rest (`collectPage_leaves`, by
induction on the fetches left), so a client that follows tokens sees every
visible row once (`serves_visits`). A list sorted by cursor and cut by
`from_probe` is such a source (`pagedRows_serves`).
-/

namespace Rustberg

open Process

variable {α : Type}

def defaultPageSize : Nat := 100

/-- Most rows one request may examine before yielding a short page. -/
def maxScan : Nat := maxPageSize * 10

/-- Most backend round trips one request may make before yielding a short page. -/
def maxFetches : Nat := 20

structure PaginationQuery where
  pageToken : Option Text
  pageSize : Option Nat

namespace PaginationQuery

def effectivePageSize (query : PaginationQuery) : Nat :=
  match query.pageSize with
  | some size => max 1 (min size maxPageSize)
  | none => defaultPageSize

def decodeCursor (b64 : Base64) (query : PaginationQuery) : Except AppError (Option Text) :=
  match query.pageToken with
  | none => .ok none
  | some token =>
      match (b64.decode token).bind Utf8.text with
      | some cursor => .ok (some cursor)
      | none => .error (.badRequest "Invalid page token".toList)

def toRequest (b64 : Base64) (query : PaginationQuery) : Except AppError PageRequest := do
  let after ← query.decodeCursor b64
  return ⟨after, query.effectivePageSize⟩

end PaginationQuery

def encodeToken (b64 : Base64) (cursor : Text) : Text := b64.encode (Utf8.bytes cursor)

structure FilteredPage (α : Type) where
  items : List α
  nextPageToken : Option Text
  deriving DecidableEq

/-! ## The loop -/

section Loop

variable (b64 : Base64) (visible : α → Bool × α)

/-- The rows of one batch: the page they fill, or the cursor and the items
kept after the last of them. -/
def examine (limit : Nat) (exhausted : Bool) :
    List (Entry α) → Option Text → List α → Except (FilteredPage α) (Option Text × List α)
  | [], cursor, kept => .ok (cursor, kept)
  | entry :: entries, _, kept =>
      let (keep, item) := visible entry.item
      if keep then
        let kept := kept ++ [item]
        if limit ≤ kept.length then
          -- The last row of an exhausted batch ends the list.
          let moreRemains := !entries.isEmpty || !exhausted
          .error ⟨kept, if moreRemains then some (encodeToken b64 entry.cursor) else none⟩
        else examine limit exhausted entries (some entry.cursor) kept
      else examine limit exhausted entries (some entry.cursor) kept

/-- Where the next batch begins, if the listing can move forward: an empty
page moves it only by its own next cursor. -/
def advance (page : Page α) (cursor : Option Text) : Option (Option Text) :=
  if page.entries.isEmpty then
    match page.next with
    | some next => if some next ≠ cursor then some (some next) else none
    | none => none
  else some cursor

/-- Batch after batch, each a fetch answered with a page or an error. -/
def collectLoop (request : PageRequest) (cursor : Option Text) (kept : List α)
    (scanned fetches : Nat) :
    Prog PageRequest (fun _ => Except AppError (Page α)) (Except AppError (FilteredPage α)) :=
  .perform ⟨cursor, request.effectiveLimit⟩ fun
    | .error e => .done (.error e)
    | .ok page =>
        match examine b64 visible request.effectiveLimit page.next.isNone page.entries
          cursor kept with
        | .error full => .done (.ok full)
        | .ok (cursor, kept) =>
            if page.next.isNone then .done (.ok ⟨kept, none⟩)
            else
              match advance page cursor with
              | none => .done (.ok ⟨kept, none⟩)
              | some cursor =>
                  if maxScan ≤ scanned + page.entries.length ∨ maxFetches ≤ fetches + 1 then
                    .done (.ok ⟨kept, (cursor <|> request.after).map (encodeToken b64)⟩)
                  else
                    collectLoop request cursor kept (scanned + page.entries.length) (fetches + 1)
  termination_by maxFetches - fetches

def collectPage (request : PageRequest) :
    Prog PageRequest (fun _ => Except AppError (Page α)) (Except AppError (FilteredPage α)) :=
  collectLoop b64 visible request request.after [] 0 0

/-- One page for a client's query, the batches from `fetch`. -/
def listPage (fetch : PageRequest → Except AppError (Page α)) (query : PaginationQuery) :
    Except AppError (FilteredPage α) := do
  let request ← query.toRequest b64
  ((collectPage b64 visible request).run (fun request s => (fetch request, s)) ()).1

end Loop

/-! ## At most so many fetches -/

/-- Whatever `fetch` answers, and whatever it remembers, the program ends
after at most `n` fetches. -/
def EndsWithin (n : Nat) (program :
    Prog PageRequest (fun _ => Except AppError (Page α)) (Except AppError (FilteredPage α))) :
    Prop :=
  ∀ (S : Type) (fetch : PageRequest → S → Except AppError (Page α) × S) (s : S),
    ∃ fetches result s', program.Follows fetches (.done result) ∧
      Prog.Steps (fun request s answer s' => fetch request s = (answer, s')) s fetches s' ∧
      fetches.length ≤ n

/-- What the loop does with an answer: it ends, or goes on to a fetch that
is still allowed. -/
theorem collectLoop_cases (b64 : Base64) (visible : α → Bool × α) (request : PageRequest)
    (cursor : Option Text) (kept : List α) (scanned fetches : Nat) :
    ∃ k, collectLoop b64 visible request cursor kept scanned fetches =
        .perform ⟨cursor, request.effectiveLimit⟩ k ∧
      ∀ answer, (∃ result, k answer = .done result) ∨
        fetches + 1 < maxFetches ∧ ∃ cursor' kept' scanned', k answer =
          collectLoop b64 visible request cursor' kept' scanned' (fetches + 1) := by
  rw [collectLoop]
  refine ⟨_, rfl, fun answer => ?_⟩
  cases answer with
  | error e => exact Or.inl ⟨_, rfl⟩
  | ok page =>
      simp only
      split
      · exact Or.inl ⟨_, rfl⟩
      · split
        · exact Or.inl ⟨_, rfl⟩
        · split
          · exact Or.inl ⟨_, rfl⟩
          · split
            · exact Or.inl ⟨_, rfl⟩
            · next hceiling => exact Or.inr ⟨by omega, _, _, _, rfl⟩

/-- Every path through the loop is as short as the fetches it has left. -/
theorem collectLoop_fetches (b64 : Base64) (visible : α → Bool × α) (request : PageRequest)
    {h : Prog.History PageRequest fun _ => Except AppError (Page α)}
    {p' : Prog PageRequest (fun _ => Except AppError (Page α)) (Except AppError (FilteredPage α))}
    (cursor : Option Text) (kept : List α) (scanned fetches : Nat) (hfetches : fetches < maxFetches)
    (hf : (collectLoop b64 visible request cursor kept scanned fetches).Follows h p') :
    fetches + h.length ≤ maxFetches := by
  induction h generalizing cursor kept scanned fetches with
  | nil => exact hfetches.le
  | cons x h ih =>
      obtain ⟨k, hloop, hk⟩ := collectLoop_cases b64 visible request cursor kept scanned fetches
      rw [hloop] at hf
      obtain ⟨answer, -, hrest⟩ := Prog.follows_perform.mp hf
      rw [List.length_cons]
      rcases hk answer with ⟨result, hdone⟩ | ⟨hnext, cursor', kept', scanned', hgo⟩
      · rw [hdone] at hrest
        rw [(Prog.follows_done.mp hrest).1, List.length_nil]
        omega
      · rw [hgo] at hrest
        have := ih cursor' kept' scanned' (fetches + 1) hnext hrest
        omega

theorem collectPage_endsWithin (b64 : Base64) (visible : α → Bool × α) (request : PageRequest) :
    EndsWithin maxFetches (collectPage b64 visible request) := by
  intro S fetch s
  have hexec : Prog.Exec (fun request s answer s' => fetch request s = (answer, s'))
      (collectPage b64 visible request) s ((collectPage b64 visible request).run fetch s).1
      ((collectPage b64 visible request).run fetch s).2 :=
    Prog.exec_run (fun _ _ => rfl) _ s
  obtain ⟨h, hf, hsteps⟩ := hexec
  have hlen := collectLoop_fetches b64 visible request _ _ _ _ (by decide) hf
  exact ⟨h, _, _, hf, hsteps, by omega⟩

/-! ## Sources that lose nothing -/

section Serves

variable (At : Option Text → List α → Prop)

/-- `entries` are a front of `l` with `rest` after it, and each cursor stands
before what comes after its row. -/
def Reads : List α → List (Entry α) → List α → Prop
  | l, [], rest => l = rest
  | l, entry :: entries, rest => ∃ l', l = entry.item :: l' ∧
      (l' ≠ [] → At (some entry.cursor) l') ∧ Reads l' entries rest

/-- From a cursor before `l`, whatever the limit, a batch is a front of `l`,
not an empty one, and it says whether that is all. -/
def Serves (fetch : PageRequest → Except AppError (Page α)) : Prop :=
  ∀ cursor l limit, At cursor l → 0 < limit → limit ≤ maxPageSize →
    ∃ page rest, fetch ⟨cursor, limit⟩ = .ok page ∧ Reads At l page.entries rest ∧
      (page.next = none ↔ rest = []) ∧ (page.entries = [] → rest = [])

/-- `page` shows what is visible of a front of `l`, and its token stands
before what comes after it. -/
def Leaves (b64 : Base64) (p : α → Bool) (l : List α) (page : FilteredPage α) : Prop :=
  ∃ seen rest, l = seen ++ rest ∧ page.items = seen.filter p ∧
    (page.nextPageToken = none ∧ rest = [] ∨
      ∃ cursor, page.nextPageToken = some (encodeToken b64 cursor) ∧ seen ≠ [] ∧ rest ≠ [] ∧
        At (some cursor) rest)

variable {At} {b64 : Base64} {p : α → Bool}

theorem Reads.eq_nil_iff {l rest : List α} {entries : List (Entry α)}
    (h : Reads At l entries rest) : l = [] ↔ entries = [] ∧ rest = [] := by
  cases entries with
  | nil =>
      obtain rfl : l = rest := h
      simp
  | cons entry entries =>
      obtain ⟨l', rfl, -⟩ := h
      simp

theorem Leaves.append {l items : List α} {token : Option Text}
    (h : Leaves At b64 p l ⟨items, token⟩) (front : List α) :
    Leaves At b64 p (front ++ l) ⟨front.filter p ++ items, token⟩ := by
  obtain ⟨seen, rest, rfl, hitems, htoken⟩ := h
  obtain rfl : items = seen.filter p := hitems
  refine ⟨front ++ seen, rest, (List.append_assoc ..).symm,
    (List.filter_append ..).symm, ?_⟩
  rcases htoken with hend | ⟨cursor, hcursor, hseen, hrest, hat⟩
  · exact Or.inl hend
  · exact Or.inr ⟨cursor, hcursor, by simp [hseen], hrest, hat⟩

/-- The rows of a batch, kept after `before`: they fill the page, or all of
them are behind the cursor. -/
theorem examine_spec (b64 : Base64) (p : α → Bool) (limit : Nat) {exhausted : Bool}
    {l rest : List α} {entries : List (Entry α)} (hreads : Reads At l entries rest)
    (hexhausted : exhausted = true ↔ rest = []) (cursor : Option Text) (before : List α) :
    match examine b64 (fun x => (p x, x)) limit exhausted entries cursor before with
    | .error page => ∃ items, page.items = before ++ items ∧
        Leaves At b64 p l ⟨items, page.nextPageToken⟩
    | .ok (cursor', kept) => ∃ seen, l = seen ++ rest ∧ kept = before ++ seen.filter p ∧
        (rest ≠ [] → entries = [] ∧ cursor' = cursor ∨
          seen ≠ [] ∧ ∃ next, cursor' = some next ∧ At (some next) rest) := by
  induction entries generalizing l cursor before with
  | nil =>
      obtain rfl : l = rest := hreads
      exact ⟨[], rfl, by simp, fun _ => Or.inl ⟨rfl, rfl⟩⟩
  | cons entry entries ih =>
      obtain ⟨l', rfl, hat, hrest⟩ := hreads
      have hgo := ih hrest (some entry.cursor) (before ++ [entry.item].filter p)
      by_cases hfull : p entry.item = true ∧ limit ≤ (before ++ [entry.item]).length
      · have hmore : (!entries.isEmpty || !exhausted) = true ↔ l' ≠ [] := by
          rw [Ne, hrest.eq_nil_iff, ← hexhausted]
          cases entries <;> cases exhausted <;> simp
        simp only [examine, hfull.1, if_true, if_pos hfull.2]
        refine ⟨[entry.item], rfl, [entry.item], l', rfl, by simp [hfull.1], ?_⟩
        by_cases hl' : l' = []
        · exact Or.inl ⟨if_neg (mt hmore.mp (not_not.mpr hl')), hl'⟩
        · exact Or.inr ⟨entry.cursor, if_pos (hmore.mpr hl'), by simp, hl', hat hl'⟩
      · have hnext :
          examine b64 (fun x => (p x, x)) limit exhausted (entry :: entries) cursor before =
            examine b64 (fun x => (p x, x)) limit exhausted entries (some entry.cursor)
              (before ++ [entry.item].filter p) := by
          rw [examine]
          by_cases hp : p entry.item = true
          · have hlimit : ¬ limit ≤ (before ++ [entry.item]).length := fun h => hfull ⟨hp, h⟩
            simp only [hp, if_true, if_neg hlimit, List.filter_cons, List.filter_nil]
          · simp [hp]
        rw [hnext]
        revert hgo
        rcases examine b64 (fun x => (p x, x)) limit exhausted entries (some entry.cursor)
            (before ++ [entry.item].filter p) with page | ⟨cursor', kept⟩
        · rintro ⟨items, hitems, hleaves⟩
          exact ⟨[entry.item].filter p ++ items, by rw [hitems, List.append_assoc],
            hleaves.append [entry.item]⟩
        · rintro ⟨seen, rfl, rfl, hcursor⟩
          refine ⟨entry.item :: seen, rfl, ?_, fun hne => Or.inr ⟨by simp, ?_⟩⟩
          · rw [List.append_assoc, ← List.filter_append, List.singleton_append]
          · rcases hcursor hne with ⟨rfl, rfl⟩ | ⟨-, hat'⟩
            · have hseen : seen ++ rest = rest := hrest
              exact ⟨entry.cursor, rfl, by simpa [hseen] using hat (by simp [hne])⟩
            · exact hat'

/-- What the loop shows from a cursor before `l`, behind what it kept. -/
theorem collectLoop_leaves {fetch : PageRequest → Except AppError (Page α)}
    (hserves : Serves At fetch) (b64 : Base64) (p : α → Bool) (request : PageRequest)
    {l : List α} (cursor : Option Text) (hat : At cursor l) (kept : List α)
    (scanned fetches : Nat) :
    ∃ page items, ((collectLoop b64 (fun x => (p x, x)) request cursor kept scanned fetches).run
        (fun request s => (fetch request, s)) ()).1 = .ok page ∧ page.items = kept ++ items ∧
      Leaves At b64 p l ⟨items, page.nextPageToken⟩ := by
  induction hleft : maxFetches - fetches using Nat.strong_induction_on
    generalizing l cursor kept scanned fetches with
  | _ left ih =>
      obtain ⟨page, rest, hpage, hreads, hnext, hempty⟩ := hserves cursor l request.effectiveLimit
        hat (Nat.le_max_left ..) (max_le (by decide) (Nat.min_le_right ..))
      have hexhausted : page.next.isNone = true ↔ rest = [] := by
        rw [Option.isNone_iff_eq_none, hnext]
      have hspec := examine_spec b64 p request.effectiveLimit hreads hexhausted cursor kept
      rw [collectLoop, Prog.run_perform, hpage]
      dsimp only
      revert hspec
      rcases examine b64 (fun x => (p x, x)) request.effectiveLimit page.next.isNone page.entries
          cursor kept with full | ⟨cursor', kept'⟩
      · rintro ⟨items, hitems, hleaves⟩
        exact ⟨full, items, rfl, hitems, hleaves⟩
      · rintro ⟨seen, rfl, rfl, hcursor⟩
        by_cases hend : rest = []
        · refine ⟨⟨kept ++ seen.filter p, none⟩, seen.filter p, ?_, rfl, seen, rest, rfl, rfl,
            Or.inl ⟨rfl, hend⟩⟩
          simp only [hexhausted.mpr hend, if_true, Prog.run_done]
        · have hentries : page.entries ≠ [] := mt hempty hend
          obtain ⟨hseen, next, rfl, hat'⟩ :=
            (hcursor hend).resolve_left fun h => hentries h.1
          have hadvance : advance page (some next) = some (some next) := by
            simp [advance, hentries]
          dsimp only
          rw [if_neg (mt hexhausted.mp hend), hadvance]
          dsimp only
          split
          · exact ⟨⟨kept ++ seen.filter p, some (encodeToken b64 next)⟩, seen.filter p, rfl, rfl,
              seen, rest, rfl, rfl, Or.inr ⟨next, rfl, hseen, hend, hat'⟩⟩
          · next hceiling =>
              obtain ⟨final, items, hrun, hitems, hleaves⟩ := ih (maxFetches - (fetches + 1))
                (by omega) (some next) hat' (kept ++ seen.filter p)
                (scanned + page.entries.length) (fetches + 1) rfl
              exact ⟨final, seen.filter p ++ items, hrun, by rw [hitems, List.append_assoc],
                hleaves.append seen⟩

theorem collectPage_leaves {fetch : PageRequest → Except AppError (Page α)}
    (hserves : Serves At fetch) (b64 : Base64) (p : α → Bool) {request : PageRequest} {l : List α}
    (hat : At request.after l) :
    ∃ page, ((collectPage b64 (fun x => (p x, x)) request).run
        (fun request s => (fetch request, s)) ()).1 = .ok page ∧ Leaves At b64 p l page := by
  obtain ⟨page, items, hrun, hitems, hleaves⟩ :=
    collectLoop_leaves hserves b64 p request request.after hat [] 0 0
  rw [List.nil_append] at hitems
  subst hitems
  exact ⟨page, hrun, hleaves⟩

end Serves

/-! ## Following tokens -/

/-- Asking from `token` on, with the sizes as they come, page after page,
returns `items`. -/
inductive Visits (list : PaginationQuery → Except AppError (FilteredPage α)) :
    (Nat → Option Nat) → Option Text → List α → Prop where
  | last {sizes : Nat → Option Nat} {token : Option Text} {items : List α}
      (h : list ⟨token, sizes 0⟩ = .ok ⟨items, none⟩) : Visits list sizes token items
  | more {sizes : Nat → Option Nat} {token : Option Text} {next : Text} {items rest : List α}
      (h : list ⟨token, sizes 0⟩ = .ok ⟨items, some next⟩)
      (hrest : Visits list (fun n => sizes (n + 1)) (some next) rest) :
      Visits list sizes token (items ++ rest)

/-- What a client sees is determined by the listing. -/
theorem Visits.unique {list : PaginationQuery → Except AppError (FilteredPage α)}
    {sizes : Nat → Option Nat} {token : Option Text} {xs ys : List α}
    (hx : Visits list sizes token xs) (hy : Visits list sizes token ys) : xs = ys := by
  induction hx generalizing ys with
  | last h =>
      cases hy with
      | last h' => simp_all
      | more h' _ => simp_all
  | more h _ ih =>
      cases hy with
      | last h' => simp_all
      | more h' hrest' =>
          rw [h] at h'
          obtain ⟨rfl, rfl⟩ : _ = _ ∧ _ = _ := by simpa using h'
          rw [ih hrest']

theorem toRequest_encodeToken (b64 : Base64) (cursor : Option Text) (size : Option Nat) :
    PaginationQuery.toRequest b64 ⟨cursor.map (encodeToken b64), size⟩ =
      .ok ⟨cursor, PaginationQuery.effectivePageSize ⟨cursor.map (encodeToken b64), size⟩⟩ := by
  cases cursor with
  | none => rfl
  | some cursor =>
      simp [PaginationQuery.toRequest, PaginationQuery.decodeCursor, encodeToken,
        b64.decode_encode]

/-- Over a source that loses nothing a client sees every visible row once,
in order, and the pages end. -/
theorem serves_visits {At : Option Text → List α → Prop}
    {fetch : PageRequest → Except AppError (Page α)} (hserves : Serves At fetch) (b64 : Base64)
    (p : α → Bool) {cursor : Option Text} {l : List α} (hat : At cursor l)
    (sizes : Nat → Option Nat) :
    Visits (listPage b64 (fun x => (p x, x)) fetch) sizes (cursor.map (encodeToken b64))
      (l.filter p) := by
  induction hlen : l.length using Nat.strong_induction_on generalizing cursor l sizes with
  | _ n ih =>
      have hat' : At (PageRequest.after ⟨cursor, PaginationQuery.effectivePageSize
          ⟨cursor.map (encodeToken b64), sizes 0⟩⟩) l := hat
      have hpage := collectPage_leaves hserves b64 p hat'
      obtain ⟨⟨items, token⟩, hrun, seen, rest, rfl, hitems, htoken⟩ := hpage
      have hlist : listPage b64 (fun x => (p x, x)) fetch
          ⟨cursor.map (encodeToken b64), sizes 0⟩ = .ok ⟨items, token⟩ := by
        rw [listPage, toRequest_encodeToken]
        exact hrun
      obtain rfl : items = seen.filter p := hitems
      rw [List.filter_append]
      rcases htoken with ⟨htoken, rfl⟩ | ⟨next, htoken, hseen, -, hat'⟩
      · obtain rfl : token = none := htoken
        rw [List.filter_nil, List.append_nil]
        exact .last hlist
      · obtain rfl : token = some (encodeToken b64 next) := htoken
        have hpos := List.length_pos_iff.mpr hseen
        rw [List.length_append] at hlen
        exact .more hlist (ih rest.length (by omega) hat' _ rfl)

/-! ## A sorted list cut by `from_probe` -/

theorem effectiveLimit_eq {cursor : Option Text} {limit : Nat} (hpos : 0 < limit)
    (hmax : limit ≤ maxPageSize) : PageRequest.effectiveLimit ⟨cursor, limit⟩ = limit := by
  rw [PageRequest.effectiveLimit, Nat.min_eq_left hmax, Nat.max_eq_right hpos]

/-- The rows after `cursor`. -/
def rowsAfter (rows : List (Entry α)) : Option Text → List (Entry α)
  | none => rows
  | some cursor => rows.filter (cursor < ·.cursor)

/-- A backend over `rows`: it fetches one more than asked for, and cuts. -/
def pagedRows (rows : List (Entry α)) (request : PageRequest) : Page α :=
  Page.fromProbe ((rowsAfter rows request.after).take request.probeLimit) request

/-- `cursor` stands before the last of `rows`, those with the items `l`. -/
def RowsAt (rows : List (Entry α)) (cursor : Option Text) (l : List α) : Prop :=
  ∃ front tail, rows = front ++ tail ∧ rowsAfter rows cursor = tail ∧ l = tail.map Entry.item

theorem reads_rows {rows : List (Entry α)} (hrows : rows.Pairwise fun a b => a.cursor < b.cursor)
    {front entries rest : List (Entry α)} (hsplit : rows = front ++ (entries ++ rest)) :
    Reads (RowsAt rows) ((entries ++ rest).map Entry.item) entries (rest.map Entry.item) := by
  induction entries generalizing front with
  | nil => rfl
  | cons entry entries ih =>
      have hsplit' : rows = front ++ [entry] ++ (entries ++ rest) := by
        rw [hsplit, List.append_assoc]
        rfl
      exact ⟨_, rfl, fun _ => ⟨_, _, hsplit', filter_lt_split Entry.cursor hrows hsplit, rfl⟩,
        ih hsplit'⟩

theorem pagedRows_serves {rows : List (Entry α)}
    (hrows : rows.Pairwise fun a b => a.cursor < b.cursor) :
    Serves (RowsAt rows) fun request => .ok (pagedRows rows request) := by
  rintro cursor _ limit ⟨front, tail, hsplit, hafter, rfl⟩ hpos hmax
  have hlimit : PageRequest.effectiveLimit ⟨cursor, limit⟩ = limit := effectiveLimit_eq hpos hmax
  have hreads : ∀ n, Reads (RowsAt rows) (tail.map Entry.item) (tail.take n)
      ((tail.drop n).map Entry.item) := fun n => by
    have h : Reads (RowsAt rows) ((tail.take n ++ tail.drop n).map Entry.item) (tail.take n)
        ((tail.drop n).map Entry.item) :=
      reads_rows hrows (by rw [List.take_append_drop]; exact hsplit)
    rwa [List.take_append_drop] at h
  refine ⟨_, (tail.drop limit).map Entry.item, rfl, ?_⟩
  rw [pagedRows, hafter]
  by_cases hfit : tail.length ≤ limit
  · rw [Page.fromProbe_last (by rw [hlimit]; exact hfit), List.drop_eq_nil_of_le hfit]
    have h := hreads limit
    rw [List.take_of_length_le hfit, List.drop_eq_nil_of_le hfit] at h
    exact ⟨h, by simp, fun _ => rfl⟩
  · rw [Page.fromProbe_more (by rw [hlimit]; omega), hlimit]
    have hne : tail.take limit ≠ [] := by
      rw [Ne, List.take_eq_nil_iff, not_or]
      exact ⟨by omega, fun h => by simp [h] at hfit⟩
    refine ⟨hreads limit, iff_of_false ?_ ?_, fun h => absurd h hne⟩
    · simpa using fun h => hne (List.take_eq_nil_iff.mpr h)
    · simpa using by omega

/-- A client that follows tokens over a sorted listing sees exactly the
visible rows, each once and in order, whatever sizes it asks for; and one
page of any source ends after at most `maxFetches` fetches. -/
theorem filtered_pages_exact (b64 : Base64) :
    (∀ rows : List (Entry α), rows.Pairwise (fun a b => a.cursor < b.cursor) →
      ∀ (p : α → Bool) (sizes : Nat → Option Nat),
        Visits (listPage b64 (fun x => (p x, x)) fun request => .ok (pagedRows rows request)) sizes
          none ((rows.map Entry.item).filter p)) ∧
    ∀ (visible : α → Bool × α) (request : PageRequest),
      EndsWithin maxFetches (collectPage b64 visible request) := by
  refine ⟨fun rows hrows p sizes => ?_, collectPage_endsWithin b64⟩
  have hstart : RowsAt rows none (rows.map Entry.item) := ⟨[], rows, rfl, rfl, rfl⟩
  exact serves_visits (pagedRows_serves hrows) b64 p hstart sizes

/-- Three rows, the second one hidden, a row a page. -/
theorem filtered_pages_exact_three :
    Visits (listPage Base64.urlSafeNoPad (fun n => (n != 2, n)) fun request =>
        .ok (pagedRows [⟨"a".toList, 1⟩, ⟨"b".toList, 2⟩, ⟨"c".toList, 3⟩] request))
      (fun _ => some 1) none [1, 3] :=
  (filtered_pages_exact Base64.urlSafeNoPad).1 [⟨"a".toList, 1⟩, ⟨"b".toList, 2⟩, ⟨"c".toList, 3⟩]
    (by decide) (· != 2) fun _ => some 1

end Rustberg
