import Rustberg.Catalog.Drop

/-!
# Listing by pages

A page is what a probe past the limit returned, cut to the limit, with
the last kept key as the cursor. `Follows` is the client's loop: start
with no cursor and go on from each returned one. Over a sorted list of
rows the loop visits every row once (`follows_rows`, by induction on what
the cursor has left), so a listing is complete exactly when the scan it
pages through is: when no child's name is `Blind`.
-/

namespace Rustberg

variable {α : Type}

/-! ## Following cursors -/

/-- Listing from `cursor` on, page after page, returns `entries`. -/
inductive Follows (list : PageRequest → Except Error (Page α)) (limit : Nat) :
    Option Text → List (Entry α) → Prop where
  | last {cursor : Option Text} {entries : List (Entry α)}
      (h : list ⟨cursor, limit⟩ = .ok ⟨entries, none⟩) : Follows list limit cursor entries
  | more {cursor : Option Text} {next : Text} {entries rest : List (Entry α)}
      (h : list ⟨cursor, limit⟩ = .ok ⟨entries, some next⟩)
      (hrest : Follows list limit (some next) rest) : Follows list limit cursor (entries ++ rest)

/-- The pages are determined by the listing. -/
theorem Follows.unique {list : PageRequest → Except Error (Page α)} {limit : Nat}
    {cursor : Option Text} {xs ys : List (Entry α)} (hx : Follows list limit cursor xs)
    (hy : Follows list limit cursor ys) : xs = ys := by
  induction hx generalizing ys with
  | last h =>
      cases hy with
      | last h' => simp_all
      | more h' _ => simp_all
  | more h _ ih =>
      cases hy with
      | last h' => simp_all
      | more h' hrest' =>
          rw [h] at h'
          obtain ⟨rfl, rfl⟩ : _ = _ ∧ _ = _ := by simpa using h'
          rw [ih hrest']

theorem Page.fromProbe_last {rows : List (Entry α)} {request : PageRequest}
    (h : rows.length ≤ request.effectiveLimit) :
    Page.fromProbe (rows.take request.probeLimit) request = ⟨rows, none⟩ := by
  rw [List.take_of_length_le (by unfold PageRequest.probeLimit; omega)]
  simp [Page.fromProbe, Nat.not_lt.mpr h]

theorem Page.fromProbe_more {rows : List (Entry α)} {request : PageRequest}
    (h : request.effectiveLimit < rows.length) :
    Page.fromProbe (rows.take request.probeLimit) request =
      ⟨rows.take request.effectiveLimit,
        (rows.take request.effectiveLimit).getLast?.map Entry.cursor⟩ := by
  have hlen : request.effectiveLimit < (rows.take request.probeLimit).length := by
    rw [List.length_take, PageRequest.probeLimit]
    omega
  have htake : (rows.take request.probeLimit).take request.effectiveLimit =
      rows.take request.effectiveLimit := by
    rw [List.take_take, PageRequest.probeLimit, Nat.min_eq_left (Nat.le_succ _)]
  simp only [Page.fromProbe, hlen, if_true, htake]

/-- What comes after an element of a sorted list is what is above it. -/
theorem filter_lt_split {β : Type} (key : β → Text) {xs init tail : List β} {x : β}
    (hsorted : xs.Pairwise fun a b => key a < key b) (hsplit : xs = init ++ x :: tail) :
    xs.filter (fun y => key x < key y) = tail := by
  rw [hsplit] at hsorted ⊢
  obtain ⟨-, htail, hcross⟩ := List.pairwise_append.mp hsorted
  have hrest := (List.pairwise_cons.mp htail).1
  have hleft : init.filter (fun y => key x < key y) = [] := by
    rw [List.filter_eq_nil_iff]
    intro y hy
    simpa using (hcross y hy x (List.mem_cons_self ..)).asymm
  have hright : tail.filter (fun y => key x < key y) = tail :=
    List.filter_eq_self.mpr fun y hy => by simpa using hrest y hy
  rw [List.filter_append, List.filter_cons, hleft, hright]
  simp

/-- What a cursor at the end of a cut leaves of a sorted list is the rest. -/
theorem filter_lt_eq_drop {xs : List Text} (hsorted : xs.Pairwise (· < ·)) {n : Nat} {last : Text}
    (hlast : (xs.take n).getLast? = some last) : xs.filter (last < ·) = xs.drop n := by
  obtain ⟨init, hinit⟩ := List.getLast?_eq_some_iff.mp hlast
  have hsplit : xs = init ++ last :: xs.drop n := by
    rw [← List.singleton_append, ← List.append_assoc, ← hinit, List.take_append_drop]
  exact filter_lt_split id hsorted hsplit

/-- The keys a listing has left after `cursor`. -/
def left (keys : List Text) : Option Text → List Text
  | none => keys
  | some cursor => keys.filter (cursor < ·)

theorem left_sublist (keys : List Text) (cursor : Option Text) :
    (left keys cursor).Sublist keys := by
  cases cursor with
  | none => exact List.Sublist.refl _
  | some cursor => exact List.filter_sublist

/-- Going on from the last of the first `n` leaves the others. -/
theorem left_last {keys : List Text} (hsorted : keys.Pairwise (· < ·)) {cursor : Option Text}
    {n : Nat} {last : Text} (hlast : ((left keys cursor).take n).getLast? = some last) :
    left keys (some last) = (left keys cursor).drop n := by
  rw [← filter_lt_eq_drop (hsorted.sublist (left_sublist keys cursor)) hlast]
  cases cursor with
  | none => rfl
  | some cursor =>
      have hmem := List.mem_of_mem_take (List.mem_of_getLast? hlast)
      have hlt : cursor < last := by simpa using (List.mem_filter.mp hmem).2
      simp only [left, List.filter_filter]
      refine List.filter_congr fun key _ => ?_
      by_cases h : last < key
      · simp [h, hlt.trans h]
      · simp [h]

/-- The loop over a sorted list of rows visits every row once, in order. -/
theorem follows_rows {list : PageRequest → Except Error (Page α)} {limit : Nat}
    {keys : List Text} {row : Text → Entry α} (hsorted : keys.Pairwise (· < ·))
    (hrow : ∀ key, (row key).cursor = key)
    (hlist : ∀ cursor : Option Text, (∀ c ∈ cursor, c ∈ keys) →
      list ⟨cursor, limit⟩ = .ok (Page.fromProbe
        (((left keys cursor).map row).take (PageRequest.probeLimit ⟨cursor, limit⟩))
        ⟨cursor, limit⟩)) :
    Follows list limit none (keys.map row) := by
  have key : ∀ (n : Nat) (cursor : Option Text), (∀ c ∈ cursor, c ∈ keys) →
      (left keys cursor).length ≤ n → Follows list limit cursor ((left keys cursor).map row) := by
    intro n
    induction n with
    | zero =>
        intro cursor hcursor hlen
        have hnil := List.length_eq_zero_iff.mp (Nat.le_zero.mp hlen)
        rw [hnil]
        refine .last ?_
        rw [hlist cursor hcursor, hnil, List.map_nil, Page.fromProbe_last (Nat.zero_le _)]
    | succ n ih =>
        intro cursor hcursor hlen
        have hpos : 1 ≤ PageRequest.effectiveLimit ⟨cursor, limit⟩ := Nat.le_max_left ..
        generalize hm : PageRequest.effectiveLimit ⟨cursor, limit⟩ = m at hpos
        by_cases hfit : (left keys cursor).length ≤ m
        · refine .last ?_
          rw [hlist cursor hcursor, Page.fromProbe_last (by simpa [hm] using hfit)]
        · have hne : (left keys cursor).take m ≠ [] := by
            intro hnil
            have := congrArg List.length hnil
            rw [List.length_take, List.length_nil] at this
            omega
          obtain ⟨last, hlast⟩ := Option.ne_none_iff_exists'.mp
            (mt List.getLast?_eq_none_iff.mp hne)
          have hpage := hlist cursor hcursor
          rw [Page.fromProbe_more (by simpa [hm] using hfit), hm, ← List.map_take,
            List.getLast?_map, hlast, Option.map_some, Option.map_some, hrow] at hpage
          have hdrop := left_last hsorted hlast
          have hlastmem : last ∈ keys :=
            (left_sublist keys cursor).subset (List.mem_of_mem_take (List.mem_of_getLast? hlast))
          have hrest := ih (some last) (by simpa using hlastmem) (by
            rw [hdrop, List.length_drop]; omega)
          rw [hdrop] at hrest
          have := Follows.more hpage hrest
          rwa [← List.map_append, List.take_append_drop] at this
  exact key _ none (by simp) le_rfl

/-! ## The pages of the registry -/

variable {ib : Iceberg} {u : UnicodeData} {reg : Registry}

theorem exec_requireNamespace (env : Env ib) (ns : NamespaceIdent) (message : Text) (s : Alone) :
    env.exec (Redb.requireNamespace ns message) s =
      (if namespaceKey ns ∈ s.1.namespaces then .ok () else .error ⟨.namespaceNotFound, message⟩,
        s) := by
  rw [Redb.requireNamespace, Env.exec_bind, Env.exec_getNamespace]
  cases hget : s.1.namespaces[namespaceKey ns]? with
  | none => simp [Relation.getElem?_eq_none_iff.mp hget]
  | some record => simp [Relation.mem_of_getElem? hget]

/-- The row of a table or view key. -/
def tabularRow (ns : NamespaceIdent) (key : Text) : Entry TableIdent :=
  ⟨key, ⟨ns, (key.splitOn nameSeparator).getLastD []⟩⟩

/-- The row of a namespace key. -/
def namespaceRow (key : Text) : Entry NamespaceIdent := ⟨key, key.splitOn partSeparator⟩

/-- The keys a listing of `ns` pages through. -/
def tabularKeys (reg : Registry) (kind : Tabular) (ns : NamespaceIdent) : List Text :=
  Relation.keysIn (reg.tabulars kind) (tablePrefix ns) (prefixEnd (tablePrefix ns))

def childKeys (reg : Registry) (parent : Option NamespaceIdent) : List Text :=
  (Relation.keysIn reg.namespaces (childrenPrefix parent)
    (prefixEnd (childrenPrefix parent))).filter
    (depthOf · = (parent.getD []).length + 1)

/-- A scan from a cursor of its own prefix goes on after it. -/
theorem keysIn_scanStart {V : Type} (m : Relation V) {pre : Text} {cursor : Option Text}
    (hcursor : ∀ c ∈ cursor, pre <+: c) (limit : Nat) (stop : Text) :
    Relation.keysIn m (scanStart pre ⟨cursor, limit⟩) stop =
      left (Relation.keysIn m pre stop) cursor := by
  cases cursor with
  | none => rfl
  | some c =>
      obtain ⟨r, rfl⟩ := hcursor c rfl
      have hstart : scanStart pre ⟨some (pre ++ r), limit⟩ = pre ++ r ++ [Char.ofNat 0] := by
        simp [scanStart]
      rw [hstart, Relation.keysIn_resume m (Text.not_append_lt pre r)]
      rfl

theorem listTabulars_page (env : Env ib) (kind : Tabular) {ns : NamespaceIdent}
    (hns : namespaceKey ns ∈ reg.namespaces) (limit : Nat) {cursor : Option Text}
    (hcursor : ∀ c ∈ cursor, c ∈ tabularKeys reg kind ns) :
    (env.run (Redb.listTabulars kind ns ⟨cursor, limit⟩) reg).1 = .ok (Page.fromProbe
      (((left (tabularKeys reg kind ns) cursor).map (tabularRow ns)).take
        (PageRequest.probeLimit ⟨cursor, limit⟩)) ⟨cursor, limit⟩) := by
  have hpre : ∀ c ∈ cursor, tablePrefix ns <+: c := fun c hc => by
    obtain ⟨-, r, rfl, -⟩ := (Relation.mem_keysIn_prefix _).mp (hcursor c hc)
    exact List.prefix_append ..
  have hkeys := keysIn_scanStart (reg.tabulars kind) hpre limit (prefixEnd (tablePrefix ns))
  simp only [Env.run, Redb.listTabulars, Env.exec_bind, exec_requireNamespace, hns, if_true,
    Env.exec_scanTabulars, Env.exec_pure, hkeys, List.map_take]
  rfl

theorem listNamespaces_page (env : Env ib) {parent : Option NamespaceIdent}
    (hparent : ∀ p ∈ parent, namespaceKey p ∈ reg.namespaces) (limit : Nat)
    {cursor : Option Text} (hcursor : ∀ c ∈ cursor, c ∈ childKeys reg parent) :
    (env.run (Redb.listNamespaces parent ⟨cursor, limit⟩) reg).1 = .ok (Page.fromProbe
      (((left (childKeys reg parent) cursor).map namespaceRow).take
        (PageRequest.probeLimit ⟨cursor, limit⟩)) ⟨cursor, limit⟩) := by
  have hpre : ∀ c ∈ cursor, childrenPrefix parent <+: c := fun c hc => by
    obtain ⟨-, r, rfl, -⟩ := (Relation.mem_keysIn_prefix _).mp (List.mem_filter.mp (hcursor c hc)).1
    exact List.prefix_append ..
  have hkeys := keysIn_scanStart reg.namespaces hpre limit (prefixEnd (childrenPrefix parent))
  have hleft : (left (Relation.keysIn reg.namespaces (childrenPrefix parent)
        (prefixEnd (childrenPrefix parent))) cursor).filter
        (depthOf · = (parent.getD []).length + 1) = left (childKeys reg parent) cursor := by
    cases cursor with
    | none => rfl
    | some c => simp only [left, childKeys, List.filter_filter, Bool.and_comm]
  cases parent with
  | none =>
      simp only [childrenPrefix, Option.getD_none, List.length_nil, Nat.zero_add] at hkeys hleft
      simp only [Env.run, Redb.listNamespaces, Env.exec_bind, Env.exec_pure,
        Env.exec_scanNamespaces, hkeys, hleft, List.map_take]
      rfl
  | some p =>
      simp only [childrenPrefix, Option.getD_some] at hkeys hleft
      simp only [Env.run, Redb.listNamespaces, Env.exec_bind, exec_requireNamespace,
        hparent p rfl, if_true, Env.exec_pure, Env.exec_scanNamespaces, hkeys, hleft,
        List.map_take]
      rfl

/-! ## When a listing is complete -/

/-- Following cursors from the start returns every item once, by ascending
name, and nothing else. -/
def ListsExactly (list : PageRequest → Except Error (Page α)) (limit : Nat)
    (isItem : α → Prop) (name : α → Text) : Prop :=
  ∃ entries, Follows list limit none entries ∧
    (∀ x, x ∈ entries.map Entry.item ↔ isItem x) ∧
    (entries.map Entry.item).Pairwise fun a b => name a < name b

/-- A listing that pages through all items but the blind ones lists exactly
the items if and only if none is blind. -/
theorem listsExactly_iff {list : PageRequest → Except Error (Page α)} {limit : Nat}
    {isItem : α → Prop} {name : α → Text} {entries : List (Entry α)}
    (hfollows : Follows list limit none entries)
    (hitem : ∀ x, x ∈ entries.map Entry.item ↔ isItem x ∧ ¬ Blind (name x))
    (hsorted : (entries.map Entry.item).Pairwise fun a b => name a < name b) :
    ListsExactly list limit isItem name ↔ ∀ x, isItem x → ¬ Blind (name x) := by
  constructor
  · rintro ⟨entries', hfollows', hitem', -⟩ x hx
    obtain rfl := hfollows.unique hfollows'
    exact ((hitem x).mp ((hitem' x).mpr hx)).2
  · intro h
    refine ⟨entries, hfollows, fun x => ?_, hsorted⟩
    rw [hitem x]
    exact ⟨And.left, fun hx => ⟨hx, h x hx⟩⟩

/-- Rows whose key is a common prefix and their name come by name. -/
theorem pairwise_name {keys : List Text} {row : Text → Entry α} {name : α → Text} {pre : Text}
    (hsorted : keys.Pairwise (· < ·)) (hkey : ∀ key ∈ keys, key = pre ++ name (row key).item) :
    ((keys.map row).map Entry.item).Pairwise fun a b => name a < name b := by
  rw [List.map_map, List.pairwise_map]
  refine hsorted.imp_of_mem fun {a b} ha hb hlt => ?_
  rw [hkey a ha, hkey b hb, Text.append_lt_append_left] at hlt
  exact hlt

theorem tabularRow_tableKey {ns : NamespaceIdent} {name : Text} (hname : ValidName u name) :
    (tabularRow ns (tableKey ⟨ns, name⟩)).item = ⟨ns, name⟩ := by
  have hsplit : (tableKey ⟨ns, name⟩).splitOn nameSeparator =
      (namespaceKey ns).splitOn nameSeparator ++ [name] := by
    rw [tableKey, List.append_assoc, List.singleton_append, List.splitOn_append_cons_self,
      List.splitOn_eq_singleton hname.nameSeparator_notMem]
  simp [tabularRow, hsplit]

theorem listTabulars_complete_iff (env : Env ib) (hreg : reg.WellNamed u) (limit : Nat)
    (kind : Tabular) {ns : NamespaceIdent} (hns : reg.HasNamespace u ns) :
    ListsExactly (fun page => (env.run (Redb.listTabulars kind ns page) reg).1) limit
        (fun ident => ident.namespc = ns ∧ reg.Has u kind ident) TableIdent.name ↔
      ∀ name, reg.Has u kind ⟨ns, name⟩ → ¬ Blind name := by
  have hsorted : (tabularKeys reg kind ns).Pairwise (· < ·) := Relation.keysIn_sorted ..
  have hmem : ∀ key ∈ tabularKeys reg kind ns, ∃ name, ValidName u name ∧ ¬ Blind name ∧
      key = tableKey ⟨ns, name⟩ ∧ key ∈ reg.tabulars kind := fun key hkey =>
    (mem_keysIn_table hreg hns.1).mp hkey
  have hfollows : Follows (fun page => (env.run (Redb.listTabulars kind ns page) reg).1) limit none
      ((tabularKeys reg kind ns).map (tabularRow ns)) :=
    follows_rows hsorted (fun _ => rfl) fun _ hcursor =>
      listTabulars_page env kind hns.2 limit hcursor
  have hitem : ∀ ident, ident ∈ ((tabularKeys reg kind ns).map (tabularRow ns)).map Entry.item ↔
      (ident.namespc = ns ∧ reg.Has u kind ident) ∧ ¬ Blind ident.name := fun ident => by
    simp only [List.map_map, List.mem_map, Function.comp]
    constructor
    · rintro ⟨key, hkey, rfl⟩
      obtain ⟨name, hname, hblind, rfl, hin⟩ := hmem key hkey
      rw [tabularRow_tableKey hname]
      exact ⟨⟨rfl, ⟨hns.1, hname⟩, hin⟩, hblind⟩
    · rintro ⟨⟨rfl, hident, hin⟩, hblind⟩
      exact ⟨tableKey ident, (mem_keysIn_table hreg hns.1).mpr
        ⟨ident.name, hident.name, hblind, rfl, hin⟩, tabularRow_tableKey hident.name⟩
  have hkey : ∀ key ∈ tabularKeys reg kind ns,
      key = tablePrefix ns ++ (tabularRow ns key).item.name := fun key hkey => by
    obtain ⟨name, hname, -, rfl, -⟩ := hmem key hkey
    rw [tabularRow_tableKey hname]
    rfl
  rw [listsExactly_iff hfollows hitem (pairwise_name hsorted hkey)]
  constructor
  · exact fun h name hname => h ⟨ns, name⟩ ⟨rfl, hname⟩
  · rintro h ⟨ns', name⟩ ⟨rfl, hname⟩
    exact h name hname

/-- The levels of a direct child of `parent`. -/
def childOf (parent : Option NamespaceIdent) (name : Text) : NamespaceIdent :=
  parent.getD [] ++ [name]

/-- The keys a listing of namespaces pages through are those of the direct
children that are not blind. -/
theorem mem_childKeys (hreg : reg.WellNamed u) {parent : Option NamespaceIdent}
    (hparent : ValidParent u parent) {key : Text} :
    key ∈ childKeys reg parent ↔ ∃ name, ValidName u name ∧ ¬ Blind name ∧
      key = namespaceKey (childOf parent name) ∧ key ∈ reg.namespaces := by
  have hvalid : ∀ {more : NamespaceIdent}, more ≠ [] → (∀ t ∈ more, ValidName u t) →
      ValidNamespace u (parent.getD [] ++ more) := fun {more} hne h => by
    cases parent with
    | none => exact ⟨by simpa using hne, h⟩
    | some p => exact (hparent p rfl).append h
  rw [childKeys, List.mem_filter, decide_eq_true_iff, mem_keysIn_child hreg hparent]
  constructor
  · rintro ⟨⟨s, rest, hnames, hblind, rfl, hin⟩, hdepth⟩
    rw [depthOf_namespaceKey (hvalid (by simp) hnames)] at hdepth
    obtain rfl : rest = [] := by
      rw [List.length_append, List.length_cons] at hdepth
      exact List.length_eq_zero_iff.mp (by omega)
    exact ⟨s, hnames s (List.mem_cons_self ..), hblind, rfl, hin⟩
  · rintro ⟨name, hname, hblind, rfl, hin⟩
    have hnames : ∀ t ∈ [name], ValidName u t := by simpa using hname
    refine ⟨⟨name, [], hnames, hblind, rfl, hin⟩, ?_⟩
    rw [childOf, depthOf_namespaceKey (hvalid (by simp) hnames)]
    simp

theorem listNamespaces_complete_iff (env : Env ib) (hreg : reg.WellNamed u) (limit : Nat)
    {parent : Option NamespaceIdent} (hparent : ∀ p ∈ parent, reg.HasNamespace u p) :
    ListsExactly (fun page => (env.run (Redb.listNamespaces parent page) reg).1) limit
        (fun ns => (∃ name, ns = childOf parent name) ∧ reg.HasNamespace u ns)
        (fun ns => ns.getLastD []) ↔
      ∀ name, reg.HasNamespace u (childOf parent name) → ¬ Blind name := by
  have hvalid : ValidParent u parent := fun p hp => (hparent p hp).1
  have hsorted : (childKeys reg parent).Pairwise (· < ·) :=
    (Relation.keysIn_sorted ..).filter _
  have hfollows : Follows (fun page => (env.run (Redb.listNamespaces parent page) reg).1) limit
      none ((childKeys reg parent).map namespaceRow) :=
    follows_rows hsorted (fun _ => rfl) fun _ hcursor =>
      listNamespaces_page env (fun p hp => (hparent p hp).2) limit hcursor
  have hchild : ∀ {name : Text}, ValidName u name → ValidNamespace u (childOf parent name) :=
    fun {name} hname => by
      have hnames : ∀ t ∈ [name], ValidName u t := by simpa using hname
      cases parent with
      | none => exact ⟨by simp [childOf], hnames⟩
      | some p => exact (hvalid p rfl).append hnames
  have hrow : ∀ {name : Text}, ValidName u name →
      (namespaceRow (namespaceKey (childOf parent name))).item = childOf parent name :=
    fun hname => splitOn_namespaceKey (hchild hname)
  have hlast : ∀ name, (childOf parent name).getLastD [] = name := fun name => by
    simp [childOf]
  have hitem : ∀ ns, ns ∈ ((childKeys reg parent).map namespaceRow).map Entry.item ↔
      ((∃ name, ns = childOf parent name) ∧ reg.HasNamespace u ns) ∧ ¬ Blind (ns.getLastD []) :=
    fun ns => by
    simp only [List.map_map, List.mem_map, Function.comp]
    constructor
    · rintro ⟨key, hkey, rfl⟩
      obtain ⟨name, hname, hblind, rfl, hin⟩ := (mem_childKeys hreg hvalid).mp hkey
      rw [hrow hname, hlast]
      exact ⟨⟨⟨name, rfl⟩, hchild hname, hin⟩, hblind⟩
    · rintro ⟨⟨⟨name, rfl⟩, hns, hin⟩, hblind⟩
      rw [hlast] at hblind
      have hname : ValidName u name := hns.2 name (by simp [childOf])
      exact ⟨_, (mem_childKeys hreg hvalid).mpr ⟨name, hname, hblind, rfl, hin⟩, hrow hname⟩
  have hkey : ∀ key ∈ childKeys reg parent,
      key = childrenPrefix parent ++ (namespaceRow key).item.getLastD [] := fun key hkey => by
    obtain ⟨name, hname, -, rfl, -⟩ := (mem_childKeys hreg hvalid).mp hkey
    rw [hrow hname, hlast, childOf, namespaceKey_child hvalid]
    simp [Text.below]
  rw [listsExactly_iff hfollows hitem (pairwise_name hsorted hkey)]
  constructor
  · intro h name hname
    have := h (childOf parent name) ⟨⟨name, rfl⟩, hname⟩
    rwa [hlast] at this
  · rintro h ns ⟨⟨name, rfl⟩, hname⟩
    rw [hlast]
    exact h name hname

/-- Every listing of a registry of validated names is complete, free of
duplicates and in byte order exactly when no direct child is blind. -/
theorem listings_complete_iff (env : Env ib) (u : UnicodeData) (reg : Registry)
    (hreg : reg.WellNamed u) (limit : Nat) :
    (∀ parent : Option NamespaceIdent, (∀ p ∈ parent, reg.HasNamespace u p) →
      (ListsExactly (fun page => (env.run (Redb.listNamespaces parent page) reg).1) limit
          (fun ns => (∃ name, ns = childOf parent name) ∧ reg.HasNamespace u ns)
          (fun ns => ns.getLastD []) ↔
        ∀ name, reg.HasNamespace u (childOf parent name) → ¬ Blind name)) ∧
    ∀ kind ns, reg.HasNamespace u ns →
      (ListsExactly (fun page => (env.run (Redb.listTabulars kind ns page) reg).1) limit
          (fun ident => ident.namespc = ns ∧ reg.Has u kind ident) TableIdent.name ↔
        ∀ name, reg.Has u kind ⟨ns, name⟩ → ¬ Blind name) :=
  ⟨fun _ hparent => listNamespaces_complete_iff env hreg limit hparent,
    fun kind _ hns => listTabulars_complete_iff env hreg limit kind hns⟩

theorem blindRegistry_hasNamespace :
    blindRegistry.HasNamespace UnicodeData.plain ["db".toList] :=
  ⟨validNamespace_db, by decide⟩

theorem blindRegistry_hasTable : blindRegistry.Has UnicodeData.plain .table blindIdent :=
  ⟨validIdent_blindIdent, by decide⟩

theorem listings_complete_iff_blindRegistry :
    ListsExactly
        (fun page => ((Env.empty Iceberg.plain).run
          (Redb.listTabulars .table ["db".toList] page) blindRegistry).1) 10
        (fun ident => ident.namespc = ["db".toList] ∧
          blindRegistry.Has UnicodeData.plain .table ident) TableIdent.name ↔
      ∀ name, blindRegistry.Has UnicodeData.plain .table ⟨["db".toList], name⟩ → ¬ Blind name :=
  (listings_complete_iff (Env.empty Iceberg.plain) UnicodeData.plain blindRegistry
    blindRegistry_wellNamed 10).2 .table _ blindRegistry_hasNamespace

/-- `list_tables` of the namespace that holds only `blindIdent` returns nothing. -/
theorem listTables_incomplete :
    ¬ ∀ (ib : Iceberg) (env : Env ib) (u : UnicodeData) (reg : Registry), reg.WellNamed u →
      ∀ limit ns, reg.HasNamespace u ns →
        ListsExactly (fun page => (env.run (Redb.listTabulars .table ns page) reg).1) limit
          (fun ident => ident.namespc = ns ∧ reg.Has u .table ident) TableIdent.name := by
  intro hall
  have hlists := hall _ (Env.empty Iceberg.plain) _ _ blindRegistry_wellNamed 10 _
    blindRegistry_hasNamespace
  rw [listTabulars_complete_iff _ blindRegistry_wellNamed 10 .table blindRegistry_hasNamespace]
    at hlists
  exact hlists blindIdent.name blindRegistry_hasTable ⟨_, rfl, by decide⟩

end Rustberg
