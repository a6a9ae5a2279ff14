import Rustberg.Auth.Principals
import Rustberg.Catalog.Keys

/-!
# Idempotency keys

What a receipt is filed under (`catalog/v1/idempotency.rs`): the client's
key, and a scope that joins the principal's id, its tenant, the method and a
path that each handler builds for itself. The join can be read back
(`storageKey_eq_iff`), so two receipts meet only where all five agree.

The parts say less than the request. Two principals of one id and tenant may
be different Cedar entities (`receipts_separate`), and the paths of two
requests may be equal though they are for different things: which
(`Confusable`) is `endpointPath_eq_iff`.
-/

namespace Rustberg.Idempotency

open Auth

/-! ## Keys -/

/-- `MAX_KEY_LENGTH`, in bytes. -/
def maxKeyLength : Nat := 256

/-- The same character as `partSeparator`, for another purpose. -/
def scopeSeparator : Char := Char.ofNat 0x1F

structure IdempotencyKey where
  key : Text
  /-- Principal, tenant, method and path. -/
  scope : Text
  deriving DecidableEq

/-- A character a client's key may have. -/
def isKeyChar (c : Char) : Bool := c.isAlphanum || c == '-' || c == '_'

namespace IdempotencyKey

def new (key method path : Text) (principal : Principal) : Option IdempotencyKey :=
  if key = [] ∨ maxKeyLength < key.len then none
  else if key.all isKeyChar = false then none
  else some ⟨key, Text.join [scopeSeparator] [principal.id, principal.tenantId, method, path]⟩

/-- `from_headers`, the header's value given where it is ASCII. -/
def fromHeaders (header : Option Text) (method path : Text) (principal : Principal) :
    Option IdempotencyKey :=
  header.bind fun key => new key method path principal

def storageKey (key : IdempotencyKey) : Text := key.scope ++ [scopeSeparator] ++ key.key

end IdempotencyKey

/-! ## What a key is scoped to -/

/-- The operations that honour the header. -/
inductive Operation where
  | createNamespace (namespc : NamespaceIdent)
  | createTable (table : TableIdent)
  | registerTable (table : TableIdent)
  | commitTable (table : TableIdent)
  | commitTransaction (tables : List TableIdent)
  | createView (view : TableIdent)
  | commitView (view : TableIdent)
  deriving DecidableEq

/-- `/v1/namespaces/{namespace}/{tail}`, the levels joined with `/`. -/
def namespacePath (namespc : NamespaceIdent) (tail : Text) : Text :=
  "/v1/namespaces/".toList ++ Text.join ['/'] namespc ++ '/' :: tail

namespace Operation

/-- The path each handler scopes its key to. -/
def endpointPath : Operation → Text
  | createNamespace _ => "/v1/namespaces".toList
  | createTable table => namespacePath table.namespc "tables".toList
  | registerTable table => namespacePath table.namespc "register".toList
  | commitTable table =>
      "commit-table:".toList ++ Text.join [partSeparator] table.namespc ++ ':' :: table.name
  | commitTransaction _ => "/v1/transactions/commit".toList
  | createView view => namespacePath view.namespc "views".toList
  | commitView view => namespacePath view.namespc ("views/".toList ++ view.name)

/-- The names of an operation pass validation. -/
def Valid (u : UnicodeData) : Operation → Prop
  | createNamespace namespc => ValidNamespace u namespc
  | createTable table | registerTable table | commitTable table => ValidIdent u table
  | commitTransaction tables => ∀ table ∈ tables, ValidIdent u table
  | createView view | commitView view => ValidIdent u view

/-- For the same operation, on the same namespace, table, view or set of tables. -/
def Same : Operation → Operation → Prop
  | commitTransaction tables, commitTransaction tables' => ∀ table, table ∈ tables ↔ table ∈ tables'
  | op, op' => op = op'

end Operation

/-- Two operations of one path that are for different things. -/
inductive Confusable : Operation → Operation → Prop
  | namespaces {ns ns' : NamespaceIdent} (h : ns ≠ ns') :
      Confusable (.createNamespace ns) (.createNamespace ns')
  | transactions {ts ts' : List TableIdent} (h : ¬ ∀ table, table ∈ ts ↔ table ∈ ts') :
      Confusable (.commitTransaction ts) (.commitTransaction ts')
  | tables {ns : NamespaceIdent} {name name' : Text} (h : name ≠ name') :
      Confusable (.createTable ⟨ns, name⟩) (.createTable ⟨ns, name'⟩)
  | registers {ns : NamespaceIdent} {name name' : Text} (h : name ≠ name') :
      Confusable (.registerTable ⟨ns, name⟩) (.registerTable ⟨ns, name'⟩)
  | views {ns : NamespaceIdent} {name name' : Text} (h : name ≠ name') :
      Confusable (.createView ⟨ns, name⟩) (.createView ⟨ns, name'⟩)
  /-- A colon in the last level or in the table's name. -/
  | colon {ns : NamespaceIdent} {level level' name name' : Text} (hlevel : level ≠ level')
      (h : level ++ ':' :: name = level' ++ ':' :: name') :
      Confusable (.commitTable ⟨ns ++ [level], name⟩) (.commitTable ⟨ns ++ [level'], name'⟩)
  /-- A view called `tables`, and the tables of a namespace called `views`. -/
  | viewTables {ns : NamespaceIdent} {name : Text} :
      Confusable (.commitView ⟨ns, "tables".toList⟩) (.createTable ⟨ns ++ ["views".toList], name⟩)
  | viewRegister {ns : NamespaceIdent} {name : Text} :
      Confusable (.commitView ⟨ns, "register".toList⟩)
        (.registerTable ⟨ns ++ ["views".toList], name⟩)
  | viewViews {ns : NamespaceIdent} {name : Text} :
      Confusable (.commitView ⟨ns, "views".toList⟩) (.createView ⟨ns ++ ["views".toList], name⟩)

/-! ## Reading a path back -/

variable {u : UnicodeData}

theorem splitOn_root : "/v1/namespaces".toList.splitOn '/' =
    [[], "v1".toList, "namespaces".toList] := by decide

/-- The levels of a namespace between two other parts of a path. -/
theorem splitOn_between {ns : NamespaceIdent} (h : ValidNamespace u ns) (root tail : Text) :
    ((root ++ ['/']) ++ Text.join ['/'] ns ++ '/' :: tail).splitOn '/' =
      root.splitOn '/' ++ (ns ++ tail.splitOn '/') := by
  have hns : (Text.join ['/'] ns).splitOn '/' = ns :=
    List.splitOn_intercalate '/' (fun s hs => (h.2 s hs).slash_notMem) h.1
  rw [List.append_assoc, List.append_assoc, List.singleton_append, List.splitOn_append_cons_self,
    List.splitOn_append_cons_self, hns]

theorem splitOn_namespacePath {ns : NamespaceIdent} (h : ValidNamespace u ns) {tail : Text}
    {segments : List Text} (htail : tail.splitOn '/' = segments) :
    (namespacePath ns tail).splitOn '/' =
      [[], "v1".toList, "namespaces".toList] ++ (ns ++ segments) := by
  have hroot : "/v1/namespaces/".toList = "/v1/namespaces".toList ++ ['/'] := by decide
  have hpath : namespacePath ns tail =
      ("/v1/namespaces".toList ++ ['/']) ++ Text.join ['/'] ns ++ '/' :: tail :=
    congrArg (fun root => root ++ Text.join ['/'] ns ++ '/' :: tail) hroot
  rw [hpath, splitOn_between h, splitOn_root, htail]

/-- A path as the catalog's names make it. -/
inductive Scope where
  | namespaces
  | transactions
  | commit (path : Text)
  /-- What lies below `/v1/namespaces`. -/
  | under (levels : List Text)

def Operation.scope : Operation → Scope
  | .createNamespace _ => .namespaces
  | .createTable table => .under (table.namespc ++ ["tables".toList])
  | .registerTable table => .under (table.namespc ++ ["register".toList])
  | .commitTable table => .commit (commitTable table).endpointPath
  | .commitTransaction _ => .transactions
  | .createView view => .under (view.namespc ++ ["views".toList])
  | .commitView view => .under (view.namespc ++ ["views".toList] ++ [view.name])

def Scope.segments : Scope → List Text
  | .namespaces => [[], "v1".toList, "namespaces".toList]
  | .transactions => [[], "v1".toList, "transactions".toList, "commit".toList]
  | .commit path => [path]
  | .under levels => [[], "v1".toList, "namespaces".toList] ++ levels

theorem slash_notMem_commitTable {table : TableIdent} (h : ValidIdent u table) :
    '/' ∉ (Operation.commitTable table).endpointPath := by
  have hns : '/' ∉ namespaceKey table.namespc :=
    notMem_namespaceKey (by decide) fun s hs => (h.namespc.2 s hs).slash_notMem
  intro hmem
  rcases List.mem_append.mp hmem with hmem | hmem
  · rcases List.mem_append.mp hmem with hmem | hmem
    · revert hmem
      decide
    · exact hns hmem
  · rcases List.mem_cons.mp hmem with hmem | hmem
    · cases hmem
    · exact h.name.slash_notMem hmem

theorem splitOn_viewPath {name : Text} (h : ValidName u name) :
    ("views/".toList ++ name).splitOn '/' = ["views".toList, name] := by
  have hpath : "views/".toList ++ name = "views".toList ++ '/' :: name := by simp
  have hword : "views".toList.splitOn '/' = ["views".toList] := by decide
  rw [hpath, List.splitOn_append_cons_self, hword, List.splitOn_eq_singleton h.slash_notMem]
  rfl

theorem splitOn_endpointPath {op : Operation} (h : op.Valid u) :
    op.endpointPath.splitOn '/' = op.scope.segments := by
  cases op with
  | createNamespace ns => exact splitOn_root
  | createTable table => exact splitOn_namespacePath h.namespc (by decide)
  | registerTable table => exact splitOn_namespacePath h.namespc (by decide)
  | commitTable table => exact List.splitOn_eq_singleton (slash_notMem_commitTable h)
  | commitTransaction tables =>
      exact show "/v1/transactions/commit".toList.splitOn '/' =
        [[], "v1".toList, "transactions".toList, "commit".toList] by decide
  | createView view => exact splitOn_namespacePath h.namespc (by decide)
  | commitView view =>
      rw [Operation.scope, Scope.segments, List.append_assoc view.namespc]
      exact splitOn_namespacePath h.namespc (splitOn_viewPath h.name)

theorem Operation.levels_ne_nil {op : Operation} {levels : List Text} (h : op.Valid u)
    (hscope : op.scope = .under levels) : levels ≠ [] := by
  cases op <;> cases hscope <;> simp

theorem Scope.segments_inj {scope scope' : Scope}
    (h : ∀ levels, scope = .under levels → levels ≠ [])
    (h' : ∀ levels, scope' = .under levels → levels ≠ []) (heq : scope.segments = scope'.segments) :
    scope = scope' := by
  cases scope <;> cases scope' <;> simp_all [Scope.segments]

/-- Two valid operations are scoped to one path exactly where it is made alike. -/
theorem endpointPath_eq_iff_scope {op op' : Operation} (h : op.Valid u) (h' : op'.Valid u) :
    op.endpointPath = op'.endpointPath ↔ op.scope = op'.scope := by
  constructor
  · intro heq
    have hsplit := congrArg (List.splitOn '/') heq
    rw [splitOn_endpointPath h, splitOn_endpointPath h'] at hsplit
    exact Scope.segments_inj (fun _ => op.levels_ne_nil h) (fun _ => op'.levels_ne_nil h') hsplit
  · intro heq
    have hjoin := congrArg (fun scope => List.intercalate ['/'] scope.segments) heq
    simp only [← splitOn_endpointPath h, ← splitOn_endpointPath h'] at hjoin
    rwa [List.intercalate_splitOn, List.intercalate_splitOn] at hjoin

/-- A commit's path: the name is written behind the last level. -/
theorem commitTable_endpointPath (ns : NamespaceIdent) (level name : Text) :
    (Operation.commitTable ⟨ns ++ [level], name⟩).endpointPath =
      "commit-table:".toList ++ namespaceKey (ns ++ [level ++ ':' :: name]) := by
  have hlast : namespaceKey (ns ++ [level]) ++ ':' :: name =
      namespaceKey (ns ++ [level ++ ':' :: name]) := Text.join_append_last ns level (':' :: name)
  change ("commit-table:".toList ++ namespaceKey (ns ++ [level])) ++ ':' :: name = _
  rw [List.append_assoc]
  exact congrArg _ hlast

theorem commitTable_path_eq_iff {ns ns' : NamespaceIdent} {level level' name name' : Text}
    (h : ValidIdent u ⟨ns ++ [level], name⟩) (h' : ValidIdent u ⟨ns' ++ [level'], name'⟩) :
    (Operation.commitTable ⟨ns ++ [level], name⟩).endpointPath =
        (Operation.commitTable ⟨ns' ++ [level'], name'⟩).endpointPath ↔
      ns = ns' ∧ level ++ ':' :: name = level' ++ ':' :: name' := by
  have hlast : ∀ {ns : NamespaceIdent} {level name : Text}, ValidIdent u ⟨ns ++ [level], name⟩ →
      ∀ s ∈ ns ++ [level ++ ':' :: name], partSeparator ∉ s := by
    intro ns level name h s hs
    rcases List.mem_append.mp hs with hs | hs
    · exact (h.namespc.2 s (List.mem_append_left _ hs)).partSeparator_notMem
    · obtain rfl := List.mem_singleton.mp hs
      have hlevel := (h.namespc.2 level (by simp)).partSeparator_notMem
      have hname := h.name.partSeparator_notMem
      simp only [List.mem_append, List.mem_cons, not_or]
      exact ⟨hlevel, by decide, hname⟩
  rw [commitTable_endpointPath, commitTable_endpointPath, List.append_cancel_left_eq]
  constructor
  · intro heq
    have hsplit := congrArg (List.splitOn partSeparator) heq
    have hread := List.splitOn_intercalate partSeparator (hlast h) (by simp)
    have hread' := List.splitOn_intercalate partSeparator (hlast h') (by simp)
    have hpieces := hread.symm.trans (hsplit.trans hread')
    obtain ⟨hns, hlevel⟩ := List.append_inj' hpieces rfl
    exact ⟨hns, List.singleton_inj.mp hlevel⟩
  · rintro ⟨rfl, heq⟩
    rw [heq]

/-- A level and a name behind a colon, and the same text divided at another. -/
theorem commitTable_cases {table table' : TableIdent} (h : ValidIdent u table)
    (h' : ValidIdent u table')
    (heq : (Operation.commitTable table).endpointPath =
      (Operation.commitTable table').endpointPath) :
    table = table' ∨ Confusable (.commitTable table) (.commitTable table') := by
  obtain ⟨ns, name⟩ := table
  obtain ⟨ns', name'⟩ := table'
  obtain ⟨ns, level, rfl⟩ := (List.eq_nil_or_concat' ns).resolve_left h.namespc.1
  obtain ⟨ns', level', rfl⟩ := (List.eq_nil_or_concat' ns').resolve_left h'.namespc.1
  obtain ⟨rfl, hcolon⟩ := (commitTable_path_eq_iff h h').mp heq
  by_cases hlevel : level = level'
  · subst hlevel
    left
    simpa using hcolon
  · exact Or.inr (.colon hlevel hcolon)

theorem Confusable.endpointPath_eq {op op' : Operation} (h : Confusable op op') (hop : op.Valid u)
    (hop' : op'.Valid u) : op.endpointPath = op'.endpointPath := by
  rw [endpointPath_eq_iff_scope hop hop']
  cases h with
  | namespaces h => rfl
  | transactions h => rfl
  | tables h => rfl
  | registers h => rfl
  | views h => rfl
  | colon hlevel h => exact congrArg Scope.commit ((commitTable_path_eq_iff hop hop').mpr ⟨rfl, h⟩)
  | viewTables => rfl
  | viewRegister => rfl
  | viewViews => rfl

theorem Operation.Same.refl (op : Operation) : op.Same op := by
  cases op with
  | commitTransaction tables => exact fun _ => Iff.rfl
  | _ => rfl

/-- What can be confused is not the same. -/
theorem Confusable.not_same {op op' : Operation} (h : Confusable op op') : ¬ op.Same op' := by
  intro hsame
  cases h with
  | namespaces h => exact h (Operation.createNamespace.inj hsame)
  | transactions h => exact h hsame
  | tables h => exact h (TableIdent.mk.inj (Operation.createTable.inj hsame)).2
  | registers h => exact h (TableIdent.mk.inj (Operation.registerTable.inj hsame)).2
  | views h => exact h (TableIdent.mk.inj (Operation.createView.inj hsame)).2
  | colon hlevel h =>
      have hns := (TableIdent.mk.inj (Operation.commitTable.inj hsame)).1
      exact hlevel (List.singleton_inj.mp (List.append_inj' hns rfl).2)
  | viewTables => cases hsame
  | viewRegister => cases hsame
  | viewViews => cases hsame

theorem Operation.Same.scope_eq {op op' : Operation} (h : op.Same op') : op.scope = op'.scope := by
  cases op <;> cases op' <;> first | rfl | cases h <;> rfl

theorem under_inj {ns ns' : NamespaceIdent} {word word' : Text}
    (h : Scope.under (ns ++ [word]) = .under (ns' ++ [word'])) : ns = ns' ∧ word = word' := by
  obtain ⟨hns, hword⟩ := List.append_inj' (Scope.under.inj h) rfl
  exact ⟨hns, List.singleton_inj.mp hword⟩

/-- Creations in one namespace are told apart by their names only. -/
theorem same_or_named (kind : TableIdent → Operation) {table table' : TableIdent}
    (hsame : ∀ table, (kind table).Same (kind table))
    (hnamed : ∀ {ns name name'}, name ≠ name' → Confusable (kind ⟨ns, name⟩) (kind ⟨ns, name'⟩))
    (hns : table.namespc = table'.namespc) :
    (kind table).Same (kind table') ∨ Confusable (kind table) (kind table') := by
  obtain ⟨ns, name⟩ := table
  obtain ⟨ns', name'⟩ := table'
  obtain rfl : ns = ns' := hns
  by_cases hname : name = name'
  · subst hname
    exact Or.inl (hsame _)
  · exact Or.inr (hnamed hname)

theorem words_ne : "tables".toList ≠ "register".toList ∧ "tables".toList ≠ "views".toList ∧
    "register".toList ≠ "views".toList := by decide

theorem scope_cases {op op' : Operation} (h : op.Valid u) (h' : op'.Valid u)
    (heq : op.scope = op'.scope) : op.Same op' ∨ Confusable op op' ∨ Confusable op' op := by
  cases op with
  | createNamespace ns =>
      cases op' <;> try cases heq
      next ns' =>
      by_cases hns : ns = ns'
      · exact Or.inl (congrArg Operation.createNamespace hns)
      · exact Or.inr (Or.inl (.namespaces hns))
  | commitTransaction ts =>
      cases op' <;> try cases heq
      next ts' =>
      by_cases hts : ∀ table, table ∈ ts ↔ table ∈ ts'
      · exact Or.inl hts
      · exact Or.inr (Or.inl (.transactions hts))
  | commitTable table =>
      cases op' <;> try cases heq
      next table' =>
      rcases commitTable_cases h h' (Scope.commit.inj heq) with rfl | hconf
      · exact Or.inl rfl
      · exact Or.inr (Or.inl hconf)
  | createTable table =>
      cases op' with
      | createTable table' =>
          exact (same_or_named .createTable (fun _ => rfl) .tables (under_inj heq).1).imp_right
            Or.inl
      | registerTable table' => exact absurd (under_inj heq).2 words_ne.1
      | createView view => exact absurd (under_inj heq).2 words_ne.2.1
      | commitView view =>
          obtain ⟨ns, name⟩ := table
          obtain ⟨ns', name'⟩ := view
          obtain ⟨rfl, rfl⟩ := under_inj heq
          exact Or.inr (Or.inr .viewTables)
      | createNamespace ns => cases heq
      | commitTable table' => cases heq
      | commitTransaction ts => cases heq
  | registerTable table =>
      cases op' with
      | createTable table' => exact absurd (under_inj heq).2.symm words_ne.1
      | registerTable table' =>
          exact (same_or_named .registerTable (fun _ => rfl) .registers (under_inj heq).1).imp_right
            Or.inl
      | createView view => exact absurd (under_inj heq).2 words_ne.2.2
      | commitView view =>
          obtain ⟨ns, name⟩ := table
          obtain ⟨ns', name'⟩ := view
          obtain ⟨rfl, rfl⟩ := under_inj heq
          exact Or.inr (Or.inr .viewRegister)
      | createNamespace ns => cases heq
      | commitTable table' => cases heq
      | commitTransaction ts => cases heq
  | createView view =>
      cases op' with
      | createTable table' => exact absurd (under_inj heq).2.symm words_ne.2.1
      | registerTable table' => exact absurd (under_inj heq).2.symm words_ne.2.2
      | createView view' =>
          exact (same_or_named .createView (fun _ => rfl) .views (under_inj heq).1).imp_right Or.inl
      | commitView view' =>
          obtain ⟨ns, name⟩ := view
          obtain ⟨ns', name'⟩ := view'
          obtain ⟨rfl, rfl⟩ := under_inj heq
          exact Or.inr (Or.inr .viewViews)
      | createNamespace ns => cases heq
      | commitTable table' => cases heq
      | commitTransaction ts => cases heq
  | commitView view =>
      obtain ⟨ns, name⟩ := view
      cases op' with
      | createTable table' =>
          obtain ⟨ns', name'⟩ := table'
          obtain ⟨rfl, rfl⟩ := under_inj heq
          exact Or.inr (Or.inl .viewTables)
      | registerTable table' =>
          obtain ⟨ns', name'⟩ := table'
          obtain ⟨rfl, rfl⟩ := under_inj heq
          exact Or.inr (Or.inl .viewRegister)
      | createView view' =>
          obtain ⟨ns', name'⟩ := view'
          obtain ⟨rfl, rfl⟩ := under_inj heq
          exact Or.inr (Or.inl .viewViews)
      | commitView view' =>
          obtain ⟨ns', name'⟩ := view'
          obtain ⟨hns, hname⟩ := under_inj heq
          obtain ⟨rfl, -⟩ := List.append_inj' hns rfl
          obtain rfl : name = name' := hname
          exact Or.inl rfl
      | createNamespace ns => cases heq
      | commitTable table' => cases heq
      | commitTransaction ts => cases heq

/-- Which two operations have one path. -/
theorem endpointPath_eq_iff {op op' : Operation} (h : op.Valid u) (h' : op'.Valid u) :
    op.endpointPath = op'.endpointPath ↔ op.Same op' ∨ Confusable op op' ∨ Confusable op' op := by
  constructor
  · intro heq
    exact scope_cases h h' ((endpointPath_eq_iff_scope h h').mp heq)
  · rintro (hsame | hconf | hconf)
    · exact (endpointPath_eq_iff_scope h h').mpr hsame.scope_eq
    · exact hconf.endpointPath_eq h h'
    · exact (hconf.endpointPath_eq h' h).symm

/-! ## Reading a storage key back -/

namespace IdempotencyKey

variable {k k' method method' path path' : Text} {principal principal' : Principal}
  {key key' : IdempotencyKey}

theorem new_eq_some : new k method path principal = some key ↔
    (k ≠ [] ∧ k.len ≤ maxKeyLength ∧ k.all isKeyChar = true) ∧
      key = ⟨k, Text.join [scopeSeparator] [principal.id, principal.tenantId, method, path]⟩ := by
  unfold new
  split
  · next h =>
      refine iff_of_false (fun h => by cases h) ?_
      rintro ⟨⟨hne, hlen, -⟩, -⟩
      exact h.elim hne (Nat.not_lt.mpr hlen)
  split
  · next h =>
      refine iff_of_false (fun h => by cases h) ?_
      rintro ⟨⟨-, -, hall⟩, -⟩
      rw [h] at hall
      cases hall
  · next hlen hall =>
      have hbound := not_or.mp hlen
      have hgood : k ≠ [] ∧ k.len ≤ maxKeyLength ∧ k.all isKeyChar = true :=
        ⟨hbound.1, Nat.not_lt.mp hbound.2, by simpa using hall⟩
      simp only [Option.some.injEq, hgood, ne_eq, not_false_eq_true, and_self, true_and]
      exact eq_comm

theorem separator_notMem (h : new k method path principal = some key) : scopeSeparator ∉ k := by
  intro hmem
  have hchar := List.all_eq_true.mp (new_eq_some.mp h).1.2.2 _ hmem
  revert hchar
  decide

/-- A scope and a client's key divide a storage key in one way. -/
theorem storageKey_eq_iff_scope (h : new k method path principal = some key)
    (h' : new k' method' path' principal' = some key') :
    key.storageKey = key'.storageKey ↔ key.scope = key'.scope ∧ k = k' := by
  obtain ⟨-, rfl⟩ := new_eq_some.mp h
  obtain ⟨-, rfl⟩ := new_eq_some.mp h'
  unfold storageKey
  rw [List.append_assoc, List.append_assoc, List.singleton_append, List.singleton_append]
  exact Text.append_cons_inj_right (separator_notMem h) (separator_notMem h')

/-- For one principal and method, what is left is the path and the client's key. -/
theorem storageKey_eq_iff_of_principal (h : new k method path principal = some key)
    (h' : new k' method path' principal = some key') :
    key.storageKey = key'.storageKey ↔ path = path' ∧ k = k' := by
  rw [storageKey_eq_iff_scope h h', (new_eq_some.mp h).2, (new_eq_some.mp h').2]
  refine and_congr_left fun _ => ?_
  simp [Text.join, List.intercalate_cons_cons]

/-- A storage key says the client's key and everything it was scoped to. -/
theorem storageKey_eq_iff (hp : scopeSeparator ∉ principal.id ∧ scopeSeparator ∉ principal.tenantId)
    (hp' : scopeSeparator ∉ principal'.id ∧ scopeSeparator ∉ principal'.tenantId)
    (h : new k method path principal = some key)
    (h' : new k' method path' principal' = some key') :
    key.storageKey = key'.storageKey ↔
      principal.id = principal'.id ∧ principal.tenantId = principal'.tenantId ∧ path = path' ∧
        k = k' := by
  rw [storageKey_eq_iff_scope h h', (new_eq_some.mp h).2, (new_eq_some.mp h').2]
  simp only [Text.join, List.intercalate_cons_cons, List.intercalate_singleton, List.append_assoc,
    List.singleton_append]
  rw [Text.append_cons_inj_left hp.1 hp'.1, Text.append_cons_inj_left hp.2 hp'.2,
    List.append_cancel_left_eq, List.cons.injEq, and_assoc, and_assoc]
  simp

end IdempotencyKey

/-! ## Principals of one id and tenant -/

/-- The method every handler that honours the header has. -/
def post : Text := "POST".toList

/-- An API key and a principal of another kind that agree in all a receipt is filed under. -/
structure KindsMeet (principal principal' : Principal) (path path' k k' : Text) : Prop where
  id : principal.id = principal'.id
  tenant : principal.tenantId = principal'.tenantId
  path : path = path'
  key : k = k'
  kinds : ¬ (principal.principalType = .apiKey ↔ principal'.principalType = .apiKey)

/-- Two receipts are one only for one principal: but for two kinds that meet. -/
theorem receipts_separate (u : UnicodeData) (auth : Authenticators)
    (principal principal' : Principal)
    (hp : auth.Produces u principal) (hp' : auth.Produces u principal') (op op' : Operation)
    (k k' : Text) (key key' : IdempotencyKey)
    (h : IdempotencyKey.new k post op.endpointPath principal = some key)
    (h' : IdempotencyKey.new k' post op'.endpointPath principal' = some key') :
    (key.storageKey = key'.storageKey → k = k' ∧ principal.SeenAlike principal') ↔
      ¬ KindsMeet principal principal' op.endpointPath op'.endpointPath k k' := by
  rw [IdempotencyKey.storageKey_eq_iff (Authenticators.separator_notMem hp)
    (Authenticators.separator_notMem hp') h h', Principal.seenAlike_iff, Principal.uid_eq_iff]
  constructor
  · rintro hprop ⟨hid, htenant, hpath, hk, hkinds⟩
    exact hkinds (hprop ⟨hid, htenant, hpath, hk⟩).2.1.2
  · rintro hmeet ⟨hid, htenant, hpath, hk⟩
    refine ⟨hk, ⟨hid, ?_⟩, htenant⟩
    by_contra hkinds
    exact hmeet ⟨hid, htenant, hpath, hk, hkinds⟩

/-! ### A key and a user called alike -/

/-- A deployment with one API key and an identity provider. -/
def etlKeys : Authenticators where
  jwt := some ⟨"default".toList, "tenant_id".toList, "roles".toList⟩
  apiKeys := [(⟨"etl".toList, "acme".toList, []⟩, some "rb_0123456789".toList)]

def etlKey : Principal := ⟨"etl".toList, .apiKey, "acme".toList, []⟩

/-- The user whose subject is the key's name. -/
def etlUser : Principal := ⟨"etl".toList, .user, "acme".toList, []⟩

/-- Another user of the tenant. -/
def annUser : Principal := ⟨"ann".toList, .user, "acme".toList, []⟩

theorem etlKey_produced : etlKeys.Produces .plain etlKey := by
  have hkey : ApiKeyConfig.buildFrom .plain ⟨"etl".toList, "acme".toList, []⟩
      (some "rb_0123456789".toList) = .ok ⟨"etl".toList, "acme".toList, []⟩ := by
    decide
  exact .apiKey (List.mem_singleton_self _) hkey

theorem etlUser_produced : etlKeys.Produces .plain etlUser := by
  have hclaims : claimsToPrincipal .plain ⟨"default".toList, "tenant_id".toList, "roles".toList⟩
      ⟨"etl".toList, [("tenant_id".toList, .string "acme".toList)]⟩ = .ok etlUser := by
    decide
  exact .token rfl hclaims

theorem annUser_produced : etlKeys.Produces .plain annUser := by
  have hclaims : claimsToPrincipal .plain ⟨"default".toList, "tenant_id".toList, "roles".toList⟩
      ⟨"ann".toList, [("tenant_id".toList, .string "acme".toList)]⟩ = .ok annUser := by
    decide
  exact .token rfl hclaims

def creation : Operation := .createTable ⟨["db".toList], "t".toList⟩

def keyOf (principal : Principal) : IdempotencyKey :=
  ⟨"k-1".toList,
    Text.join [scopeSeparator] [principal.id, principal.tenantId, post, creation.endpointPath]⟩

theorem new_keyOf (principal : Principal) :
    IdempotencyKey.new "k-1".toList post creation.endpointPath principal = some (keyOf principal) :=
  IdempotencyKey.new_eq_some.mpr ⟨by decide, rfl⟩

/-- The key's receipts are apart from another user's, and not from those of the user who is
called as the key is. -/
theorem receipts_separate_etl :
    (keyOf etlKey).storageKey ≠ (keyOf annUser).storageKey ∧
      ¬ ((keyOf etlKey).storageKey = (keyOf etlUser).storageKey →
        "k-1".toList = "k-1".toList ∧ etlKey.SeenAlike etlUser) := by
  constructor
  · intro heq
    have halike := (receipts_separate .plain etlKeys etlKey annUser etlKey_produced annUser_produced
      creation creation _ _ _ _ (new_keyOf etlKey) (new_keyOf annUser)).mpr
        fun hmeet => absurd hmeet.id (by decide)
    have huid : etlKey.uid ≠ annUser.uid := by decide
    exact huid (Principal.seenAlike_iff.mp (halike heq).2).1
  · rw [receipts_separate .plain etlKeys etlKey etlUser etlKey_produced etlUser_produced creation
      creation _ _ _ _ (new_keyOf etlKey) (new_keyOf etlUser), not_not]
    exact ⟨rfl, rfl, rfl, rfl, by decide⟩

/-- The key's receipt answers the user. -/
theorem receipt_crosses :
    ¬ ∀ (u : UnicodeData) (auth : Authenticators) (principal principal' : Principal),
      auth.Produces u principal → auth.Produces u principal' → ∀ (op op' : Operation) (k k' : Text)
        (key key' : IdempotencyKey),
        IdempotencyKey.new k post op.endpointPath principal = some key →
          IdempotencyKey.new k' post op'.endpointPath principal' = some key' →
            key.storageKey = key'.storageKey → k = k' ∧ principal.SeenAlike principal' := by
  intro hall
  have halike :=
    (hall .plain etlKeys etlKey etlUser etlKey_produced etlUser_produced creation creation
    _ _ _ _ (new_keyOf etlKey) (new_keyOf etlUser) rfl).2
  have huid : etlKey.uid ≠ etlUser.uid := by decide
  exact huid (Principal.seenAlike_iff.mp halike).1

end Rustberg.Idempotency
