import Rustberg.Base.Relation
import Rustberg.Names
import Rustberg.Catalog.Iceberg

/-!
# The redb registry and its transactions

`catalog/redb.rs` keeps four relations in one file, each from a byte-ordered
key to a record: namespaces, tables, staged tables and views. Tables and
views have records of one shape and are handled alike (`list_tabulars`),
so both are a `TabularRecord` here.

Every registry access of the source is one closure handed to `blocking`,
and each closure is one redb transaction. The write transactions are
collected in `Transaction`, and `Transaction.apply` is what one does:
`.error` is an aborted transaction, so it carries no registry.
-/

namespace Rustberg

structure NamespaceRecord where
  namespc : List Text
  properties : Properties

/-- `TableRecord` and `ViewRecord`. -/
structure TabularRecord where
  namespc : List Text
  name : Text
  metadataLocation : Text
  /-- Incremented on every commit; re-checked before a pointer swap. -/
  version : UInt64
  deriving DecidableEq

/-- What a namespace holds under a name: the two kinds are listed, created,
renamed and dropped alike. -/
inductive Tabular where
  | table
  | view
  deriving DecidableEq, Repr

structure Registry where
  namespaces : Relation NamespaceRecord
  tables : Relation TabularRecord
  views : Relation TabularRecord
  staged : Relation TabularRecord

namespace Registry

def empty : Registry := ⟨∅, ∅, ∅, ∅⟩

def tabulars (reg : Registry) : Tabular → Relation TabularRecord
  | .table => reg.tables
  | .view => reg.views

def setTabulars (reg : Registry) (kind : Tabular) (m : Relation TabularRecord) : Registry :=
  match kind with
  | .table => { reg with tables := m }
  | .view => { reg with views := m }

@[simp] theorem setTabulars_namespaces (reg : Registry) (kind : Tabular)
    (m : Relation TabularRecord) : (reg.setTabulars kind m).namespaces = reg.namespaces := by
  cases kind <;> rfl

@[simp] theorem setTabulars_staged (reg : Registry) (kind : Tabular)
    (m : Relation TabularRecord) : (reg.setTabulars kind m).staged = reg.staged := by
  cases kind <;> rfl

theorem setTabulars_tabulars (reg : Registry) (kind kind' : Tabular)
    (m : Relation TabularRecord) :
    (reg.setTabulars kind m).tabulars kind' = if kind' = kind then m else reg.tabulars kind' := by
  cases kind <;> cases kind' <;> rfl

@[simp] theorem setTabulars_self (reg : Registry) (kind : Tabular)
    (m : Relation TabularRecord) : (reg.setTabulars kind m).tabulars kind = m := by
  cases kind <;> rfl

end Registry

/-! ## Keys -/

def namespaceKeyOf (parts : List Text) : Text := Text.join [partSeparator] parts

def namespaceKey (ns : NamespaceIdent) : Text := namespaceKeyOf ns

/-- Prefix matching every namespace strictly beneath `ns`. -/
def namespaceChildPrefix (ns : NamespaceIdent) : Text := namespaceKey ns ++ [partSeparator]

def tableKey (table : TableIdent) : Text :=
  namespaceKey table.namespc ++ [nameSeparator] ++ table.name

/-- Prefix matching every table in `ns`, and no table outside it. -/
def tablePrefix (ns : NamespaceIdent) : Text := namespaceKey ns ++ [nameSeparator]

/-- `key.matches(PART_SEPARATOR).count() + 1` -/
def depthOf (key : Text) : Nat := key.count partSeparator + 1

/-- Exclusive upper bound for a prefix scan. -/
def prefixEnd (pre : Text) : Text := pre ++ [Char.ofNat 0xFFFF]

/-! ## Write transactions -/

/-- One pointer swap of a commit: `expected` is the record the commit read,
absent for a staged table that is being created. -/
structure Swap where
  ident : TableIdent
  expected : Option TabularRecord
  newLocation : Text

/-- The record a swap puts in place. -/
def Swap.next (swap : Swap) : TabularRecord where
  namespc := swap.ident.namespc
  name := swap.ident.name
  metadataLocation := swap.newLocation
  version := match swap.expected with
    | some expected => expected.version + 1
    | none => 0

inductive Transaction where
  | createNamespace (namespc : NamespaceIdent) (properties : Properties)
  | updateNamespace (namespc : NamespaceIdent) (properties : Properties)
  | dropNamespace (namespc : NamespaceIdent)
  | create (kind : Tabular) (ident : TableIdent) (metadataLocation display : Text)
  | stage (ident : TableIdent) (metadataLocation : Text)
  | drop (kind : Tabular) (ident : TableIdent)
  | rename (kind : Tabular) (src dest : TableIdent)
  | updateView (view : TableIdent) (expected : UInt64) (expectedLocation newLocation : Text)
  | swap (swaps : List Swap)

def notFound (message : Text) : Error := ⟨.tableNotFound, message⟩

def conflict (message : Text) : Error := ⟨.catalogCommitConflicts, message⟩

/-- Refuses a name already held in this namespace, by a table or a view. -/
def rejectTakenName (reg : Registry) (key display : Text) : Except Error Unit :=
  if (reg.tables[key]?).isSome || (reg.views[key]?).isSome then
    .error ⟨.tableAlreadyExists, display⟩
  else .ok ()

def createNamespaceTx (namespc : NamespaceIdent) (properties : Properties) (reg : Registry) :
    Except Error Registry :=
  let parent := namespc.take (namespc.length - 1)
  if 1 < namespc.length ∧ reg.namespaces[namespaceKeyOf parent]? = none then
    .error ⟨.namespaceNotFound,
      "Parent namespace not found: ".toList ++ Text.join ['.'] parent⟩
  else if reg.namespaces[namespaceKey namespc]? ≠ none then
    .error ⟨.namespaceAlreadyExists, Text.join ['.'] namespc⟩
  else
    .ok { reg with
      namespaces := reg.namespaces.insert (namespaceKey namespc) ⟨namespc, properties⟩ }

def updateNamespaceTx (namespc : NamespaceIdent) (properties : Properties) (reg : Registry) :
    Except Error Registry :=
  if reg.namespaces[namespaceKey namespc]? = none then
    .error ⟨.namespaceNotFound, Text.join ['.'] namespc⟩
  else
    .ok { reg with
      namespaces := reg.namespaces.insert (namespaceKey namespc) ⟨namespc, properties⟩ }

def dropNamespaceTx (namespc : NamespaceIdent) (reg : Registry) : Except Error Registry :=
  let key := namespaceKey namespc
  let tablePre := tablePrefix namespc
  let tableEnd := prefixEnd tablePre
  let childPre := namespaceChildPrefix namespc
  let childEnd := prefixEnd childPre
  let display := Text.join ['.'] namespc
  if reg.namespaces[key]? = none then
    .error ⟨.namespaceNotFound, display⟩
  else if Relation.keysIn reg.tables tablePre tableEnd ≠ [] then
    .error ⟨.preconditionFailed, "Namespace not empty: ".toList ++ display⟩
  else if Relation.keysIn reg.views tablePre tableEnd ≠ [] then
    .error ⟨.preconditionFailed, "Namespace still has views: ".toList ++ display⟩
  else
    -- Staged tables do not block the drop; they go with the namespace.
    let doomed := Relation.keysIn reg.staged tablePre tableEnd
    let staged := doomed.foldl (fun staged key => staged.erase key) reg.staged
    if Relation.keysIn reg.namespaces childPre childEnd ≠ [] then
      .error ⟨.preconditionFailed, "Namespace has child namespaces: ".toList ++ display⟩
    else
      .ok { reg with namespaces := reg.namespaces.erase key, staged := staged }

/-- The insert of `create_table`, `register_table`, `create_view` and
`register_view`. -/
def createTx (kind : Tabular) (ident : TableIdent) (metadataLocation display : Text)
    (reg : Registry) : Except Error Registry :=
  match rejectTakenName reg (tableKey ident) display with
  | .error e => .error e
  | .ok () =>
      .ok (reg.setTabulars kind ((reg.tabulars kind).insert (tableKey ident)
        ⟨ident.namespc, ident.name, metadataLocation, 0⟩))

/-- Overwrites any earlier staging of the same name. -/
def stageTx (ident : TableIdent) (metadataLocation : Text) (reg : Registry) :
    Except Error Registry :=
  .ok { reg with
    staged := reg.staged.insert (tableKey ident) ⟨ident.namespc, ident.name, metadataLocation, 0⟩ }

/-- `drop_table` and `drop_view`. -/
def dropTx (kind : Tabular) (ident : TableIdent) (reg : Registry) : Except Error Registry :=
  let key := tableKey ident
  if (reg.tabulars kind)[key]? = none then
    .error (notFound ident.display)
  else
    .ok (reg.setTabulars kind ((reg.tabulars kind).erase key))

def Tabular.word : Tabular → Text
  | .table => "table".toList
  | .view => "view".toList

/-- `rename_table` and `rename_view`. -/
def renameTx (kind : Tabular) (src dest : TableIdent) (reg : Registry) : Except Error Registry :=
  match (reg.tabulars kind)[tableKey src]? with
  | none =>
      .error (notFound ("Source ".toList ++ kind.word ++ " not found: ".toList ++ src.display))
  | some record =>
      match rejectTakenName reg (tableKey dest)
          ("Destination ".toList ++ kind.word ++ " already exists: ".toList ++ dest.display) with
      | .error e => .error e
      | .ok () =>
          -- Bump so a commit that read the pre-rename entry cannot land.
          let record := { record with
            namespc := dest.namespc, name := dest.name, version := record.version + 1 }
          .ok (reg.setTabulars kind
            (((reg.tabulars kind).insert (tableKey dest) record).erase (tableKey src)))

def updateViewTx (view : TableIdent) (expected : UInt64) (expectedLocation newLocation : Text)
    (reg : Registry) : Except Error Registry :=
  match reg.views[tableKey view]? with
  | none => .error (conflict "View dropped during update".toList)
  | some live =>
      if live.version ≠ expected ∨ live.metadataLocation ≠ expectedLocation then
        .error (conflict "View was modified concurrently".toList)
      else
        let record := ⟨view.namespc, view.name, newLocation, expected + 1⟩
        .ok { reg with views := reg.views.insert (tableKey view) record }

/-- The check and the swap of one table of a commit, inside the swap
transaction. -/
def swapOne (reg : Registry) (swap : Swap) : Except Error Registry :=
  let key := tableKey swap.ident
  let display := swap.ident.display
  match swap.expected with
  | some expected =>
      match reg.tables[key]? with
      | none => .error (conflict ("Table dropped during commit: ".toList ++ display))
      | some current =>
          if current.version ≠ expected.version ∨
              current.metadataLocation ≠ expected.metadataLocation then
            .error (conflict ("Commit conflict on table ".toList ++ display ++
              ": expected version ".toList ++ Text.decimal expected.version.toNat ++
              ", found ".toList ++ Text.decimal current.version.toNat))
          else
            .ok { reg with tables := reg.tables.insert key swap.next }
  | none =>
      if reg.namespaces[namespaceKeyOf swap.ident.namespc]? = none then
        .error ⟨.namespaceNotFound, "Namespace ".toList ++ Text.join ['.'] swap.ident.namespc ++
          " was dropped while ".toList ++ display ++ " was staged".toList⟩
      else if reg.views[key]? ≠ none then
        .error ⟨.tableAlreadyExists, display ++
          " was created as a view while this staged commit was in flight".toList⟩
      else if reg.tables[key]? ≠ none then
        .error (conflict ("Table ".toList ++ display ++
          " was created by another writer while this staged commit was in flight".toList))
      else
        -- Removed with the same transaction, so a table is never both staged and real.
        .ok { reg with tables := reg.tables.insert key swap.next, staged := reg.staged.erase key }

/-- Every pointer in one transaction, or none. -/
def swapTx (swaps : List Swap) (reg : Registry) : Except Error Registry :=
  swaps.foldlM swapOne reg

def Transaction.apply : Transaction → Registry → Except Error Registry
  | .createNamespace namespc properties => createNamespaceTx namespc properties
  | .updateNamespace namespc properties => updateNamespaceTx namespc properties
  | .dropNamespace namespc => dropNamespaceTx namespc
  | .create kind ident metadataLocation display => createTx kind ident metadataLocation display
  | .stage ident metadataLocation => stageTx ident metadataLocation
  | .drop kind ident => dropTx kind ident
  | .rename kind src dest => renameTx kind src dest
  | .updateView view expected expectedLocation newLocation =>
      updateViewTx view expected expectedLocation newLocation
  | .swap swaps => swapTx swaps

end Rustberg
