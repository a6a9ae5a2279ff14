import Rustberg.Base.Process
import Rustberg.Catalog.Registry
import Rustberg.Catalog.MetadataFile
import Rustberg.LocationBound

/-!
# Operations as programs over atomic effects

An operation of a catalog is a sequence of effects: read transactions and
write transactions on the registry, reads and writes of metadata files,
and drawing a fresh UUID. Each effect is atomic and may fail with an
error, and between two effects of one call those of other calls may take
place. `Op` is the monad the operations are written in; paging (`Page`,
`PageRequest`) and the row-lineage check of `catalog/store.rs` follow.
-/

namespace Rustberg

open Process (Prog)

/-- One atomic step of a catalog operation. The first five are read
transactions, `write` is a write transaction, the others are file storage. -/
inductive Effect (ib : Iceberg) where
  | getNamespace (key : Text)
  | getTabular (kind : Tabular) (key : Text)
  | getStaged (key : Text)
  | scanNamespaces (start stop : Text) (depth probe : Nat)
  | scanTabulars (kind : Tabular) (start stop : Text) (probe : Nat)
  | write (tx : Transaction)
  | readMetadata (location : Text)
  | writeMetadata (metadata : ib.Metadata) (location : Text)
  | readViewMetadata (location : Text)
  | writeViewMetadata (metadata : ib.ViewMetadata) (location : Text)
  | delete (location : Text)
  | newUuid

variable {ib : Iceberg}

/-- What a successful effect answers. -/
abbrev Effect.Payload : Effect ib → Type
  | .getNamespace _ => Option NamespaceRecord
  | .getTabular _ _ => Option TabularRecord
  | .getStaged _ => Option TabularRecord
  | .scanNamespaces .. => List Text
  | .scanTabulars .. => List Text
  | .write _ => Unit
  | .readMetadata _ => ib.Metadata
  | .writeMetadata _ _ => Unit
  | .readViewMetadata _ => ib.ViewMetadata
  | .writeViewMetadata _ _ => Unit
  | .delete _ => Unit
  | .newUuid => Text

abbrev Effect.Answer (e : Effect ib) : Type := Except Error e.Payload

/-- A catalog operation: effects in order, ending at the first error. -/
abbrev Op (ib : Iceberg) (α : Type) : Type :=
  ExceptT Error (Prog (Effect ib) Effect.Answer) α

/-- Perform one effect; its error is the operation's. -/
def act (e : Effect ib) : Op ib e.Payload := ExceptT.mk (Prog.call e)

namespace Op

def getNamespace (key : Text) : Op ib (Option NamespaceRecord) := act (.getNamespace key)

def getTabular (kind : Tabular) (key : Text) : Op ib (Option TabularRecord) :=
  act (.getTabular kind key)

def getStaged (key : Text) : Op ib (Option TabularRecord) := act (.getStaged key)

def scanNamespaces (start stop : Text) (depth probe : Nat) : Op ib (List Text) :=
  act (.scanNamespaces start stop depth probe)

def scanTabulars (kind : Tabular) (start stop : Text) (probe : Nat) : Op ib (List Text) :=
  act (.scanTabulars kind start stop probe)

def write (tx : Transaction) : Op ib Unit := act (.write tx)

def readMetadata (location : Text) : Op ib ib.Metadata := act (.readMetadata location)

def writeMetadata (metadata : ib.Metadata) (location : Text) : Op ib Unit :=
  act (.writeMetadata metadata location)

def readViewMetadata (location : Text) : Op ib ib.ViewMetadata := act (.readViewMetadata location)

def writeViewMetadata (metadata : ib.ViewMetadata) (location : Text) : Op ib Unit :=
  act (.writeViewMetadata metadata location)

def delete (location : Text) : Op ib Unit := act (.delete location)

def newUuid : Op ib Text := act .newUuid

end Op

/-- Run `op` and look at its error. -/
def capture {α : Type} (op : Op ib α) : Op ib (Except Error α) :=
  ExceptT.mk (op.run >>= fun r => Prog.done (Except.ok r))

/-- A pure step that may fail. -/
def ofExcept {α : Type} (r : Except Error α) : Op ib α := ExceptT.mk (Prog.done r)

/-! ## Paging -/

def maxPageSize : Nat := 1000

structure PageRequest where
  after : Option Text
  limit : Nat

namespace PageRequest

def first (limit : Nat) : PageRequest := ⟨none, max 1 (min limit maxPageSize)⟩

/-- `PageRequest::after` -/
def resume (cursor : Text) (limit : Nat) : PageRequest :=
  ⟨some cursor, max 1 (min limit maxPageSize)⟩

def effectiveLimit (page : PageRequest) : Nat := max 1 (min page.limit maxPageSize)

def probeLimit (page : PageRequest) : Nat := page.effectiveLimit + 1

end PageRequest

structure Entry (α : Type) where
  cursor : Text
  item : α
  deriving DecidableEq

structure Page (α : Type) where
  entries : List (Entry α)
  next : Option Text
  deriving DecidableEq

/-- Truncates to the real limit, and reports a cursor only when the probe
proved another row exists. -/
def Page.fromProbe {α : Type} (rows : List (Entry α)) (request : PageRequest) : Page α :=
  let limit := request.effectiveLimit
  if limit < rows.length then
    let rows := rows.take limit
    ⟨rows, rows.getLast?.map Entry.cursor⟩
  else ⟨rows, none⟩

/-- Where a paged scan begins: the prefix, or just past the cursor. A cursor
of another prefix is ignored. -/
def scanStart (pre : Text) (page : PageRequest) : Text :=
  match page.after with
  | some cursor => if pre.isPrefixOf cursor then cursor ++ [Char.ofNat 0] else pre
  | none => pre

/-! ## Row lineage -/

/-- The message is one literal broken over lines without a continuation, so
the indentation of the source is part of it. -/
def gap : Text := List.replicate 22 ' '

/-- A stale v3 row-id assignment is a lost race, not a malformed request. -/
def rejectStaleRowLineage (ident : TableIdent) (base : ib.Metadata) (updates : List ib.Update) :
    Except Error Unit :=
  if ib.formatVersion base < 3 then .ok ()
  else
    updates.forM fun
      | .addSnapshot snapshot =>
          match snapshot.rowRange with
          | some (firstRowId, _) =>
              if firstRowId < ib.nextRowId base then
                .error (conflict ("Commit conflict on table ".toList ++ ident.display ++
                  ": the snapshot assigns row ids from".toList ++ gap ++ Text.decimal firstRowId ++
                  ", but another writer has already taken them — this table".toList ++ gap ++
                  "is at ".toList ++ Text.decimal (ib.nextRowId base) ++
                  ". Refresh the table and commit again; the new snapshot must".toList ++ gap ++
                  "start at the table's current next-row-id.".toList))
              else .ok ()
          | none => .ok ()
      | _ => .ok ()

end Rustberg
