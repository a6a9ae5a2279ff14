import Rustberg.Catalog.Redb

/-!
# What the effects of the redb catalog do

Two readings of one effect on the registry.

- `Sem` is the relational one, for interleaved calls: a read transaction
  answers from the registry it meets, a write transaction commits or
  aborts, file storage answers anything, and any effect may fail in the
  storage engine without having changed anything.
- `Env.handle` is the functional one, for a call that runs alone on a
  registry that does not fail: the files and the UUIDs of the call come
  from an `Env`.

`Env.handle_sem` connects them: what `handle` does is one of the things
`Sem` allows.
-/

namespace Rustberg

open Process

variable {ib : Iceberg}

/-- The answer of a read transaction; other effects do not read the registry. -/
def Registry.answer (reg : Registry) : (e : Effect ib) → Option e.Payload
  | .getNamespace key => some reg.namespaces[key]?
  | .getTabular kind key => some (reg.tabulars kind)[key]?
  | .getStaged key => some reg.staged[key]?
  | .scanNamespaces start stop depth probe =>
      some (((Relation.keysIn reg.namespaces start stop).filter (depthOf · = depth)).take probe)
  | .scanTabulars kind start stop probe =>
      some ((Relation.keysIn (reg.tabulars kind) start stop).take probe)
  | _ => none

/-- The engine's own failures, `db_err` and a failed task. -/
def Error.IsEngine (err : Error) : Prop := err.kind = .unexpected

/-- A write transaction commits, aborts with its own error, or fails in the
engine; only the first changes the registry. -/
inductive Commits (tx : Transaction) (reg : Registry) : Except Error Unit → Registry → Prop
  | committed {reg' : Registry} (h : tx.apply reg = .ok reg') : Commits tx reg (.ok ()) reg'
  | aborted {err : Error} (h : tx.apply reg = .error err) : Commits tx reg (.error err) reg
  | failed {err : Error} (h : err.IsEngine) : Commits tx reg (.error err) reg

/-- One effect of an operation, on a registry shared with other calls. -/
def Sem : (e : Effect ib) → Registry → e.Answer → Registry → Prop
  | .write tx, reg, r, reg' => Commits tx reg r reg'
  | e, reg, r, reg' => reg' = reg ∧
      ∀ v, reg.answer e = some v → r = .ok v ∨ ∃ err : Error, err.IsEngine ∧ r = .error err

/-- Only a committed write transaction changes the registry. -/
theorem Sem.unchanged {e : Effect ib} {reg reg' : Registry} {r : e.Answer} (h : Sem e reg r reg')
    (hw : ∀ tx, e = .write tx → ∃ err, HEq r (Except.error err : Except Error Unit)) :
    reg' = reg := by
  cases e with
  | write tx =>
      obtain ⟨err, herr⟩ := hw tx rfl
      obtain rfl := eq_of_heq herr
      cases h <;> rfl
  | _ => exact h.1

/-! ## A call alone -/

/-- File storage and fresh names, as one call meets them. -/
structure Env (ib : Iceberg) where
  readMetadata : Text → Except Error ib.Metadata
  writeMetadata : ib.Metadata → Text → Except Error Unit
  readViewMetadata : Text → Except Error ib.ViewMetadata
  writeViewMetadata : ib.ViewMetadata → Text → Except Error Unit
  delete : Text → Except Error Unit
  /-- The `n`th UUID the call draws. -/
  uuid : Nat → Text

/-- No files to read, and storage that takes every write. -/
def Env.empty (ib : Iceberg) : Env ib where
  readMetadata _ := .error ⟨.dataInvalid, "no such file".toList⟩
  writeMetadata _ _ := .ok ()
  readViewMetadata _ := .error ⟨.dataInvalid, "no such file".toList⟩
  writeViewMetadata _ _ := .ok ()
  delete _ := .ok ()
  uuid n := Text.decimal n

/-- The registry, and the number of UUIDs drawn so far. -/
abbrev Alone := Registry × Nat

def Env.handle (env : Env ib) : (e : Effect ib) → Alone → e.Answer × Alone
  | .getNamespace key, s => (.ok s.1.namespaces[key]?, s)
  | .getTabular kind key, s => (.ok (s.1.tabulars kind)[key]?, s)
  | .getStaged key, s => (.ok s.1.staged[key]?, s)
  | .scanNamespaces start stop depth probe, s =>
      (.ok (((Relation.keysIn s.1.namespaces start stop).filter (depthOf · = depth)).take probe), s)
  | .scanTabulars kind start stop probe, s =>
      (.ok ((Relation.keysIn (s.1.tabulars kind) start stop).take probe), s)
  | .write tx, s =>
      match tx.apply s.1 with
      | .ok reg => (.ok (), (reg, s.2))
      | .error err => (.error err, s)
  | .readMetadata location, s => (env.readMetadata location, s)
  | .writeMetadata metadata location, s => (env.writeMetadata metadata location, s)
  | .readViewMetadata location, s => (env.readViewMetadata location, s)
  | .writeViewMetadata metadata location, s => (env.writeViewMetadata metadata location, s)
  | .delete location, s => (env.delete location, s)
  | .newUuid, s => (.ok (env.uuid s.2), (s.1, s.2 + 1))

theorem Env.handle_sem (env : Env ib) (e : Effect ib) (s : Alone) :
    Sem e s.1 (env.handle e s).1 (env.handle e s).2.1 := by
  cases e with
  | write tx =>
      simp only [Env.handle, Sem]
      cases h : tx.apply s.1 with
      | ok reg => exact .committed h
      | error err => exact .aborted h
  | _ => simp [Env.handle, Sem, Registry.answer]

/-- The same on the registry alone. -/
def Env.onRegistry (env : Env ib) (e : Effect ib) (reg : Registry) : e.Answer × Registry :=
  ((env.handle e (reg, 0)).1, (env.handle e (reg, 0)).2.1)

theorem Env.onRegistry_sem (env : Env ib) (e : Effect ib) (reg : Registry) :
    Sem e reg (env.onRegistry e reg).1 (env.onRegistry e reg).2 := env.handle_sem e (reg, 0)

/-- Run one call alone, from `s`. -/
def Env.exec {α : Type} (env : Env ib) (op : Op ib α) (s : Alone) : Except Error α × Alone :=
  Prog.run env.handle op.run s

/-- Run one call alone: its result, and the registry it leaves. -/
def Env.run {α : Type} (env : Env ib) (op : Op ib α) (reg : Registry) :
    Except Error α × Registry :=
  ((env.exec op (reg, 0)).1, (env.exec op (reg, 0)).2.1)

section

variable {α β : Type} (env : Env ib) (s : Alone)

@[simp] theorem Env.exec_pure (a : α) : env.exec (pure a : Op ib α) s = (.ok a, s) := rfl

@[simp] theorem Env.exec_throw (e : Error) : env.exec (throw e : Op ib α) s = (.error e, s) := rfl

@[simp] theorem Env.exec_getNamespace (key : Text) :
    env.exec (Op.getNamespace key) s = (.ok s.1.namespaces[key]?, s) := rfl

@[simp] theorem Env.exec_getTabular (kind : Tabular) (key : Text) :
    env.exec (Op.getTabular kind key) s = (.ok (s.1.tabulars kind)[key]?, s) := rfl

@[simp] theorem Env.exec_getStaged (key : Text) :
    env.exec (Op.getStaged key) s = (.ok s.1.staged[key]?, s) := rfl

@[simp] theorem Env.exec_scanNamespaces (start stop : Text) (depth probe : Nat) :
    env.exec (Op.scanNamespaces start stop depth probe) s =
      (.ok (((Relation.keysIn s.1.namespaces start stop).filter (depthOf · = depth)).take probe),
        s) := rfl

@[simp] theorem Env.exec_scanTabulars (kind : Tabular) (start stop : Text) (probe : Nat) :
    env.exec (Op.scanTabulars kind start stop probe) s =
      (.ok ((Relation.keysIn (s.1.tabulars kind) start stop).take probe), s) := rfl

@[simp] theorem Env.exec_write (tx : Transaction) :
    env.exec (Op.write tx) s =
      match tx.apply s.1 with
      | .ok reg => (.ok (), (reg, s.2))
      | .error err => (.error err, s) := rfl

@[simp] theorem Env.exec_readMetadata (location : Text) :
    env.exec (Op.readMetadata location) s = (env.readMetadata location, s) := rfl

@[simp] theorem Env.exec_writeMetadata (metadata : ib.Metadata) (location : Text) :
    env.exec (Op.writeMetadata metadata location) s =
      (env.writeMetadata metadata location, s) := rfl

@[simp] theorem Env.exec_readViewMetadata (location : Text) :
    env.exec (Op.readViewMetadata location) s = (env.readViewMetadata location, s) := rfl

@[simp] theorem Env.exec_writeViewMetadata (metadata : ib.ViewMetadata) (location : Text) :
    env.exec (Op.writeViewMetadata metadata location) s =
      (env.writeViewMetadata metadata location, s) := rfl

@[simp] theorem Env.exec_delete (location : Text) :
    env.exec (Op.delete location) s = (env.delete location, s) := rfl

@[simp] theorem Env.exec_newUuid :
    env.exec Op.newUuid s = (.ok (env.uuid s.2), (s.1, s.2 + 1)) := rfl

@[simp] theorem Env.exec_ofExcept (r : Except Error α) : env.exec (ofExcept r) s = (r, s) := rfl

theorem Env.exec_bind (op : Op ib α) (f : α → Op ib β) :
    env.exec (op >>= f) s =
      match env.exec op s with
      | (.ok a, s') => env.exec (f a) s'
      | (.error e, s') => (.error e, s') := by
  unfold Env.exec
  rw [Prog.run_bind_except]
  rcases Prog.run env.handle op.run s with ⟨r | a, s'⟩ <;> rfl

theorem Env.exec_map (f : α → β) (op : Op ib α) :
    env.exec (f <$> op) s = ((env.exec op s).1.map f, (env.exec op s).2) := by
  rw [map_eq_pure_bind, Env.exec_bind]
  rcases env.exec op s with ⟨r | a, s'⟩ <;> rfl

theorem Env.exec_capture (op : Op ib α) :
    env.exec (capture op) s = (.ok (env.exec op s).1, (env.exec op s).2) := by
  unfold Env.exec capture
  rw [ExceptT.run_mk, Prog.run_bind]
  rfl

end

end Rustberg
