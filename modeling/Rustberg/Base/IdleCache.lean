import Mathlib.Logic.Function.Basic

/-!
# Caches with an idle timeout

Entries of a cache that drops what has been idle for longer than a
timeout. An access keeps an entry; a change of the value behind it does
not. `IdleCache.live` is what an access finds.
-/

/-- A value, and when it was last accessed. -/
structure IdleSlot (ν : Type) where
  value : ν
  accessed : Nat

structure IdleCache (timeToIdle : Nat) (κ ν : Type) where
  slots : κ → Option (IdleSlot ν)

namespace IdleCache

variable {timeToIdle : Nat} {κ ν : Type} [DecidableEq κ]

def empty : IdleCache timeToIdle κ ν := ⟨fun _ => none⟩

/-- The value an access at `now` finds. -/
def live (c : IdleCache timeToIdle κ ν) (now : Nat) (key : κ) : Option ν :=
  match c.slots key with
  | some slot => if now ≤ slot.accessed + timeToIdle then some slot.value else none
  | none => none

/-- An entry accessed at `now`. -/
def put (c : IdleCache timeToIdle κ ν) (now : Nat) (key : κ) (value : ν) :
    IdleCache timeToIdle κ ν :=
  ⟨Function.update c.slots key (some ⟨value, now⟩)⟩

def get (c : IdleCache timeToIdle κ ν) (now : Nat) (key : κ) :
    Option ν × IdleCache timeToIdle κ ν :=
  match c.live now key with
  | some value => (some value, c.put now key value)
  | none => (none, c)

/-- `get`, an entry that is absent entered first. -/
def getWith (c : IdleCache timeToIdle κ ν) (now : Nat) (key : κ) (init : ν) :
    ν × IdleCache timeToIdle κ ν :=
  let value := (c.live now key).getD init
  (value, c.put now key value)

/-- A change of the value that is no access to the entry. -/
def assign (c : IdleCache timeToIdle κ ν) (key : κ) (value : ν) : IdleCache timeToIdle κ ν :=
  ⟨Function.update c.slots key ((c.slots key).map fun slot => { slot with value := value })⟩

/-- The entry is removed, or evicted. -/
def invalidate (c : IdleCache timeToIdle κ ν) (key : κ) : IdleCache timeToIdle κ ν :=
  ⟨Function.update c.slots key none⟩

section

variable (c : IdleCache timeToIdle κ ν) (now : Nat) {key other : κ} (value : ν)

@[simp] theorem slots_put : (c.put now key value).slots key = some ⟨value, now⟩ :=
  Function.update_self ..

@[simp] theorem slots_assign : (c.assign key value).slots key =
    (c.slots key).map fun slot => { slot with value := value } := Function.update_self ..

@[simp] theorem slots_invalidate : (c.invalidate key).slots key = none := Function.update_self ..

theorem slots_put_of_ne (h : other ≠ key) : (c.put now key value).slots other = c.slots other :=
  Function.update_of_ne h ..

theorem slots_assign_of_ne (h : other ≠ key) : (c.assign key value).slots other = c.slots other :=
  Function.update_of_ne h ..

theorem slots_invalidate_of_ne (h : other ≠ key) : (c.invalidate key).slots other = c.slots other :=
  Function.update_of_ne h ..

theorem slots_get_of_ne (h : other ≠ key) : (c.get now key).2.slots other = c.slots other := by
  unfold get
  split
  · exact c.slots_put_of_ne now _ h
  · rfl

theorem slots_getWith_of_ne (init : ν) (h : other ≠ key) :
    (c.getWith now key init).2.slots other = c.slots other := c.slots_put_of_ne now _ h

@[simp] theorem get_fst (key : κ) : (c.get now key).1 = c.live now key := by
  unfold get
  cases c.live now key <;> rfl

variable {c now value} in
/-- An access that finds nothing changes nothing. -/
theorem get_of_live_none (h : c.live now key = none) : c.get now key = (none, c) := by
  rw [get, h]

variable {c now value} in
theorem get_of_live_some (h : c.live now key = some value) :
    c.get now key = (some value, c.put now key value) := by
  rw [get, h]

@[simp] theorem live_put_self : (c.put now key value).live now key = some value := by
  rw [live, slots_put]
  exact if_pos (Nat.le_add_right ..)

end

omit [DecidableEq κ] in
theorem live_eq_some {c : IdleCache timeToIdle κ ν} {now : Nat} {key : κ} {value : ν} :
    c.live now key = some value ↔
      ∃ accessed, c.slots key = some ⟨value, accessed⟩ ∧ now ≤ accessed + timeToIdle := by
  unfold live
  cases hslot : c.slots key with
  | none => simp
  | some slot =>
      obtain ⟨stored, accessed⟩ := slot
      dsimp only
      split
      next hidle =>
        constructor
        · intro hvalue
          cases hvalue
          exact ⟨accessed, rfl, hidle⟩
        · rintro ⟨_, hsome, -⟩
          cases hsome
          rfl
      next hidle =>
        refine iff_of_false (fun h => by cases h) ?_
        rintro ⟨_, hsome, hle⟩
        cases hsome
        exact hidle hle

omit [DecidableEq κ] in
theorem live_congr {c c' : IdleCache timeToIdle κ ν} {key : κ} (h : c.slots key = c'.slots key)
    (now : Nat) : c.live now key = c'.live now key := by
  rw [live, live, h]

end IdleCache
