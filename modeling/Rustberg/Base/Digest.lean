import Mathlib

/-!
# Digests of several fields

A hash is fed fields one after the other. `Fields` says when what it was
fed tells the fields: each is ended by a separator that none of them
contains, and a mark that begins none of them ends a list of fields.
`Hex` is how a digest is shown, two digits a byte.
-/

namespace Fields

variable {α : Type*} {sep : α}

/-- The fields in order, each ended by the separator. -/
def ended (sep : α) (fields : List (List α)) : List α := fields.flatMap (· ++ [sep])

theorem ended_cons (field : List α) (fields : List (List α)) :
    ended sep (field :: fields) = field ++ sep :: ended sep fields := by
  simp [ended]

/-- A first field, told from the rest. -/
theorem append_cons_inj {a a' b b' : List α} (ha : sep ∉ a) (ha' : sep ∉ a') :
    a ++ sep :: b = a' ++ sep :: b' ↔ a = a' ∧ b = b' := by
  constructor
  · intro h
    induction a generalizing a' with
    | nil =>
        cases a' with
        | nil => exact ⟨rfl, List.tail_eq_of_cons_eq h⟩
        | cons x a' => exact absurd (List.head_eq_of_cons_eq h) fun heq => ha' (by simp [heq])
    | cons x a ih =>
        cases a' with
        | nil => exact absurd (List.head_eq_of_cons_eq h) fun heq => ha (by simp [← heq])
        | cons y a' =>
            obtain ⟨rfl, hrest⟩ := List.cons.inj h
            obtain ⟨rfl, rfl⟩ := ih (fun h => ha (List.mem_cons_of_mem _ h))
              (fun h => ha' (List.mem_cons_of_mem _ h)) hrest
            exact ⟨rfl, rfl⟩
  · rintro ⟨rfl, rfl⟩
    rfl

theorem ended_injective {xs ys : List (List α)} (hxs : ∀ x ∈ xs, sep ∉ x) (hys : ∀ y ∈ ys, sep ∉ y)
    (h : ended sep xs = ended sep ys) : xs = ys := by
  induction xs generalizing ys with
  | nil =>
      cases ys with
      | nil => rfl
      | cons y ys => simp [ended] at h
  | cons x xs ih =>
      cases ys with
      | nil => simp [ended] at h
      | cons y ys =>
          rw [ended_cons, ended_cons, append_cons_inj (hxs x (List.mem_cons_self ..))
            (hys y (List.mem_cons_self ..))] at h
          obtain ⟨rfl, hrest⟩ := h
          rw [ih (fun x hx => hxs x (List.mem_cons_of_mem _ hx))
            (fun y hy => hys y (List.mem_cons_of_mem _ hy)) hrest]

/-- A list of fields, told from what follows the mark. -/
theorem ended_append_cons_inj {mark : α} (hmark : mark ≠ sep) {xs ys : List (List α)}
    {rest rest' : List α} (hxs : ∀ x ∈ xs, sep ∉ x ∧ mark ∉ x) (hys : ∀ y ∈ ys, sep ∉ y ∧ mark ∉ y)
    (h : ended sep xs ++ mark :: rest = ended sep ys ++ mark :: rest') :
    xs = ys ∧ rest = rest' := by
  have hnone : ∀ zs : List (List α), (∀ z ∈ zs, sep ∉ z ∧ mark ∉ z) → mark ∉ ended sep zs := by
    intro zs hzs hmem
    obtain ⟨z, hz, hin⟩ := List.mem_flatMap.mp hmem
    rcases List.mem_append.mp hin with hin | hin
    · exact (hzs z hz).2 hin
    · exact hmark (List.mem_singleton.mp hin)
  obtain ⟨hended, hrest⟩ := (append_cons_inj (hnone xs hxs) (hnone ys hys)).mp h
  exact ⟨ended_injective (fun x hx => (hxs x hx).1) (fun y hy => (hys y hy).1) hended, hrest⟩

end Fields

namespace Hex

/-- `{:02x}` -/
def byte (b : UInt8) : List Char := (Nat.toDigits 16 b.toNat).leftpad 2 '0'

def digits (bytes : List UInt8) : List Char := bytes.flatMap byte

theorem byte_eq : ∀ b : UInt8,
    byte b = [Nat.digitChar (b.toNat / 16), Nat.digitChar (b.toNat % 16)] := by
  decide +kernel

theorem digitChar_inj : ∀ m < 16, ∀ n < 16, Nat.digitChar m = Nat.digitChar n → m = n := by
  decide +kernel

theorem length_byte (b : UInt8) : (byte b).length = 2 := by
  rw [byte_eq]
  rfl

theorem byte_injective : Function.Injective byte := by
  intro b b' h
  rw [byte_eq, byte_eq] at h
  obtain ⟨hdiv, hmod⟩ := List.cons_eq_cons.mp h
  have hb := b.toNat_lt
  have hb' := b'.toNat_lt
  have hdiv := digitChar_inj _ (by omega) _ (by omega) hdiv
  have hmod := digitChar_inj _ (by omega) _ (by omega) (List.head_eq_of_cons_eq hmod)
  exact UInt8.toNat_inj.mp (by omega)

/-- The digits tell the bytes. -/
theorem digits_injective : Function.Injective digits := by
  intro xs
  induction xs with
  | nil =>
      intro ys h
      cases ys with
      | nil => rfl
      | cons y ys =>
          have hlength : 0 = (digits (y :: ys)).length := congrArg List.length h
          rw [digits, List.flatMap_cons, List.length_append, length_byte y] at hlength
          omega
  | cons x xs ih =>
      intro ys h
      cases ys with
      | nil =>
          have hlength : (digits (x :: xs)).length = 0 := congrArg List.length h
          rw [digits, List.flatMap_cons, List.length_append, length_byte x] at hlength
          omega
      | cons y ys =>
          have hsplit := List.append_inj h (by rw [length_byte x, length_byte y])
          rw [byte_injective hsplit.1, ih hsplit.2]

end Hex
