import Mathlib.Data.List.Sublists
import Mathlib.Data.List.Infix

/-!
# Longest common subsequences

`lcsLength` by recursion on both lists, and that it is the greatest length
of a common subsequence (`length_le_lcsLength`, `exists_common`).
`lcsTable` holds it for every pair of ends of the lists, filled from the
last row to the first and each row from its end; `entry_lcsTable` reads it.
-/

namespace Subsequence

variable {α : Type} [DecidableEq α]

def lcsLength : List α → List α → Nat
  | [], _ => 0
  | _ :: _, [] => 0
  | x :: a, y :: b =>
      if x = y then lcsLength a b + 1 else max (lcsLength a (y :: b)) (lcsLength (x :: a) b)
termination_by a b => a.length + b.length

@[simp] theorem lcsLength_nil_left (b : List α) : lcsLength [] b = 0 := by rw [lcsLength]

@[simp] theorem lcsLength_nil_right (a : List α) : lcsLength a [] = 0 := by
  cases a with
  | nil => rw [lcsLength]
  | cons x a => rw [lcsLength]

theorem lcsLength_same (x : α) (a b : List α) :
    lcsLength (x :: a) (x :: b) = lcsLength a b + 1 := by
  rw [lcsLength, if_pos rfl]

theorem lcsLength_differ {x y : α} (h : x ≠ y) (a b : List α) :
    lcsLength (x :: a) (y :: b) = max (lcsLength a (y :: b)) (lcsLength (x :: a) b) := by
  rw [lcsLength, if_neg h]

/-! ## The greatest length of a common subsequence -/

theorem length_le_lcsLength {a b c : List α} (ha : c.Sublist a) (hb : c.Sublist b) :
    c.length ≤ lcsLength a b := by
  induction a, b using lcsLength.induct generalizing c with
  | case1 b =>
      rw [List.sublist_nil.mp ha]
      exact Nat.zero_le _
  | case2 x a =>
      rw [List.sublist_nil.mp hb]
      exact Nat.zero_le _
  | case3 a x b ih =>
      have htail := ih ha.tail hb.tail
      rw [List.length_tail] at htail
      rw [lcsLength_same]
      exact Nat.le_add_of_sub_le htail
  | case4 x a y b hne ihleft ihright =>
      rw [lcsLength_differ hne]
      -- the first member of `c` is not both `x` and `y`
      cases ha with
      | cons _ ha => exact (ihleft ha hb).trans (Nat.le_max_left _ _)
      | cons_cons _ ha =>
          cases hb with
          | cons _ hb => exact (ihright (ha.cons_cons x) hb).trans (Nat.le_max_right _ _)
          | cons_cons _ hb => exact absurd rfl hne

theorem exists_common (a b : List α) :
    ∃ c : List α, c.Sublist a ∧ c.Sublist b ∧ c.length = lcsLength a b := by
  induction a, b using lcsLength.induct with
  | case1 b => exact ⟨[], List.nil_sublist _, List.nil_sublist _, (lcsLength_nil_left b).symm⟩
  | case2 x a =>
      exact ⟨[], List.nil_sublist _, List.nil_sublist _, (lcsLength_nil_right (x :: a)).symm⟩
  | case3 a x b ih =>
      obtain ⟨c, ha, hb, hlength⟩ := ih
      exact ⟨x :: c, ha.cons_cons x, hb.cons_cons x, by
        rw [List.length_cons, hlength, lcsLength_same]⟩
  | case4 x a y b hne ihleft ihright =>
      rcases Nat.le_total (lcsLength a (y :: b)) (lcsLength (x :: a) b) with hle | hle
      · obtain ⟨c, ha, hb, hlength⟩ := ihright
        exact ⟨c, ha, hb.cons y, by rw [hlength, lcsLength_differ hne, Nat.max_eq_right hle]⟩
      · obtain ⟨c, ha, hb, hlength⟩ := ihleft
        exact ⟨c, ha.cons x, hb, by rw [hlength, lcsLength_differ hne, Nat.max_eq_left hle]⟩

/-! ## The table -/

/-- One row, from the row below it: each entry from the one below and to the right,
the one below, and the one to the right. -/
def lcsRow (x : α) : List α → List Nat → List Nat
  | [], _ => [0]
  | y :: b, below =>
      let row := lcsRow x b below.tail
      (if x = y then below.tail.headD 0 + 1 else max (below.headD 0) (row.headD 0)) :: row

/-- The rows, the last one of zeros. -/
def lcsTable : List α → List α → List (List Nat)
  | [], b => [List.replicate (b.length + 1) 0]
  | x :: a, b =>
      let rows := lcsTable a b
      lcsRow x b (rows.headD []) :: rows

def entry (table : List (List Nat)) (i j : Nat) : Nat := ((table[i]?.getD [])[j]?).getD 0

theorem lcsRow_eq (x : α) (a b : List α) :
    lcsRow x b (b.tails.map (lcsLength a)) = b.tails.map (lcsLength (x :: a)) := by
  induction b with
  | nil => simp [lcsRow]
  | cons y b ih =>
      rw [List.tails_cons, List.map_cons, List.map_cons, lcsRow, List.tail_cons, ih]
      congr 1
      have hhead (c : List α) : (b.tails.map (lcsLength c)).headD 0 = lcsLength c b := by
        cases b <;> rfl
      rw [hhead, hhead, List.headD_cons]
      by_cases hxy : x = y
      · rw [if_pos hxy, hxy, lcsLength_same]
      · rw [if_neg hxy, lcsLength_differ hxy]

theorem lcsTable_eq (a b : List α) :
    lcsTable a b = a.tails.map fun ends => b.tails.map (lcsLength ends) := by
  induction a with
  | nil =>
      have hzero : b.tails.map (lcsLength []) = List.replicate (b.length + 1) 0 := by
        rw [← List.length_tails b, ← List.map_const']
        exact List.map_congr_left fun c _ => lcsLength_nil_left c
      rw [lcsTable, List.tails, List.map_singleton, hzero]
  | cons x a ih =>
      have hhead : ((a.tails.map fun ends => b.tails.map (lcsLength ends)).headD [])
          = b.tails.map (lcsLength a) := by
        cases a <;> rfl
      rw [lcsTable, ih, hhead, lcsRow_eq, List.tails_cons, List.map_cons]

/-- An entry of the table is the length for what is left of both lists. -/
theorem entry_lcsTable {a b : List α} {i j : Nat} (hi : i ≤ a.length) (hj : j ≤ b.length) :
    entry (lcsTable a b) i j = lcsLength (a.drop i) (b.drop j) := by
  have htails (l : List α) {k : Nat} (hk : k ≤ l.length) : l.tails[k]? = some (l.drop k) := by
    have hlt : k < l.tails.length := by
      rw [List.length_tails]
      omega
    rw [List.getElem?_eq_getElem hlt, List.getElem_tails]
  rw [entry, lcsTable_eq, List.getElem?_map, htails a hi, Option.map_some, Option.getD_some,
    List.getElem?_map, htails b hj, Option.map_some, Option.getD_some]

end Subsequence
