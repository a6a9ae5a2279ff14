import Mathlib.Algebra.Order.Field.Basic
import Mathlib.Data.List.Basic
import Mathlib.Tactic.Linarith
import Mathlib.Tactic.Ring

/-!
# Meters

A level that rises at a constant rate as far as a capacity, and is drawn
on a unit at a time. What is drawn over a span is bounded by what the
level held at its start and what has flowed in since, so over any window
by the capacity and the window's inflow (`Meter.drawn_window_le`); where
the capacity never cuts the inflow, the level is an exact balance
(`Meter.take_iff_balance`).
-/

/-- A level between nothing and a capacity, as it was at a time. -/
structure Meter (K : Type) [Field K] [LinearOrder K] where
  capacity : K
  level : K
  rate : K
  last : K
  level_nonneg : 0 ≤ level
  level_le : level ≤ capacity
  rate_nonneg : 0 ≤ rate

namespace Meter

variable {K : Type} [Field K] [LinearOrder K]

/-- What the level would be at `now`, were there no capacity. -/
def inflow (m : Meter K) (now : K) : K := m.level + (now - m.last) * m.rate

/-- The level at `now`. -/
def levelAt (m : Meter K) (now : K) : K := min (m.inflow now) m.capacity

theorem levelAt_le (m : Meter K) (now : K) : m.levelAt now ≤ m.capacity := min_le_right ..

theorem levelAt_le_inflow (m : Meter K) (now : K) : m.levelAt now ≤ m.inflow now := min_le_left ..

variable [IsStrictOrderedRing K]

theorem level_le_inflow (m : Meter K) {now : K} (h : m.last ≤ now) : m.level ≤ m.inflow now := by
  have hflow : 0 ≤ (now - m.last) * m.rate := mul_nonneg (sub_nonneg.mpr h) m.rate_nonneg
  exact le_add_of_nonneg_right hflow

theorem levelAt_nonneg (m : Meter K) {now : K} (h : m.last ≤ now) : 0 ≤ m.levelAt now :=
  le_min (m.level_nonneg.trans (m.level_le_inflow h)) (m.level_nonneg.trans m.level_le)

/-- A draw of one unit, where the level holds one. Time does not run backwards. -/
def take (m : Meter K) (now : K) : Bool × Meter K :=
  if h : m.last ≤ now ∧ 1 ≤ m.levelAt now then
    (true, { m with
      level := m.levelAt now - 1
      last := now
      level_nonneg := sub_nonneg.mpr h.2
      level_le := (sub_le_self _ zero_le_one).trans (m.levelAt_le now) })
  else if h : m.last ≤ now then
    (false, { m with
      level := m.levelAt now
      last := now
      level_nonneg := m.levelAt_nonneg h
      level_le := m.levelAt_le now })
  else (false, m)

section

variable (m : Meter K) {now : K} (h : m.last ≤ now)

@[simp] theorem take_capacity (now : K) : (m.take now).2.capacity = m.capacity := by
  unfold take
  split_ifs <;> rfl

@[simp] theorem take_rate (now : K) : (m.take now).2.rate = m.rate := by
  unfold take
  split_ifs <;> rfl

include h

theorem take_last : (m.take now).2.last = now := by
  by_cases hlevel : 1 ≤ m.levelAt now
  · rw [take, dif_pos ⟨h, hlevel⟩]
  · rw [take, dif_neg fun hboth => hlevel hboth.2, dif_pos h]

theorem take_iff : (m.take now).1 = true ↔ 1 ≤ m.levelAt now := by
  by_cases hlevel : 1 ≤ m.levelAt now
  · rw [take, dif_pos ⟨h, hlevel⟩]
    exact iff_of_true rfl hlevel
  · rw [take, dif_neg fun hboth => hlevel hboth.2, dif_pos h]
    exact iff_of_false Bool.false_ne_true hlevel

/-- What a draw leaves, and what it has drawn. -/
theorem take_level :
    (m.take now).2.level + (if (m.take now).1 then 1 else 0) = m.levelAt now := by
  by_cases hlevel : 1 ≤ m.levelAt now
  · rw [take, dif_pos ⟨h, hlevel⟩]
    exact sub_add_cancel ..
  · rw [take, dif_neg fun hboth => hlevel hboth.2, dif_pos h]
    exact add_zero _

end

/-! ## Runs of draws -/

/-- The meter after a draw at each of the times. -/
def run (m : Meter K) (times : List K) : Meter K := times.foldl (fun m now => (m.take now).2) m

/-- The times at which a unit was drawn. -/
def drawn (m : Meter K) : List K → List K
  | [] => []
  | now :: times =>
      if (m.take now).1 then now :: (m.take now).2.drawn times else (m.take now).2.drawn times

/-- No draw finds more than the capacity. -/
def Uncut (m : Meter K) : List K → Prop
  | [] => True
  | now :: times => m.inflow now ≤ m.capacity ∧ (m.take now).2.Uncut times

/-- Times of a run from the meter's own time on. -/
def Onward (m : Meter K) (times : List K) : Prop := (m.last :: times).Pairwise (· ≤ ·)

omit [IsStrictOrderedRing K] in
theorem Onward.head {m : Meter K} {now : K} {times : List K} (h : m.Onward (now :: times)) :
    m.last ≤ now := (List.pairwise_cons.mp h).1 now (List.mem_cons_self ..)

theorem Onward.tail {m : Meter K} {now : K} {times : List K} (h : m.Onward (now :: times)) :
    (m.take now).2.Onward times := by
  rw [Onward, m.take_last h.head]
  exact (List.pairwise_cons.mp h).2

/-- A unit drawn at a time is counted against that time. -/
theorem length_drawn_cons (m : Meter K) (now : K) (times : List K) (p : K → Bool) :
    (((m.drawn (now :: times)).filter p).length : K) =
      (if (m.take now).1 ∧ p now then 1 else 0) +
        (((m.take now).2.drawn times).filter p).length := by
  rw [drawn]
  cases htake : (m.take now).1 with
  | false => simp
  | true =>
      cases hp : p now with
      | false => simp [hp]
      | true =>
          rw [if_pos rfl, List.filter_cons, if_pos hp, List.length_cons, if_pos ⟨rfl, rfl⟩]
          push_cast
          exact add_comm ..

theorem drawn_subset (m : Meter K) (times : List K) : m.drawn times ⊆ times := by
  induction times generalizing m with
  | nil => exact List.Subset.refl _
  | cons now times ih =>
      rw [drawn]
      split
      · exact List.cons_subset_cons _ (ih _)
      · exact List.Subset.trans (ih _) (List.subset_cons_self ..)

/-- Up to a time no more is drawn than the level held, and what has flowed in. -/
theorem drawn_le (m : Meter K) {times : List K} (h : m.Onward times) {deadline : K}
    (hdeadline : m.last ≤ deadline) :
    (((m.drawn times).filter fun now => now ≤ deadline).length : K) ≤ m.inflow deadline := by
  induction times generalizing m with
  | nil =>
      rw [drawn, List.filter_nil, List.length_nil, Nat.cast_zero]
      exact m.level_nonneg.trans (m.level_le_inflow hdeadline)
  | cons now times ih =>
      by_cases hnow : now ≤ deadline
      · have hrest := ih (m.take now).2 h.tail (by rw [m.take_last h.head]; exact hnow)
        have hlevel := m.take_level h.head
        have hcap := m.levelAt_le_inflow now
        rw [length_drawn_cons]
        unfold inflow at hrest hcap ⊢
        rw [m.take_last h.head, take_rate] at hrest
        have hdrawn : (if (m.take now).1 ∧ decide (now ≤ deadline) = true then (1 : K) else 0) =
            if (m.take now).1 then 1 else 0 := by simp [hnow]
        rw [hdrawn]
        linarith
      · have hlate : (m.drawn (now :: times)).filter (fun now => now ≤ deadline) = [] := by
          rw [List.filter_eq_nil_iff]
          intro later hlater
          have hmem := m.drawn_subset _ hlater
          have hle : now ≤ later := by
            rcases List.mem_cons.mp hmem with rfl | htail
            · exact le_refl _
            · exact (List.pairwise_cons.mp (List.pairwise_cons.mp h).2).1 later htail
          simpa using lt_of_lt_of_le (not_le.mp hnow) hle
        rw [hlate, List.length_nil, Nat.cast_zero]
        exact m.level_nonneg.trans (m.level_le_inflow hdeadline)

/-- In any window no more is drawn than the capacity, and the window's inflow. -/
theorem drawn_window_le (m : Meter K) {times : List K} (h : m.Onward times) (start : K) {span : K}
    (hspan : 0 ≤ span) :
    (((m.drawn times).filter fun now => start ≤ now ∧ now ≤ start + span).length : K) ≤
      m.capacity + m.rate * span := by
  have hbound : 0 ≤ m.capacity + m.rate * span :=
    add_nonneg (m.level_nonneg.trans m.level_le) (mul_nonneg m.rate_nonneg hspan)
  induction times generalizing m with
  | nil => simpa [drawn] using hbound
  | cons now times ih =>
      have hrest := ih (m.take now).2 h.tail (by simpa using hbound)
      rw [take_capacity, take_rate] at hrest
      rw [length_drawn_cons]
      by_cases hstart : start ≤ now
      · by_cases hend : now ≤ start + span
        · -- The window's first draw: from here on the inflow alone counts.
          have hlevel := m.take_level h.head
          have hcap := m.levelAt_le now
          have hinflow := (m.take now).2.drawn_le h.tail
            (show (m.take now).2.last ≤ start + span by rw [m.take_last h.head]; exact hend)
          have hsub : (((m.take now).2.drawn times).filter fun now =>
              start ≤ now ∧ now ≤ start + span).length ≤
              (((m.take now).2.drawn times).filter fun now => now ≤ start + span).length := by
            refine List.Sublist.length_le (List.monotone_filter_right _ fun later hlater => ?_)
            simp only [decide_eq_true_eq] at hlater ⊢
            exact hlater.2
          have hcast : ((((m.take now).2.drawn times).filter fun now =>
              start ≤ now ∧ now ≤ start + span).length : K) ≤
              (((m.take now).2.drawn times).filter fun now => now ≤ start + span).length := by
            exact_mod_cast hsub
          unfold inflow at hinflow
          rw [m.take_last h.head, take_rate] at hinflow
          have hdrawn : (if (m.take now).1 ∧ decide (start ≤ now ∧ now ≤ start + span) = true then
              (1 : K) else 0) = if (m.take now).1 then 1 else 0 := by simp [hstart, hend]
          have hflow : (start + span - now) * m.rate ≤ m.rate * span := by
            rw [mul_comm]
            exact mul_le_mul_of_nonneg_left (by linarith) m.rate_nonneg
          rw [hdrawn]
          linarith
        · rw [if_neg (by simp [hend]), zero_add]
          exact hrest
      · rw [if_neg (by simp [hstart]), zero_add]
        exact hrest

/-- Uncut, the level is what it was, and what has flowed in, less what was drawn. -/
theorem inflow_run (m : Meter K) {times : List K} (h : m.Onward times) (huncut : m.Uncut times)
    (now : K) :
    (m.run times).inflow now = m.inflow now - (m.drawn times).length := by
  induction times generalizing m with
  | nil => simp [run, drawn]
  | cons first times ih =>
      have hlevel := m.take_level h.head
      have hrest := ih (m.take first).2 h.tail huncut.2
      have hcount := m.length_drawn_cons first times fun _ => true
      rw [levelAt, min_eq_left huncut.1] at hlevel
      simp only [List.filter_true, and_true] at hcount
      rw [run, List.foldl_cons, ← run, hrest, hcount]
      unfold inflow at hlevel ⊢
      rw [m.take_last h.head, take_rate]
      have hflow :
        (now - m.last) * m.rate = (now - first) * m.rate + (first - m.last) * m.rate := by
        ring
      linarith

theorem run_capacity (m : Meter K) (times : List K) : (m.run times).capacity = m.capacity := by
  induction times generalizing m with
  | nil => rfl
  | cons now times ih => exact (ih _).trans (m.take_capacity now)

theorem run_last_le (m : Meter K) {times : List K} {now : K} (h : m.Onward (times ++ [now])) :
    (m.run times).last ≤ now := by
  induction times generalizing m with
  | nil => exact h.head
  | cons first times ih => exact ih _ (Onward.tail h)

theorem Uncut.append {m : Meter K} {left right : List K} :
    m.Uncut (left ++ right) ↔ m.Uncut left ∧ (m.run left).Uncut right := by
  induction left generalizing m with
  | nil => exact (and_iff_right trivial).symm
  | cons now left ih =>
      rw [List.cons_append, Uncut, Uncut, and_assoc]
      exact and_congr_right fun _ => ih

/-- Uncut, a unit is drawn exactly where the balance holds one. -/
theorem take_iff_balance (m : Meter K) {times : List K} {now : K} (h : m.Onward (times ++ [now]))
    (huncut : m.Uncut (times ++ [now])) :
    ((m.run times).take now).1 = true ↔ ((m.drawn times).length : K) + 1 ≤ m.inflow now := by
  obtain ⟨hbefore, hnow, -⟩ := Uncut.append.mp huncut
  have honward : m.Onward times := List.Pairwise.sublist
    (List.Sublist.cons_cons _ (List.sublist_append_left ..)) h
  rw [take_iff _ (m.run_last_le h), levelAt, min_eq_left hnow, m.inflow_run honward hbefore]
  constructor <;> intro hle <;> linarith

end Meter
