import Mathlib.Data.List.Basic

/-!
# Lines

Texts of lines that each end with a mark, cut at the marks.
`splitOn_terminated_append` reads finished lines back, and
`prefix_of_mem_splitOn` says what the pieces of such a text cut short are:
prefixes of its lines, or of what follows them.
-/

namespace Lines

variable {α : Type} {sep : α} {lines : List (List α)} {rest tail piece text : List α}

/-- The lines, each ended by the mark. -/
def terminated (sep : α) (lines : List (List α)) : List α := lines.flatMap (· ++ [sep])

/-- Nothing stands after the last mark. -/
def Finished (sep : α) (text : List α) : Prop := text = [] ∨ ∃ front, text = front ++ [sep]

@[simp] theorem terminated_nil : terminated sep [] = [] := rfl

theorem terminated_cons (line : List α) :
    terminated sep (line :: lines) = line ++ sep :: terminated sep lines := by
  simp [terminated]

theorem terminated_append (more : List (List α)) :
    terminated sep (lines ++ more) = terminated sep lines ++ terminated sep more :=
  List.flatMap_append

theorem terminated_snoc (line : List α) :
    terminated sep (lines ++ [line]) = terminated sep lines ++ (line ++ [sep]) := by
  rw [terminated_append]
  simp [terminated]

/-- What ends with a mark and then `tail` is finished only if there is no tail. -/
theorem Finished.tail_eq_nil (h : Finished sep (text ++ tail)) (htail : sep ∉ tail) :
    tail = [] := by
  rcases h with hnil | ⟨front, hfront⟩
  · exact (List.append_eq_nil_iff.mp hnil).2
  · rcases List.eq_nil_or_concat tail with htail' | ⟨init, last, rfl⟩
    · exact htail'
    · rw [List.concat_eq_append, ← List.append_assoc] at hfront
      obtain ⟨-, hlast⟩ := List.append_inj' hfront rfl
      rw [List.singleton_inj.mp hlast] at htail
      simp at htail

variable [DecidableEq α]

theorem splitOn_terminated_append (h : ∀ line ∈ lines, sep ∉ line) (rest : List α) :
    (terminated sep lines ++ rest).splitOn sep = lines ++ rest.splitOn sep := by
  induction lines with
  | nil => rfl
  | cons line lines ih =>
      obtain ⟨hline, hlines⟩ := List.forall_mem_cons.mp h
      rw [terminated_cons, List.append_assoc, List.cons_append, List.splitOn_append_cons_self,
        List.splitOn_eq_singleton hline, ih hlines]
      rfl

/-- The pieces of lines cut short are prefixes of the lines, or of what follows them. -/
theorem prefix_of_mem_splitOn (hlines : ∀ line ∈ lines, sep ∉ line) (htail : sep ∉ tail)
    (hrest : rest <+: terminated sep lines ++ tail) (hpiece : piece ∈ rest.splitOn sep) :
    ∃ line ∈ lines ++ [tail], piece <+: line := by
  induction lines generalizing rest with
  | nil =>
      have hrest : rest <+: tail := hrest
      rw [List.splitOn_eq_singleton fun hsep => htail (hrest.subset hsep),
        List.mem_singleton] at hpiece
      exact ⟨tail, by simp, hpiece ▸ hrest⟩
  | cons line lines ih =>
      obtain ⟨hline, hlines⟩ := List.forall_mem_cons.mp hlines
      rw [terminated_cons, List.append_assoc, List.cons_append] at hrest
      rcases Nat.lt_or_ge line.length rest.length with hlong | hshort
      · have hfront : line ++ [sep] <+: rest := by
          refine List.prefix_of_prefix_length_le ?_ hrest ?_
          · exact ⟨terminated sep lines ++ tail, by simp⟩
          · simpa using Nat.succ_le_of_lt hlong
        obtain ⟨more, rfl⟩ := hfront
        rw [List.append_assoc, List.prefix_append_right_inj, List.singleton_append,
          List.prefix_cons_inj] at hrest
        rw [List.append_assoc, List.singleton_append, List.splitOn_append_cons_self,
          List.splitOn_eq_singleton hline, List.singleton_append, List.mem_cons] at hpiece
        rcases hpiece with rfl | hpiece
        · exact ⟨piece, by simp, List.prefix_rfl⟩
        · obtain ⟨found, hfound, hstarts⟩ := ih hlines hrest hpiece
          exact ⟨found, List.mem_cons_of_mem _ hfound, hstarts⟩
      · have hrest : rest <+: line :=
          List.prefix_of_prefix_length_le hrest (List.prefix_append _ _) hshort
        rw [List.splitOn_eq_singleton fun hsep => hline (hrest.subset hsep),
          List.mem_singleton] at hpiece
        exact ⟨line, by simp, hpiece ▸ hrest⟩

/-- Every text is lines and what follows the last of them. -/
theorem exists_lines (sep : α) (text : List α) :
    ∃ lines tail, text = terminated sep lines ++ tail ∧ (∀ line ∈ lines, sep ∉ line) ∧
      sep ∉ tail := by
  induction text with
  | nil => exact ⟨[], [], rfl, by simp, by simp⟩
  | cons x text ih =>
      obtain ⟨lines, tail, rfl, hlines, htail⟩ := ih
      by_cases hx : x = sep
      · subst hx
        refine ⟨[] :: lines, tail, by simp [terminated_cons], ?_, htail⟩
        exact List.forall_mem_cons.mpr ⟨by simp, hlines⟩
      · cases lines with
        | nil => exact ⟨[], x :: tail, rfl, by simp, by simp [Ne.symm hx, htail]⟩
        | cons line lines =>
            obtain ⟨hline, hlines⟩ := List.forall_mem_cons.mp hlines
            refine ⟨(x :: line) :: lines, tail, by simp [terminated_cons], ?_, htail⟩
            exact List.forall_mem_cons.mpr ⟨by simp [Ne.symm hx, hline], hlines⟩

/-- A finished text is nothing but lines. -/
theorem Finished.exists_terminated (h : Finished sep text) :
    ∃ lines, text = terminated sep lines ∧ ∀ line ∈ lines, sep ∉ line := by
  obtain ⟨lines, tail, rfl, hlines, htail⟩ := exists_lines sep text
  obtain rfl := h.tail_eq_nil htail
  exact ⟨lines, List.append_nil _, hlines⟩

end Lines
