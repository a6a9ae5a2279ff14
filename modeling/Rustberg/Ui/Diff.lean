import Rustberg.Base.Subsequence

/-!
# The policy diff

`diff` and `fold` of `ui/src/lib/diff.ts`: two texts cut into lines, the
table of longest common subsequences of what is left of both, and a walk
that follows it. `diff_minimal` is that the lines shown are a script from
one text to the other with as few added and removed lines as any, and
`fold_flatten` that folding hides no line and no change.
-/

namespace Rustberg.Ui

open Subsequence

/-- A JavaScript string: its code units. -/
abbrev JsString := List UInt16

def lineFeed : UInt16 := 10

inductive Kind where
  | same
  | add
  | del
  deriving DecidableEq

/-- One line of a diff, with its number in the text it is a line of. -/
structure DiffLine where
  kind : Kind
  text : JsString
  old : Option Nat
  new : Option Nat
  deriving DecidableEq

/-! ## The diff -/

def remove (i : Nat) (text : JsString) : DiffLine := ⟨.del, text, some (i + 1), none⟩

def insert (j : Nat) (text : JsString) : DiffLine := ⟨.add, text, none, some (j + 1)⟩

def keep (i j : Nat) (text : JsString) : DiffLine := ⟨.same, text, some (i + 1), some (j + 1)⟩

/-- What is left of one text, once the other is at its end. -/
def rest (push : Nat → JsString → DiffLine) (i : Nat) : List JsString → List DiffLine
  | [] => []
  | text :: texts => push i text :: rest push (i + 1) texts

/-- The walk from lines `i` and `j` on. -/
def walk (lcs : List (List Nat)) (i j : Nat) : List JsString → List JsString → List DiffLine
  | [], b => rest insert j b
  | x :: a, [] => rest remove i (x :: a)
  | x :: a, y :: b =>
      if x = y then keep i j x :: walk lcs (i + 1) (j + 1) a b
      else if entry lcs i (j + 1) ≤ entry lcs (i + 1) j then
        remove i x :: walk lcs (i + 1) j a (y :: b)
      else insert j y :: walk lcs i (j + 1) (x :: a) b
termination_by a b => a.length + b.length

def diff (before after : JsString) : List DiffLine :=
  let a := before.splitOn lineFeed
  let b := after.splitOn lineFeed
  walk (lcsTable a b) 0 0 a b

/-- The added and removed lines. -/
def changed (lines : List DiffLine) : List DiffLine := lines.filter (·.kind ≠ .same)

def kept (lines : List DiffLine) : List DiffLine := lines.filter (·.kind = .same)

/-- The lines of the old text. -/
def olds (lines : List DiffLine) : List DiffLine := lines.filter (·.kind ≠ .add)

/-- The lines of the new text. -/
def news (lines : List DiffLine) : List DiffLine := lines.filter (·.kind ≠ .del)

/-- A script from `a` to `b`: kept and removed lines are `a`, kept and added ones `b`. -/
def IsScript (a b : List JsString) (lines : List DiffLine) : Prop :=
  (olds lines).map (·.text) = a ∧ (news lines).map (·.text) = b

/-! ## The walk is a script -/

section

variable (i j : Nat) (text : JsString) (lines : List DiffLine)

@[simp] theorem olds_remove : olds (remove i text :: lines) = remove i text :: olds lines := rfl

@[simp] theorem olds_insert : olds (insert j text :: lines) = olds lines := rfl

@[simp] theorem olds_keep : olds (keep i j text :: lines) = keep i j text :: olds lines := rfl

@[simp] theorem news_remove : news (remove i text :: lines) = news lines := rfl

@[simp] theorem news_insert : news (insert j text :: lines) = insert j text :: news lines := rfl

@[simp] theorem news_keep : news (keep i j text :: lines) = keep i j text :: news lines := rfl

@[simp] theorem changed_remove :
    changed (remove i text :: lines) = remove i text :: changed lines :=
  rfl

@[simp] theorem changed_insert :
    changed (insert j text :: lines) = insert j text :: changed lines :=
  rfl

@[simp] theorem changed_keep : changed (keep i j text :: lines) = changed lines := rfl

end

/-- Lines that are all removed, numbered from `i` on. -/
theorem rest_remove (i : Nat) (a : List JsString) :
    (olds (rest remove i a)).map (·.text) = a
      ∧ (olds (rest remove i a)).map (·.old) = (List.range' (i + 1) a.length).map some
      ∧ news (rest remove i a) = [] ∧ (changed (rest remove i a)).length = a.length := by
  induction a generalizing i with
  | nil => exact ⟨rfl, rfl, rfl, rfl⟩
  | cons x a ih =>
      obtain ⟨htext, hold, hnew, hchanged⟩ := ih (i + 1)
      refine ⟨?_, ?_, ?_, ?_⟩
      · rw [rest, olds_remove, List.map_cons, htext]
        rfl
      · rw [rest, olds_remove, List.map_cons, hold]
        rfl
      · rw [rest, news_remove, hnew]
      · rw [rest, changed_remove, List.length_cons, hchanged, List.length_cons]

theorem rest_insert (j : Nat) (b : List JsString) :
    (news (rest insert j b)).map (·.text) = b
      ∧ (news (rest insert j b)).map (·.new) = (List.range' (j + 1) b.length).map some
      ∧ olds (rest insert j b) = [] ∧ (changed (rest insert j b)).length = b.length := by
  induction b generalizing j with
  | nil => exact ⟨rfl, rfl, rfl, rfl⟩
  | cons y b ih =>
      obtain ⟨htext, hnew, hold, hchanged⟩ := ih (j + 1)
      refine ⟨?_, ?_, ?_, ?_⟩
      · rw [rest, news_insert, List.map_cons, htext]
        rfl
      · rw [rest, news_insert, List.map_cons, hnew]
        rfl
      · rw [rest, olds_insert, hold]
      · rw [rest, changed_insert, List.length_cons, hchanged, List.length_cons]

theorem walk_olds (lcs : List (List Nat)) (i j : Nat) (a b : List JsString) :
    (olds (walk lcs i j a b)).map (·.text) = a
      ∧ (olds (walk lcs i j a b)).map (·.old) = (List.range' (i + 1) a.length).map some := by
  fun_induction walk lcs i j a b with
  | case1 i j b =>
      rw [(rest_insert j b).2.2.1]
      exact ⟨rfl, rfl⟩
  | case2 i j x a => exact ⟨(rest_remove i (x :: a)).1, (rest_remove i (x :: a)).2.1⟩
  | case3 i j a x b ih =>
      rw [olds_keep, List.map_cons, List.map_cons, ih.1, ih.2]
      exact ⟨rfl, rfl⟩
  | case4 i j x a y b hne hle ih =>
      rw [olds_remove, List.map_cons, List.map_cons, ih.1, ih.2]
      exact ⟨rfl, rfl⟩
  | case5 i j x a y b hne hlt ih => exact ih

theorem walk_news (lcs : List (List Nat)) (i j : Nat) (a b : List JsString) :
    (news (walk lcs i j a b)).map (·.text) = b
      ∧ (news (walk lcs i j a b)).map (·.new) = (List.range' (j + 1) b.length).map some := by
  fun_induction walk lcs i j a b with
  | case1 i j b => exact ⟨(rest_insert j b).1, (rest_insert j b).2.1⟩
  | case2 i j x a =>
      rw [(rest_remove i (x :: a)).2.2.1]
      exact ⟨rfl, rfl⟩
  | case3 i j a x b ih =>
      rw [news_keep, List.map_cons, List.map_cons, ih.1, ih.2]
      exact ⟨rfl, rfl⟩
  | case4 i j x a y b hne hle ih => exact ih
  | case5 i j x a y b hne hlt ih =>
      rw [news_insert, List.map_cons, List.map_cons, ih.1, ih.2]
      exact ⟨rfl, rfl⟩

/-! ## It is a shortest one -/

theorem tail_drop {texts texts' : List JsString} {text : JsString} {i : Nat}
    (h : texts.drop i = text :: texts') : texts.drop (i + 1) = texts' := by
  rw [← List.tail_drop, h, List.tail_cons]

/-- The two entries the walk compares. -/
theorem entries_cons {before after a b : List JsString} {x y : JsString} {i j : Nat}
    (hi : before.drop i = x :: a) (hj : after.drop j = y :: b) :
    entry (lcsTable before after) (i + 1) j = lcsLength a (y :: b)
      ∧ entry (lcsTable before after) i (j + 1) = lcsLength (x :: a) b := by
  have hlt {texts texts' : List JsString} {text : JsString} {k : Nat}
      (h : texts.drop k = text :: texts') : k < texts.length := by
    by_contra hge
    rw [List.drop_eq_nil_of_le (Nat.le_of_not_lt hge)] at h
    cases h
  have hi' := hlt hi
  have hj' := hlt hj
  rw [entry_lcsTable (Nat.succ_le_of_lt hi') (Nat.le_of_lt hj'),
    entry_lcsTable (Nat.le_of_lt hi') (Nat.succ_le_of_lt hj'), tail_drop hi, tail_drop hj, hi, hj]
  exact ⟨rfl, rfl⟩

/-- Following the table, a line is added or removed only where the longest common
subsequence of what is left goes without it. -/
theorem length_changed_walk {before after : List JsString} (i j : Nat) (a b : List JsString)
    (hi : before.drop i = a) (hj : after.drop j = b) :
    (changed (walk (lcsTable before after) i j a b)).length + 2 * lcsLength a b
      = a.length + b.length := by
  fun_induction walk (lcsTable before after) i j a b with
  | case1 i j b =>
      rw [lcsLength_nil_left, (rest_insert j b).2.2.2, List.length_nil]
      omega
  | case2 i j x a => rw [lcsLength_nil_right, (rest_remove i (x :: a)).2.2.2, List.length_nil]
  | case3 i j a x b ih =>
      have hrest := ih (tail_drop hi) (tail_drop hj)
      rw [changed_keep, lcsLength_same, List.length_cons, List.length_cons]
      omega
  | case4 i j x a y b hne hle ih =>
      have hrest := ih (tail_drop hi) hj
      obtain ⟨hbelow, hright⟩ := entries_cons hi hj
      rw [hbelow, hright] at hle
      rw [changed_remove, lcsLength_differ hne, Nat.max_eq_left hle]
      simp only [List.length_cons] at hrest ⊢
      omega
  | case5 i j x a y b hne hlt ih =>
      have hrest := ih hi (tail_drop hj)
      obtain ⟨hbelow, hright⟩ := entries_cons hi hj
      rw [hbelow, hright, Nat.not_le] at hlt
      rw [changed_insert, lcsLength_differ hne, Nat.max_eq_right (Nat.le_of_lt hlt)]
      simp only [List.length_cons] at hrest ⊢
      omega

theorem length_changed (lines : List DiffLine) :
    (changed lines).length + 2 * (kept lines).length =
      (olds lines).length + (news lines).length := by
  induction lines with
  | nil => rfl
  | cons line lines ih =>
      obtain ⟨kind, text, old, new⟩ := line
      cases kind with
      | same =>
          show (changed lines).length + 2 * ((kept lines).length + 1)
            = (olds lines).length + 1 + ((news lines).length + 1)
          omega
      | add =>
          show (changed lines).length + 1 + 2 * (kept lines).length
            = (olds lines).length + ((news lines).length + 1)
          omega
      | del =>
          show (changed lines).length + 1 + 2 * (kept lines).length
            = (olds lines).length + 1 + (news lines).length
          omega

/-- The kept lines of a script are lines of both texts. -/
theorem IsScript.length_kept_le {a b : List JsString} {lines : List DiffLine}
    (h : IsScript a b lines) : (kept lines).length ≤ lcsLength a b := by
  obtain ⟨rfl, rfl⟩ := h
  have hkept : kept lines = (olds lines).filter (·.kind ≠ .del) := by
    rw [kept, olds, List.filter_filter]
    refine List.filter_congr fun line _ => ?_
    cases line.kind <;> rfl
  have hkept' : kept lines = (news lines).filter (·.kind ≠ .add) := by
    rw [kept, news, List.filter_filter]
    refine List.filter_congr fun line _ => ?_
    cases line.kind <;> rfl
  rw [← List.length_map fun line : DiffLine => line.text]
  refine length_le_lcsLength ?_ ?_
  · rw [hkept]
    exact List.filter_sublist.map _
  · rw [hkept']
    exact List.filter_sublist.map _

theorem IsScript.length_changed {a b : List JsString} {lines : List DiffLine}
    (h : IsScript a b lines) :
    (changed lines).length + 2 * (kept lines).length = a.length + b.length := by
  obtain ⟨rfl, rfl⟩ := h
  rw [List.length_map, List.length_map]
  exact Ui.length_changed lines

/-! ## Folding -/

/-- A line, or unchanged lines folded into one. -/
inductive Row where
  | line (l : DiffLine)
  | fold (lines : List DiffLine)

/-- The lines a row stands for. -/
def Row.lines : Row → List DiffLine
  | .line l => [l]
  | .fold lines => lines

/-- `near[k] = true` for every `k` from `first` up to `last`. -/
def mark (near : List Bool) (first last : Nat) : List Bool :=
  (List.range' first (last + 1 - first)).foldl (fun near k => near.set k true) near

/-- Which lines stand within `context` lines of a change. -/
def nearChange (lines : List DiffLine) (context : Nat) : List Bool :=
  lines.zipIdx.foldl
    (fun near (l, i) =>
      if l.kind = .same then near
      else mark near (i - context) (min (lines.length - 1) (i + context)))
    (lines.map fun _ => false)

/-- The lines collected so far become a fold, unless there is at most one. -/
def flush (out : List Row) (run : List DiffLine) : List Row :=
  if 1 < run.length then out ++ [.fold run] else out ++ run.map .line

def collect (state : List Row × List DiffLine) (line : DiffLine × Bool) :
    List Row × List DiffLine :=
  if line.2 then (flush state.1 state.2 ++ [.line line.1], []) else (state.1, state.2 ++ [line.1])

def fold (lines : List DiffLine) (context : Nat) : List Row :=
  if lines.all (·.kind = .same) then lines.map .line
  else
    let (out, run) := (lines.zip (nearChange lines context)).foldl collect ([], [])
    flush out run

/-! ## What folding keeps -/

theorem getElem?_foldl_set (near : List Bool) (ks : List Nat) (i : Nat) :
    (ks.foldl (fun near k => near.set k true) near)[i]?
      = if i ∈ ks ∧ i < near.length then some true else near[i]? := by
  induction ks generalizing near with
  | nil => simp
  | cons k ks ih =>
      rw [List.foldl_cons, ih, List.length_set, List.getElem?_set]
      by_cases hk : k = i
      · subst hk
        by_cases hlt : k < near.length
        · simp [hlt]
        · simp [hlt]
      · simp [hk, Ne.symm hk]

theorem getElem?_mark (near : List Bool) (first last i : Nat) :
    (mark near first last)[i]?
      = if first ≤ i ∧ i ≤ last ∧ i < near.length then some true else near[i]? := by
  have hrange : i ∈ List.range' first (last + 1 - first) ↔ first ≤ i ∧ i ≤ last := by
    rw [List.mem_range'_1]
    omega
  simp only [mark, getElem?_foldl_set, hrange, and_assoc]

theorem length_mark (near : List Bool) (first last : Nat) :
    (mark near first last).length = near.length := by
  unfold mark
  generalize List.range' first (last + 1 - first) = ks
  induction ks generalizing near with
  | nil => rfl
  | cons k ks ih => rw [List.foldl_cons, ih, List.length_set]

/-- Marking around one line after another: nothing is unmarked, and every changed
line is marked. -/
theorem foldl_mark (last context : Nat) (marks : List (DiffLine × Nat)) (near : List Bool) :
    let marked := marks.foldl
      (fun near (l, i) =>
        if l.kind = .same then near else mark near (i - context) (min last (i + context))) near
    marked.length = near.length ∧ ∀ i, i ≤ last → i < near.length →
      (near[i]? = some true ∨ ∃ l, (l, i) ∈ marks ∧ l.kind ≠ .same) → marked[i]? = some true := by
  induction marks generalizing near with
  | nil => exact ⟨rfl, fun i _ _ h => h.resolve_right fun ⟨l, hmem, _⟩ => (nomatch hmem)⟩
  | cons head marks ih =>
      obtain ⟨l, k⟩ := head
      intro marked
      by_cases hsame : l.kind = .same
      · have hskip : marked = marks.foldl (fun near (l, i) => if l.kind = .same then near
            else mark near (i - context) (min last (i + context))) near := by
          simp only [marked, List.foldl_cons, hsame, if_true]
        obtain ⟨hlength, hmarked⟩ := ih near
        rw [hskip]
        refine ⟨hlength, fun i hlast hlt h => hmarked i hlast hlt ?_⟩
        rcases h with h | ⟨l', hmem, hkind⟩
        · exact .inl h
        · rcases List.mem_cons.mp hmem with heq | hmem
          · cases heq
            exact absurd hsame hkind
          · exact .inr ⟨l', hmem, hkind⟩
      · have hmark : marked = marks.foldl (fun near (l, i) => if l.kind = .same then near
            else mark near (i - context) (min last (i + context)))
              (mark near (k - context) (min last (k + context))) := by
          simp only [marked, List.foldl_cons, hsame, if_false]
        obtain ⟨hlength, hmarked⟩ := ih (mark near (k - context) (min last (k + context)))
        rw [length_mark] at hlength
        rw [hmark]
        refine ⟨hlength, fun i hlast hlt h => hmarked i hlast ?_ ?_⟩
        · rwa [length_mark]
        · rw [getElem?_mark]
          rcases h with h | ⟨l', hmem, hkind⟩
          · rw [h, ite_self]
            exact .inl rfl
          · rcases List.mem_cons.mp hmem with heq | hmem
            · cases heq
              left
              rw [if_pos (by omega)]
            · exact .inr ⟨l', hmem, hkind⟩

theorem length_nearChange (lines : List DiffLine) (context : Nat) :
    (nearChange lines context).length = lines.length := by
  rw [nearChange, (foldl_mark (lines.length - 1) context lines.zipIdx _).1, List.length_map]

/-- A line that is not near a change is not a change. -/
theorem same_of_not_near {lines : List DiffLine} {context : Nat} {line : DiffLine}
    (h : (line, false) ∈ lines.zip (nearChange lines context)) : line.kind = .same := by
  by_contra hkind
  obtain ⟨i, hi⟩ := List.mem_iff_getElem?.mp h
  rw [List.getElem?_zip_eq_some] at hi
  obtain ⟨hline, hnear⟩ := hi
  have hlt : i < lines.length := (List.getElem?_eq_some_iff.mp hline).1
  have hmem : (line, i) ∈ lines.zipIdx := List.mem_zipIdx_iff_getElem?.mpr hline
  have hmarked :=
    (foldl_mark (lines.length - 1) context lines.zipIdx (lines.map fun _ => false)).2 i
    (by omega) (by rwa [List.length_map]) (.inr ⟨line, hmem, hkind⟩)
  rw [← nearChange, hnear] at hmarked
  cases hmarked

/-- Rows that fold nothing but unchanged lines. -/
def FoldsSame (rows : List Row) : Prop :=
  ∀ lines, .fold lines ∈ rows → ∀ line ∈ lines, line.kind = .same

theorem flatten_map_line (lines : List DiffLine) :
    (lines.map Row.line).flatMap Row.lines = lines := by
  induction lines with
  | nil => rfl
  | cons l lines ih =>
      rw [List.map_cons, List.flatMap_cons, ih]
      rfl

theorem flatten_flush (out : List Row) (run : List DiffLine) :
    (flush out run).flatMap Row.lines = out.flatMap Row.lines ++ run := by
  unfold flush
  split
  · simp [Row.lines]
  · rw [List.flatMap_append, flatten_map_line]

theorem FoldsSame.flush {out : List Row} {run : List DiffLine} (h : FoldsSame out)
    (hrun : ∀ line ∈ run, line.kind = .same) : FoldsSame (flush out run) := by
  intro lines hmem
  unfold Ui.flush at hmem
  split at hmem
  · rcases List.mem_append.mp hmem with hmem | hmem
    · exact h lines hmem
    · cases List.mem_singleton.mp hmem
      exact hrun
  · rcases List.mem_append.mp hmem with hmem | hmem
    · exact h lines hmem
    · obtain ⟨l, _, hl⟩ := List.mem_map.mp hmem
      cases hl

/-- Collecting rows loses no line, and folds only lines that are not near a change. -/
theorem foldl_collect (pairs : List (DiffLine × Bool)) (out : List Row) (run : List DiffLine)
    (hpairs : ∀ line, (line, false) ∈ pairs → line.kind = .same) (hout : FoldsSame out)
    (hrun : ∀ line ∈ run, line.kind = .same) :
    let rows := flush (pairs.foldl collect (out, run)).1 (pairs.foldl collect (out, run)).2
    rows.flatMap Row.lines = out.flatMap Row.lines ++ run ++ pairs.map (·.1) ∧ FoldsSame rows := by
  induction pairs generalizing out run with
  | nil =>
      refine ⟨?_, hout.flush hrun⟩
      rw [List.map_nil, List.append_nil]
      exact flatten_flush out run
  | cons pair pairs ih =>
      obtain ⟨line, near⟩ := pair
      have hpairs' : ∀ line, (line, false) ∈ pairs → line.kind = .same :=
        fun line hmem => hpairs line (List.mem_cons_of_mem _ hmem)
      cases near with
      | true =>
          have hout' : FoldsSame (flush out run ++ [.line line]) := by
            intro lines hmem
            rcases List.mem_append.mp hmem with hmem | hmem
            · exact hout.flush hrun lines hmem
            · cases List.mem_singleton.mp hmem
          obtain ⟨hlines, hfolds⟩ := ih (flush out run ++ [.line line]) [] hpairs' hout' (by simp)
          refine ⟨?_, hfolds⟩
          refine hlines.trans ?_
          rw [List.flatMap_append, flatten_flush]
          simp [Row.lines]
      | false =>
          have hrun' : ∀ l ∈ run ++ [line], l.kind = .same :=
            List.forall_mem_append.mpr ⟨hrun, List.forall_mem_singleton.mpr
              (hpairs line List.mem_cons_self)⟩
          obtain ⟨hlines, hfolds⟩ := ih out (run ++ [line]) hpairs' hout hrun'
          refine ⟨?_, hfolds⟩
          refine hlines.trans ?_
          simp

/-- Flattening gives back every line, and no change stands inside a fold. -/
theorem fold_flatten (lines : List DiffLine) (context : Nat) :
    (fold lines context).flatMap Row.lines = lines ∧ FoldsSame (fold lines context) := by
  unfold fold
  split
  · refine ⟨flatten_map_line lines, fun folded hmem => ?_⟩
    obtain ⟨l, _, hl⟩ := List.mem_map.mp hmem
    cases hl
  · obtain ⟨hlines, hfolds⟩ := foldl_collect (lines.zip (nearChange lines context)) [] []
      (fun line hmem => same_of_not_near hmem) (fun folded hmem => (nomatch hmem)) (by simp)
    refine ⟨hlines.trans ?_, hfolds⟩
    rw [List.flatMap_nil, List.nil_append, List.nil_append]
    exact List.map_fst_zip (Nat.le_of_eq (length_nearChange lines context).symm)

/-- A common subsequence of greatest length. -/
def Longest (a b common : List JsString) : Prop :=
  common.Sublist a ∧ common.Sublist b ∧
    ∀ other : List JsString, other.Sublist a → other.Sublist b → other.length ≤ common.length

/-- The diff is a script, numbered from 1 in both texts, with as few changes as any; and
folding it, or any lines, with any context loses no line and hides no change. -/
theorem diff_minimal (before after : JsString) :
    let a := before.splitOn lineFeed
    let b := after.splitOn lineFeed
    let lines := diff before after
    IsScript a b lines
      ∧ (olds lines).map (·.old) = (List.range' 1 a.length).map some
      ∧ (news lines).map (·.new) = (List.range' 1 b.length).map some
      ∧ (∀ other, IsScript a b other → (changed lines).length ≤ (changed other).length)
      ∧ (∃ common, Longest a b common ∧
          (changed lines).length = a.length + b.length - 2 * common.length)
      ∧ ∀ (shown : List DiffLine) (context : Nat),
          (fold shown context).flatMap Row.lines = shown ∧ FoldsSame (fold shown context) := by
  intro a b lines
  have hold := walk_olds (lcsTable a b) 0 0 a b
  have hnew := walk_news (lcsTable a b) 0 0 a b
  have hlength : (changed lines).length + 2 * lcsLength a b = a.length + b.length :=
    length_changed_walk 0 0 a b rfl rfl
  refine ⟨⟨hold.1, hnew.1⟩, hold.2, hnew.2, fun other hother => ?_, ?_, fold_flatten⟩
  · have hkept := hother.length_kept_le
    have hchanged := hother.length_changed
    omega
  · obtain ⟨common, ha, hb, hcommon⟩ := exists_common a b
    refine ⟨common, ⟨ha, hb, fun other hothera hotherb => ?_⟩, by omega⟩
    rw [hcommon]
    exact length_le_lcsLength hothera hotherb

end Rustberg.Ui
