import Rustberg.Base.Text

/-!
# Relations ordered by key

A finite map from text keys in byte order, with the scan an ordered store
offers: the keys of a half-open range, in order. `mem_keysIn_prefix` says
what a scan from a prefix up to the prefix followed by a bound returns,
and `keysIn_resume` that a scan which starts at the last key seen, with
the least character appended, goes on right after it.
-/

abbrev Relation (V : Type) := Std.ExtTreeMap Text V

namespace Relation

variable {V : Type} (m : Relation V)

theorem getElem?_insert (k a : Text) (v : V) :
    (m.insert k v)[a]? = if k = a then some v else m[a]? := by
  rw [Std.ExtTreeMap.getElem?_insert]
  simp only [Std.LawfulEqCmp.compare_eq_iff_eq]

theorem getElem?_erase (k a : Text) :
    (m.erase k)[a]? = if k = a then none else m[a]? := by
  rw [Std.ExtTreeMap.getElem?_erase]
  simp only [Std.LawfulEqCmp.compare_eq_iff_eq]

theorem mem_insert {k a : Text} {v : V} : a ∈ m.insert k v ↔ k = a ∨ a ∈ m := by
  rw [Std.ExtTreeMap.mem_insert, Std.LawfulEqCmp.compare_eq_iff_eq]

theorem mem_erase {k a : Text} : a ∈ m.erase k ↔ k ≠ a ∧ a ∈ m := by
  rw [Std.ExtTreeMap.mem_erase, ne_eq, Std.LawfulEqCmp.compare_eq_iff_eq]

variable {m}

theorem mem_of_mem_foldl_erase {keys : List Text} {a : Text}
    (h : a ∈ keys.foldl (fun m key => m.erase key) m) : a ∈ m := by
  induction keys generalizing m with
  | nil => exact h
  | cons key keys ih => exact ((mem_erase m).mp (ih h)).2

theorem getElem?_foldl_erase (keys : List Text) (a : Text) :
    (keys.foldl (fun m key => m.erase key) m)[a]? = if a ∈ keys then none else m[a]? := by
  induction keys generalizing m with
  | nil => simp
  | cons key keys ih =>
      rw [List.foldl_cons, ih, getElem?_erase]
      by_cases hkeys : a ∈ keys
      · simp [hkeys]
      · by_cases hkey : key = a
        · simp [hkey]
        · simp [hkeys, hkey, Ne.symm hkey]

theorem getElem?_eq_none_iff {k : Text} : m[k]? = none ↔ k ∉ m := by
  rw [Std.ExtTreeMap.mem_iff_isSome_getElem?]
  simp

theorem mem_of_getElem? {k : Text} {v : V} (h : m[k]? = some v) : k ∈ m := by
  rw [Std.ExtTreeMap.mem_iff_isSome_getElem?, h]
  rfl

variable (m)

/-- `range(start..stop)`: the keys from `start` up to, not including, `stop`. -/
def keysIn (start stop : Text) : List Text :=
  m.keys.filter fun key => decide (¬ key < start ∧ key < stop)

theorem mem_keysIn {start stop key : Text} :
    key ∈ keysIn m start stop ↔ key ∈ m ∧ ¬ key < start ∧ key < stop := by
  simp [keysIn, Std.ExtTreeMap.mem_keys]

/-- A scan from `p` to `p` followed by `c` misses what goes on at or above `c`. -/
theorem mem_keysIn_prefix {p key : Text} {c : Char} :
    key ∈ keysIn m p (p ++ [c]) ↔ key ∈ m ∧ ∃ r, key = p ++ r ∧ ∀ x ∈ r.head?, x < c := by
  rw [mem_keysIn, Text.mem_prefixRange]

theorem keys_sorted : m.keys.Pairwise (· < ·) :=
  Std.ExtTreeMap.ordered_keys.imp Text.compare_eq_lt.mp

theorem keysIn_sorted (start stop : Text) : (keysIn m start stop).Pairwise (· < ·) :=
  (keys_sorted m).filter _

/-- Starting at `cursor` with the least character appended is starting right
after `cursor`. -/
theorem keysIn_resume {start stop cursor : Text} (h : ¬ cursor < start) :
    keysIn m (cursor ++ [Char.ofNat 0]) stop = (keysIn m start stop).filter (cursor < ·) := by
  simp only [keysIn, List.filter_filter]
  refine List.filter_congr fun key _ => ?_
  rw [← Bool.decide_and, decide_eq_decide, Text.not_lt_append_nul]
  constructor
  · exact fun ⟨hk, hs⟩ => ⟨hk, fun hlt => h (hk.trans hlt), hs⟩
  · exact fun ⟨hk, _, hs⟩ => ⟨hk, hs⟩

/-- What is inserted above every key stands last. -/
theorem toList_insert_last {k : Text} (v : V) (h : ∀ a ∈ m, a < k) :
    (m.insert k v).toList = m.toList ++ [(k, v)] := by
  let r : Text × V → Text × V → Prop := fun a b => a.1 < b.1
  have : Std.Irrefl r := ⟨fun a => lt_irrefl a.1⟩
  have hsorted (m : Relation V) : m.toList.Pairwise r :=
    Std.ExtTreeMap.ordered_keys_toList.imp Text.compare_eq_lt.mp
  have hlast : (m.toList ++ [(k, v)]).Pairwise r := by
    refine List.pairwise_append.mpr ⟨hsorted m, List.pairwise_singleton .., fun a ha b hb => ?_⟩
    obtain rfl := List.mem_singleton.mp hb
    exact h _ (mem_of_getElem? (Std.ExtTreeMap.mem_toList_iff_getElem?_eq_some.mp ha))
  refine List.Pairwise.eq_of_mem_iff (hsorted _) hlast fun ⟨a, w⟩ => ?_
  rw [List.mem_append, List.mem_singleton, Std.ExtTreeMap.mem_toList_iff_getElem?_eq_some,
    Std.ExtTreeMap.mem_toList_iff_getElem?_eq_some, getElem?_insert]
  by_cases hk : k = a
  · subst hk
    have hnone : m[k]? = none := getElem?_eq_none_iff.mpr fun hmem => lt_irrefl k (h k hmem)
    simp [hnone, eq_comm]
  · simp [hk, Ne.symm hk]

/-! ## A relation under names -/

section

variable {A V W : Type} (key : A → Text) (valid : A → Prop) (read : V → W)

open Classical in
/-- What `m` holds under the key of each valid name. -/
noncomputable def under (m : Relation V) (a : A) : Option W :=
  if valid a then (m[key a]?).map read else none

variable {key valid read} {m : Relation V} {a : A}

theorem under_of_valid (h : valid a) : under key valid read m a = (m[key a]?).map read :=
  if_pos h

theorem under_of_not_valid (h : ¬ valid a) : under key valid read m a = none :=
  if_neg h

theorem under_eq_some {w : W} :
    under key valid read m a = some w ↔ valid a ∧ ∃ v, m[key a]? = some v ∧ read v = w := by
  by_cases h : valid a
  · rw [under_of_valid h, Option.map_eq_some_iff]
    exact (and_iff_right h).symm
  · rw [under_of_not_valid h]
    exact iff_of_false (by simp) fun hvalid => h hvalid.1

theorem under_ne_none : under key valid read m a ≠ none ↔ valid a ∧ key a ∈ m := by
  by_cases h : valid a
  · rw [under_of_valid h, and_iff_right h, ne_eq, Option.map_eq_none_iff,
      getElem?_eq_none_iff, not_not]
  · rw [under_of_not_valid h]
    exact iff_of_false (not_not.mpr rfl) fun hvalid => h hvalid.1

theorem under_eq_none (h : valid a) : under key valid read m a = none ↔ key a ∉ m := by
  rw [under_of_valid h, Option.map_eq_none_iff, getElem?_eq_none_iff]

/-- Where every key is one of a valid name, what stands under a key is what
the name it is made from holds. -/
theorem mem_iff_under (hkeys : ∀ k ∈ m, ∃ a, valid a ∧ k = key a) {k : Text} :
    k ∈ m ↔ ∃ a, k = key a ∧ under key valid read m a ≠ none := by
  constructor
  · intro hmem
    obtain ⟨a, ha, rfl⟩ := hkeys k hmem
    exact ⟨a, rfl, under_ne_none.mpr ⟨ha, hmem⟩⟩
  · rintro ⟨a, rfl, hheld⟩
    exact (under_ne_none.mp hheld).2

theorem getElem?_iff_under (hkeys : ∀ k ∈ m, ∃ a, valid a ∧ k = key a) {k : Text} {w : W} :
    (m[k]?).map read = some w ↔ ∃ a, k = key a ∧ under key valid read m a = some w := by
  rw [Option.map_eq_some_iff]
  constructor
  · rintro ⟨v, hv, rfl⟩
    obtain ⟨a, ha, rfl⟩ := hkeys k (mem_of_getElem? hv)
    exact ⟨a, rfl, under_eq_some.mpr ⟨ha, v, hv, rfl⟩⟩
  · rintro ⟨a, rfl, hheld⟩
    exact (under_eq_some.mp hheld).2

variable [DecidableEq A]

/-- Where keys tell valid names apart, an insert changes one name. -/
theorem under_insert (hinj : ∀ b, valid b → key a = key b → a = b) (h : valid a) (v : V) :
    under key valid read (m.insert (key a) v) =
      Function.update (under key valid read m) a (some (read v)) := by
  funext b
  by_cases hb : b = a
  · subst hb
    rw [Function.update_self, under_of_valid h, getElem?_insert, if_pos rfl, Option.map_some]
  · rw [Function.update_of_ne hb]
    by_cases hvalid : valid b
    · have hkey : ¬ key a = key b := fun hkey => hb (hinj b hvalid hkey).symm
      rw [under_of_valid hvalid, under_of_valid hvalid, getElem?_insert, if_neg hkey]
    · rw [under_of_not_valid hvalid, under_of_not_valid hvalid]

theorem under_erase (hinj : ∀ b, valid b → key a = key b → a = b) (h : valid a) :
    under key valid read (m.erase (key a)) =
      Function.update (under key valid read m) a none := by
  funext b
  by_cases hb : b = a
  · subst hb
    rw [Function.update_self, under_of_valid h, getElem?_erase, if_pos rfl, Option.map_none]
  · rw [Function.update_of_ne hb]
    by_cases hvalid : valid b
    · have hkey : ¬ key a = key b := fun hkey => hb (hinj b hvalid hkey).symm
      rw [under_of_valid hvalid, under_of_valid hvalid, getElem?_erase, if_neg hkey]
    · rw [under_of_not_valid hvalid, under_of_not_valid hvalid]

end

end Relation
