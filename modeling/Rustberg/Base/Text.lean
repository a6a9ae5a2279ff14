import Mathlib

/-!
# Text

A string as the list of its Unicode scalar values, with the `str`
operations the development needs and the order the bytes of UTF-8 give
it. UTF-8 preserves code point order, so byte order on two strings is
the lexicographic order `<` on the lists below.

`mem_prefixRange` is the fact behind every bounded prefix scan: between
a prefix `p` (inclusive) and `p` extended by one character `c`
(exclusive) lie exactly the strings that start with `p` and do not
continue with a character at or above `c`.
-/

abbrev Text := List Char

namespace Text

instance lawfulBEq : LawfulBEq Text := inferInstance

/-! ## Byte order -/

theorem compare_eq_lt {a b : Text} : compare a b = .lt ↔ a < b := by
  induction a generalizing b with
  | nil => cases b <;> simp [compare, List.compareLex]
  | cons x xs ih =>
      cases b with
      | nil => simp [compare, List.compareLex]
      | cons y ys =>
          have hrec : List.compareLex compare xs ys = .lt ↔ xs < ys := ih
          change List.compareLex compare (x :: xs) (y :: ys) = .lt ↔ _
          rw [List.compareLex_cons_cons, List.cons_lt_cons_iff]
          rcases lt_trichotomy x y with h | h | h
          · simp [compare_lt_iff_lt.mpr h, h]
          · subst h; simp [hrec]
          · simp [compare_gt_iff_gt.mpr h, h.asymm, h.ne']

theorem append_lt_append_left {p a b : Text} : p ++ a < p ++ b ↔ a < b := by
  induction p with
  | nil => rfl
  | cons x p ih => simp [ih]

theorem not_append_lt (p r : Text) : ¬ p ++ r < p := by
  intro h
  have h' : p ++ r < p ++ [] := by rwa [List.append_nil]
  exact List.not_lt_nil r (append_lt_append_left.mp h')

/-- A string at or above `p` and below an extension of `p` starts with `p`. -/
theorem prefix_of_range : ∀ {p q k : Text}, ¬ k < p → k < p ++ q → p <+: k
  | [], _, _, _, _ => List.nil_prefix
  | x :: p, _, [], hlo, _ => absurd (List.nil_lt_cons x p) hlo
  | x :: p, q, y :: k, hlo, hhi => by
      rw [List.cons_lt_cons_iff, not_or, not_and] at hlo
      rw [List.cons_append, List.cons_lt_cons_iff] at hhi
      rcases hhi with h | ⟨rfl, hhi⟩
      · exact absurd h hlo.1
      · exact List.cons_prefix_cons.mpr ⟨rfl, prefix_of_range (hlo.2 rfl) hhi⟩

/-- The strings of the half-open range from `p` to `p` followed by `c`. -/
theorem mem_prefixRange {p k : Text} {c : Char} :
    ¬ k < p ∧ k < p ++ [c] ↔ ∃ r, k = p ++ r ∧ ∀ x ∈ r.head?, x < c := by
  constructor
  · rintro ⟨hlo, hhi⟩
    obtain ⟨r, rfl⟩ := prefix_of_range hlo hhi
    refine ⟨r, rfl, fun x hx => ?_⟩
    rw [append_lt_append_left] at hhi
    cases r with
    | nil => simp at hx
    | cons y r =>
        obtain rfl : y = x := by simpa using hx
        rcases List.cons_lt_cons_iff.mp hhi with h | ⟨-, h⟩
        · exact h
        · exact absurd h (List.not_lt_nil _)
  · rintro ⟨r, rfl, hr⟩
    refine ⟨not_append_lt p r, append_lt_append_left.mpr ?_⟩
    cases r with
    | nil => exact List.nil_lt_cons c []
    | cons y r => exact List.cons_lt_cons_iff.mpr (Or.inl (hr y rfl))

theorem not_lt_nul (c : Char) : ¬ c < Char.ofNat 0 := fun h => by
  have : c.toNat < 0 := h
  omega

/-- Nothing lies between a string and the same string with `\0` appended. -/
theorem not_lt_append_nul {a b : Text} : ¬ a < b ++ [Char.ofNat 0] ↔ b < a := by
  induction b generalizing a with
  | nil =>
      cases a with
      | nil => simp
      | cons x a => simp [List.cons_lt_cons_iff, not_lt_nul]
  | cons y b ih =>
      cases a with
      | nil => simp
      | cons x a =>
          rw [List.cons_append, List.cons_lt_cons_iff, List.cons_lt_cons_iff]
          rcases lt_trichotomy x y with h | rfl | h
          · simp [h, h.asymm, h.ne']
          · simp [ih]
          · simp [h, h.asymm, h.ne']

/-! ## The operations of `str` -/

/-- `char::is_whitespace`: the Unicode property `White_Space`. -/
def isWhitespace (c : Char) : Bool :=
  let n := c.toNat
  (9 ≤ n && n ≤ 13) || n == 0x20 || n == 0x85 || n == 0xA0 || n == 0x1680 ||
    (0x2000 ≤ n && n ≤ 0x200A) || n == 0x2028 || n == 0x2029 || n == 0x202F ||
    n == 0x205F || n == 0x3000

/-- `str::trim`. -/
def trim (s : Text) : Text := (s.dropWhile isWhitespace).rdropWhile isWhitespace

/-- `str::trim_end_matches` on a character. -/
def trimEndMatches (c : Char) (s : Text) : Text := s.rdropWhile (· == c)

/-- `str::strip_prefix`. -/
def stripPrefix (s p : Text) : Option Text := p.isPrefixOf? s

/-- `str::strip_suffix`. -/
def stripSuffix (s p : Text) : Option Text := p.isSuffixOf? s

/-- `str::split_once` on a character. -/
def splitOnce (c : Char) : Text → Option (Text × Text)
  | [] => none
  | x :: xs => if x = c then some ([], xs) else (splitOnce c xs).map fun (a, b) => (x :: a, b)

/-- `str::split_once` on a nonempty string. -/
def splitOnceStr (pat : Text) : Text → Option (Text × Text)
  | [] => none
  | x :: xs =>
      match stripPrefix (x :: xs) pat with
      | some rest => some ([], rest)
      | none => (splitOnceStr pat xs).map fun (a, b) => (x :: a, b)

/-- `str::replace` of a character. -/
def replaceChar (s : Text) (c : Char) (new : Text) : Text :=
  s.flatMap fun x => if x = c then new else [x]

/-- `str::to_ascii_lowercase`. -/
def toAsciiLowercase (s : Text) : Text := s.map Char.toLower

/-- `<[_]>::join`. -/
def join (sep : Text) (parts : List Text) : Text := sep.intercalate parts

/-- `str::len`: the number of bytes of the UTF-8 form. -/
def len (s : Text) : Nat := (s.map Char.utf8Size).sum

/-- A natural number in decimal. -/
def decimal (n : Nat) : Text := Nat.toDigits 10 n

/-- An integer in decimal. -/
def integer : Int → Text
  | .ofNat n => decimal n
  | .negSucc n => '-' :: decimal (n + 1)

/-- `str::parse` of an unsigned integer of so many bits. -/
def parseUnsigned (bits : Nat) (s : Text) : Option Nat :=
  let digits := if s.head? = some '+' then s.tail else s
  if digits ≠ [] ∧ digits.all Char.isDigit ∧ Nat.ofDigitChars 10 digits 0 < 2 ^ bits then
    some (Nat.ofDigitChars 10 digits 0)
  else none

/-- `{:04X}`. -/
def hex4 (n : Nat) : Text := ((Nat.toDigits 16 n).map Char.toUpper).leftpad 4 '0'

theorem isDigit_of_mem_decimal {n : Nat} {c : Char} (h : c ∈ decimal n) : c.isDigit :=
  Nat.isDigit_of_mem_toDigits (by decide) (by decide) h

theorem parseUnsigned_decimal {bits n : Nat} (hn : n < 2 ^ bits) :
    parseUnsigned bits (decimal n) = some n := by
  have hne : decimal n ≠ [] := Nat.toDigits_ne_nil
  have hplus : (decimal n).head? ≠ some '+' := fun h => by
    have := isDigit_of_mem_decimal (List.mem_of_mem_head? h)
    revert this
    decide
  have hall : (decimal n).all Char.isDigit = true :=
    List.all_eq_true.mpr fun _ hc => isDigit_of_mem_decimal hc
  have hvalue : Nat.ofDigitChars 10 (decimal n) 0 = n := Nat.ofDigitChars_ten_toDigits
  simp only [parseUnsigned, if_neg hplus, hvalue]
  exact if_pos ⟨hne, hall, hn⟩

/-! ## Trimming -/

theorem rdropWhile_append_of_pos {f : Char → Bool} {s t : Text} (h : ∀ c ∈ t, f c = true) :
    (s ++ t).rdropWhile f = s.rdropWhile f := by
  induction t using List.reverseRecOn with
  | nil => rw [List.append_nil]
  | append_singleton t c ih =>
      rw [← List.append_assoc, List.rdropWhile_concat_pos _ _ _ (h c (by simp))]
      exact ih fun x hx => h x (List.mem_append_left _ hx)

/-- White space around a text is trimmed away. -/
theorem trim_around {l s r : Text} (hl : ∀ c ∈ l, isWhitespace c = true)
    (hr : ∀ c ∈ r, isWhitespace c = true) : trim (l ++ s ++ r) = trim s := by
  rw [trim, trim, List.append_assoc, List.dropWhile_append_of_pos hl, List.dropWhile_append]
  split
  · next hempty =>
      rw [List.isEmpty_iff.mp hempty, List.dropWhile_eq_nil_iff.mpr hr]
  · exact rdropWhile_append_of_pos hr

theorem exists_trim (s : Text) : ∃ l r, s = l ++ trim s ++ r ∧
    (∀ c ∈ l, isWhitespace c = true) ∧ ∀ c ∈ r, isWhitespace c = true := by
  refine ⟨s.takeWhile isWhitespace, (s.dropWhile isWhitespace).rtakeWhile isWhitespace, ?_,
    fun c hc => List.mem_takeWhile_imp hc, fun c hc => List.mem_rtakeWhile_imp hc⟩
  rw [trim, List.append_assoc, List.rdropWhile_append_rtakeWhile, List.takeWhile_append_dropWhile]

theorem trim_ne_nil {s : Text} {c : Char} (hc : c ∈ s) (hvisible : isWhitespace c = false) :
    trim s ≠ [] := by
  intro hnil
  obtain ⟨l, r, hs, hl, hr⟩ := exists_trim s
  rw [hnil, List.append_nil] at hs
  rw [hs] at hc
  have hspace : isWhitespace c = true := (List.mem_append.mp hc).elim (hl c) (hr c)
  rw [hvisible] at hspace
  cases hspace

theorem trim_visible {s : Text} (h : ∀ c ∈ s, isWhitespace c = false) : trim s = s := by
  rw [trim, List.dropWhile_eq_self_iff.mpr, List.rdropWhile_eq_self_iff.mpr]
  · intro hne hlast
    rw [h _ (List.getLast_mem hne)] at hlast
    cases hlast
  · intro hpos hhead
    rw [h _ (List.getElem_mem hpos)] at hhead
    cases hhead

theorem trim_space {name space : Text} (hname : ∀ c ∈ name, isWhitespace c = false)
    (hspace : ∀ c ∈ space, isWhitespace c = true) : trim (name ++ space) = name := by
  have haround : trim ([] ++ name ++ space) = trim name :=
    trim_around (fun c hc => absurd hc List.not_mem_nil) hspace
  rw [List.nil_append] at haround
  rw [haround, trim_visible hname]

theorem rdropWhile_stop {p : Char → Bool} {x : Char} (hx : p x = false) (front more : Text) :
    ∃ rest, (front ++ x :: more).rdropWhile p = front ++ x :: rest := by
  induction more using List.reverseRecOn with
  | nil =>
      refine ⟨[], ?_⟩
      rw [List.rdropWhile_concat_neg p front x (by rw [hx]; exact Bool.false_ne_true)]
  | append_singleton more y ih =>
      rw [← List.cons_append, ← List.append_assoc]
      cases hy : p y with
      | true => rwa [List.rdropWhile_concat_pos p _ y hy]
      | false =>
          refine ⟨more ++ [y], ?_⟩
          rw [List.rdropWhile_concat_neg p _ y (by rw [hy]; exact Bool.false_ne_true),
            List.append_assoc, List.cons_append]

/-! ## Numbers of one width -/

/-- `{:0width}` of an unsigned integer. -/
def padded (width n : Nat) : Text := (decimal n).leftpad width '0'

theorem isDigit_of_mem_padded {width n : Nat} {c : Char} (h : c ∈ padded width n) : c.isDigit := by
  rw [padded, List.leftpad, List.mem_append] at h
  rcases h with h | h
  · rw [List.eq_of_mem_replicate h]
    rfl
  · exact isDigit_of_mem_decimal h

theorem length_padded {width n : Nat} (hwidth : 0 < width) (hn : n < 10 ^ width) :
    (padded width n).length = width := by
  have hle : (decimal n).length ≤ width := (Nat.length_toDigits_le_iff (by decide) hwidth).mpr hn
  rw [padded, List.leftpad, List.length_append, List.length_replicate]
  omega

theorem ofDigitChars_padded (width n : Nat) : Nat.ofDigitChars 10 (padded width n) 0 = n := by
  rw [padded, List.leftpad, Nat.ofDigitChars_append, Nat.ofDigitChars_replicate_zero, Nat.mul_zero]
  exact Nat.ofDigitChars_ten_toDigits

theorem padded_inj {width m n : Nat} (h : padded width m = padded width n) : m = n := by
  rw [← ofDigitChars_padded width m, h, ofDigitChars_padded]

theorem ofDigitChars_cons_eq (c : Char) (s : Text) :
    Nat.ofDigitChars 10 (c :: s) 0 = 10 ^ s.length * (c.toNat - 48) + Nat.ofDigitChars 10 s 0 := by
  rw [Nat.ofDigitChars_cons, Nat.ofDigitChars_eq_ofDigitChars_zero, Nat.mul_zero, Nat.zero_add]
  rfl

theorem ofDigitChars_lt {s : Text} (h : ∀ c ∈ s, c.isDigit) :
    Nat.ofDigitChars 10 s 0 < 10 ^ s.length := by
  induction s with
  | nil => simp
  | cons c s ih =>
      have hc : c.toNat - 48 ≤ 9 := by
        have hdigit := Char.isDigit_iff_toNat.mp (h c (List.mem_cons_self ..))
        have hnine : '9'.toNat = 57 := rfl
        omega
      have hs := ih fun x hx => h x (List.mem_cons_of_mem _ hx)
      rw [ofDigitChars_cons_eq, List.length_cons]
      calc 10 ^ s.length * (c.toNat - 48) + Nat.ofDigitChars 10 s 0
          < 10 ^ s.length * (c.toNat - 48) + 10 ^ s.length := by omega
        _ = 10 ^ s.length * (c.toNat - 48 + 1) := by ring
        _ ≤ 10 ^ s.length * 10 := Nat.mul_le_mul_left _ (by omega)
        _ = 10 ^ (s.length + 1) := by ring

/-- Among digit strings of one length, byte order is the order of the values. -/
theorem lt_iff_ofDigitChars_lt {a b : Text} (ha : ∀ c ∈ a, c.isDigit) (hb : ∀ c ∈ b, c.isDigit)
    (hlen : a.length = b.length) :
    a < b ↔ Nat.ofDigitChars 10 a 0 < Nat.ofDigitChars 10 b 0 := by
  induction a generalizing b with
  | nil =>
      obtain rfl := List.length_eq_zero_iff.mp hlen.symm
      simp
  | cons x a ih =>
      cases b with
      | nil => cases hlen
      | cons y b =>
          have hlen' : a.length = b.length := Nat.succ.inj hlen
          have ha' : ∀ c ∈ a, c.isDigit := fun c hc => ha c (List.mem_cons_of_mem _ hc)
          have hb' : ∀ c ∈ b, c.isDigit := fun c hc => hb c (List.mem_cons_of_mem _ hc)
          have hlta := ofDigitChars_lt ha'
          have hltb := ofDigitChars_lt hb'
          have hx := (Char.isDigit_iff_toNat.mp (ha x (List.mem_cons_self ..))).1
          have hy := (Char.isDigit_iff_toNat.mp (hb y (List.mem_cons_self ..))).1
          have hzero : '0'.toNat = 48 := rfl
          rw [List.cons_lt_cons_iff, ih ha' hb' hlen', ofDigitChars_cons_eq, ofDigitChars_cons_eq]
          rw [hlen'] at hlta ⊢
          -- the first digit weighs more than all that follow it
          have hweigh : ∀ m n : Nat, m < n →
              10 ^ b.length * m + 10 ^ b.length ≤ 10 ^ b.length * n := fun m n hmn =>
            (Nat.mul_succ _ m).symm.trans_le (Nat.mul_le_mul_left _ hmn)
          rcases lt_trichotomy x y with hxy | rfl | hxy
          · have hnum : x.toNat < y.toNat := hxy
            have := hweigh (x.toNat - 48) (y.toNat - 48) (by omega)
            simp only [hxy, true_or, true_iff]
            omega
          · simp
          · have hnum : y.toNat < x.toNat := hxy
            have := hweigh (y.toNat - 48) (x.toNat - 48) (by omega)
            simp only [hxy.asymm, hxy.ne', false_and, or_self, false_iff]
            omega

/-- Padded to one width, numbers stand in their own order. -/
theorem padded_lt_padded {width m n : Nat} (hwidth : 0 < width) (hm : m < 10 ^ width)
    (hn : n < 10 ^ width) : padded width m < padded width n ↔ m < n := by
  have hlen : (padded width m).length = (padded width n).length :=
    (length_padded hwidth hm).trans (length_padded hwidth hn).symm
  have horder := lt_iff_ofDigitChars_lt (fun c hc => isDigit_of_mem_padded hc)
    (fun c hc => isDigit_of_mem_padded hc) hlen
  rwa [ofDigitChars_padded, ofDigitChars_padded] at horder

/-! ## Numbers before a mark -/

theorem stripPrefix_eq_some {p s r : Text} : stripPrefix s p = some r ↔ s = p ++ r := by
  rw [stripPrefix, List.isPrefixOf?_eq_some_iff_append_eq, eq_comm]

theorem stripSuffix_eq_some {p s r : Text} : stripSuffix s p = some r ↔ s = r ++ p := by
  rw [stripSuffix, List.isSuffixOf?, Option.map_eq_some_iff]
  constructor
  · rintro ⟨front, hfront, rfl⟩
    rw [List.isPrefixOf?_eq_some_iff_append_eq] at hfront
    rw [← List.reverse_reverse s, ← hfront, List.reverse_append, List.reverse_reverse]
  · rintro rfl
    refine ⟨r.reverse, ?_, List.reverse_reverse r⟩
    rw [List.isPrefixOf?_eq_some_iff_append_eq, List.reverse_append]

theorem stripSuffix_eq_none {p s : Text} : stripSuffix s p = none ↔ ¬ p <:+ s := by
  rw [Option.eq_none_iff_forall_ne_some]
  constructor
  · rintro h ⟨r, hr⟩
    exact h r (stripSuffix_eq_some.mpr hr.symm)
  · intro h r hr
    exact h ⟨r, (stripSuffix_eq_some.mp hr).symm⟩

theorem splitOnce_eq_none {c : Char} {s : Text} : splitOnce c s = none ↔ c ∉ s := by
  induction s with
  | nil => simp [splitOnce]
  | cons x xs ih =>
      rw [splitOnce]
      split
      · next h => simp [h]
      · next h => simp [ih, Ne.symm h]

theorem splitOnce_eq_some {c : Char} {s a b : Text} :
    splitOnce c s = some (a, b) ↔ s = a ++ c :: b ∧ c ∉ a := by
  induction s generalizing a with
  | nil => simp [splitOnce]
  | cons x xs ih =>
      rw [splitOnce]
      split
      · next h =>
          subst h
          constructor
          · intro hab
            obtain ⟨rfl, rfl⟩ : [] = a ∧ xs = b := by simpa using hab
            simp
          · rintro ⟨hs, hna⟩
            cases a with
            | nil => simpa using hs
            | cons y a => simp_all
      · next h =>
          constructor
          · intro hab
            obtain ⟨⟨a', b'⟩, hxs, hpair⟩ := Option.map_eq_some_iff.mp hab
            obtain ⟨rfl, rfl⟩ : x :: a' = a ∧ b' = b := by simpa using hpair
            obtain ⟨rfl, hna⟩ := ih.mp hxs
            simp [hna, Ne.symm h]
          · rintro ⟨hs, hna⟩
            cases a with
            | nil => simp_all
            | cons y a =>
                obtain ⟨rfl, rfl⟩ : x = y ∧ xs = a ++ c :: b := by simpa using hs
                simp [ih.mpr ⟨rfl, fun hm => hna (List.mem_cons_of_mem _ hm)⟩]

theorem splitOnceStr_eq_some {pat s a b : Text} (h : splitOnceStr pat s = some (a, b)) :
    s = a ++ (pat ++ b) := by
  induction s generalizing a with
  | nil => simp [splitOnceStr] at h
  | cons x xs ih =>
      rw [splitOnceStr] at h
      cases hp : stripPrefix (x :: xs) pat with
      | some rest =>
          rw [hp] at h
          obtain ⟨rfl, rfl⟩ : [] = a ∧ rest = b := by simpa using h
          simpa using stripPrefix_eq_some.mp hp
      | none =>
          rw [hp] at h
          obtain ⟨⟨a', b'⟩, hxs, hpair⟩ := Option.map_eq_some_iff.mp h
          obtain ⟨rfl, rfl⟩ : x :: a' = a ∧ b' = b := by simpa using hpair
          rw [List.cons_append, ← ih hxs]

theorem stripPrefix_eq_none {p s : Text} : stripPrefix s p = none ↔ ¬ p <+: s := by
  rw [stripPrefix, ← Option.not_isSome_iff_eq_none, List.isSome_isPrefixOf?_eq_isPrefixOf,
    List.isPrefixOf_iff_prefix]

theorem notMem_of_mem_splitOn {c : Char} {s piece : Text} (h : piece ∈ s.splitOn c) :
    c ∉ piece := by
  induction s generalizing piece with
  | nil =>
      obtain rfl : piece = [] := by simpa using h
      exact List.not_mem_nil
  | cons x s ih =>
      rw [List.splitOn_cons_eq_if_modifyHead] at h
      split at h
      · rcases List.mem_cons.mp h with rfl | h
        · exact List.not_mem_nil
        · exact ih h
      · next hx =>
          cases hs : s.splitOn c with
          | nil => exact absurd hs (List.splitOn_ne_nil c s)
          | cons first rest =>
              rw [hs] at h ih
              rcases List.mem_cons.mp h with rfl | h
              · rw [List.mem_cons]
                exact not_or.mpr ⟨fun hc => hx (by rw [hc]; exact beq_self_eq_true x),
                  ih (List.mem_cons_self ..)⟩
              · exact ih (List.mem_cons_of_mem _ h)

/-- Every other character is in a piece. -/
theorem mem_splitOn {c x : Char} {s : Text} (hx : x ≠ c) :
    (∃ piece ∈ s.splitOn c, x ∈ piece) ↔ x ∈ s := by
  induction s with
  | nil => simp
  | cons y s ih =>
      rw [List.splitOn_cons_eq_if_modifyHead, List.mem_cons, ← ih]
      by_cases hy : y = c
      · have hne : x ≠ y := fun h => hx (h.trans hy)
        simp [hy, hx]
      · obtain ⟨piece, pieces, hs⟩ := List.exists_cons_of_ne_nil (List.splitOn_ne_nil c s)
        simp [hy, hs, or_assoc]

/-- The pieces of `s` begin those of `t` when `t` is `s` or goes on after it. -/
theorem splitOn_prefix_iff {c : Char} {s t : Text} :
    s.splitOn c <+: t.splitOn c ↔ t = s ∨ s ++ [c] <+: t := by
  constructor
  · rintro ⟨pieces, hpieces⟩
    by_cases hnil : pieces = []
    · rw [hnil, List.append_nil] at hpieces
      have hinv := congrArg [c].intercalate hpieces
      rw [List.intercalate_splitOn, List.intercalate_splitOn] at hinv
      exact Or.inl hinv.symm
    · have hpiece : ∀ piece ∈ pieces, c ∉ piece := fun piece h =>
        notMem_of_mem_splitOn (hpieces ▸ List.mem_append_right _ h : piece ∈ t.splitOn c)
      have hsplit : (s ++ c :: [c].intercalate pieces).splitOn c = t.splitOn c := by
        rw [List.splitOn_append_cons_self, List.splitOn_intercalate c hpiece hnil, hpieces]
      have hinv := congrArg [c].intercalate hsplit
      rw [List.intercalate_splitOn, List.intercalate_splitOn] at hinv
      exact Or.inr ⟨[c].intercalate pieces, by
        rw [← hinv, List.append_assoc, List.singleton_append]⟩
  · rintro (rfl | ⟨rest, rfl⟩)
    · exact List.prefix_rfl
    · rw [List.append_assoc, List.singleton_append, List.splitOn_append_cons_self]
      exact List.prefix_append ..

/-- Before the first character of `pat` there is no `pat`. -/
theorem splitOnceStr_of_notMem {c : Char} {a : Text} (h : c ∉ a) (pat b : Text) :
    splitOnceStr (c :: pat) (a ++ (c :: pat ++ b)) = some (a, b) := by
  induction a with
  | nil =>
      have hstrip : stripPrefix (c :: pat ++ b) (c :: pat) = some b := stripPrefix_eq_some.mpr rfl
      rw [List.nil_append, List.cons_append, splitOnceStr, ← List.cons_append, hstrip]
  | cons x a ih =>
      obtain ⟨hx, ha⟩ := not_or.mp (mt List.mem_cons.mpr h)
      have hstrip : stripPrefix (x :: (a ++ (c :: pat ++ b))) (c :: pat) = none := by
        rw [stripPrefix_eq_none]
        exact fun hpre => hx (List.cons_prefix_cons.mp hpre).1
      rw [List.cons_append, splitOnceStr, hstrip, ih ha]
      rfl

/-- A pair of different characters is found where it is first put. -/
theorem splitOnceStr_pair {x y : Char} (hne : x ≠ y) {a : Text} (h : ¬ [x, y] <:+: a) (b : Text) :
    splitOnceStr [x, y] (a ++ x :: y :: b) = some (a, b) := by
  induction a with
  | nil =>
      have hstrip : stripPrefix (x :: y :: b) [x, y] = some b := stripPrefix_eq_some.mpr rfl
      rw [List.nil_append, splitOnceStr, hstrip]
  | cons c a ih =>
      obtain ⟨hpre, hin⟩ := not_or.mp (mt List.infix_cons_iff.mpr h)
      have hstrip : stripPrefix (c :: (a ++ x :: y :: b)) [x, y] = none := by
        rw [stripPrefix_eq_none]
        intro hpair
        obtain ⟨rfl, htail⟩ := List.cons_prefix_cons.mp hpair
        cases a with
        | nil => exact hne (List.cons_prefix_cons.mp htail).1.symm
        | cons d a =>
            obtain ⟨rfl, -⟩ := List.cons_prefix_cons.mp htail
            exact hpre ⟨a, rfl⟩
      rw [List.cons_append, splitOnceStr, hstrip, ih hin]
      rfl

/-- A text that does not end in `c` has no empty piece at its end. -/
theorem splitOn_rdropWhile {c : Char} {s : Text} (hne : s ≠ []) (h : s.trimEndMatches c = s) :
    (s.splitOn c).rdropWhile List.isEmpty = s.splitOn c := by
  refine List.rdropWhile_eq_self_iff.mpr fun hpieces hlast => ?_
  have hnil : (s.splitOn c).getLast hpieces = [] := List.isEmpty_iff.mp hlast
  have hsplit : s.splitOn c = (s.splitOn c).dropLast ++ [[]] := by
    conv_lhs => rw [← List.dropLast_append_getLast hpieces, hnil]
  by_cases hinit : (s.splitOn c).dropLast = []
  · rw [hinit] at hsplit
    have hinv := congrArg [c].intercalate hsplit
    rw [List.intercalate_splitOn] at hinv
    exact hne hinv
  · have hpiece : ∀ piece ∈ (s.splitOn c).dropLast, c ∉ piece := fun piece hmem =>
      notMem_of_mem_splitOn (List.mem_of_mem_dropLast hmem)
    have hends : ([c].intercalate (s.splitOn c).dropLast ++ c :: []).splitOn c = s.splitOn c := by
      rw [List.splitOn_append_cons_self, List.splitOn_intercalate c hpiece hinit, hsplit]
      simp
    have hinv := congrArg [c].intercalate hends
    rw [List.intercalate_splitOn, List.intercalate_splitOn] at hinv
    rw [← hinv, trimEndMatches, List.rdropWhile_concat_pos _ _ _ (by simp)] at h
    have hlen := congrArg List.length h
    have hle := (List.rdropWhile_prefix (· == c) ([c].intercalate (s.splitOn c).dropLast)).length_le
    simp only [List.length_append, List.length_cons] at hlen
    omega

/-- A first occurrence that ends before `y` does not need `y`. -/
theorem splitOnceStr_of_append {pat x y a b : Text} (hpat : pat ≠ [])
    (h : splitOnceStr pat (x ++ y) = some (a, b ++ y)) : splitOnceStr pat x = some (a, b) := by
  induction x generalizing a with
  | nil =>
      have hlen := congrArg List.length (splitOnceStr_eq_some h)
      have hpos := List.length_pos_iff.mpr hpat
      simp only [List.nil_append, List.length_append] at hlen
      omega
  | cons c x ih =>
      have hx : c :: x = a ++ (pat ++ b) := List.append_cancel_right
        (by simpa using splitOnceStr_eq_some h : c :: x ++ y = a ++ (pat ++ b) ++ y)
      rw [List.cons_append, splitOnceStr] at h
      rw [splitOnceStr]
      cases a with
      | nil =>
          have hp : stripPrefix (c :: x) pat = some b := stripPrefix_eq_some.mpr hx
          rw [hp]
      | cons d a =>
          cases hp : stripPrefix (c :: (x ++ y)) pat with
          | some rest => simp [hp] at h
          | none =>
              have hp' : stripPrefix (c :: x) pat = none := by
                rw [stripPrefix_eq_none] at hp ⊢
                exact fun hpre => hp (hpre.trans ⟨y, rfl⟩)
              rw [hp] at h
              obtain ⟨⟨a', b'⟩, hxy, hpair⟩ := Option.map_eq_some_iff.mp h
              obtain ⟨⟨rfl, rfl⟩, rfl⟩ : (c = d ∧ a' = a) ∧ b' = b ++ y := by simpa using hpair
              rw [hp', ih hxy]
              rfl

theorem splitOnceStr_append_of_some {pat x a b : Text} (h : splitOnceStr pat x = some (a, b))
    (y : Text) : splitOnceStr pat (x ++ y) = some (a, b ++ y) := by
  induction x generalizing a with
  | nil => cases h
  | cons c x ih =>
      rw [List.cons_append, splitOnceStr]
      rw [splitOnceStr] at h
      cases hp : stripPrefix (c :: x) pat with
      | some rest =>
          rw [hp] at h
          obtain ⟨rfl, rfl⟩ : [] = a ∧ rest = b := by simpa using h
          have hp' : stripPrefix (c :: (x ++ y)) pat = some (rest ++ y) := by
            rw [stripPrefix_eq_some, ← List.append_assoc, ← stripPrefix_eq_some.mp hp,
              List.cons_append]
          rw [hp']
      | none =>
          rw [hp] at h
          obtain ⟨⟨a', b'⟩, hx, hab⟩ := Option.map_eq_some_iff.mp h
          obtain ⟨rfl, rfl⟩ : c :: a' = a ∧ b' = b := by simpa using hab
          have hlen : pat.length ≤ (c :: x).length := by
            rw [List.length_cons, splitOnceStr_eq_some hx]
            simp only [List.length_append]
            omega
          have hp' : stripPrefix (c :: (x ++ y)) pat = none := by
            rw [stripPrefix_eq_none] at hp ⊢
            exact fun hpre => hp (List.prefix_of_prefix_length_le hpre ⟨y, rfl⟩ hlen)
          rw [hp', ih hx]
          rfl

/-- When no occurrence of `pat` crosses from `v` into `w` or lies in `w`, the
first occurrence in `v ++ w` is the first one in `v`. -/
theorem splitOnceStr_append {pat v w : Text}
    (hcross : ∀ x, x ≠ [] → x <:+ v → pat <+: x ++ w → pat <+: x)
    (hw : splitOnceStr pat w = none) :
    splitOnceStr pat (v ++ w) = (splitOnceStr pat v).map fun (a, b) => (a, b ++ w) := by
  induction v with
  | nil => simp [splitOnceStr, hw]
  | cons x v ih =>
      have hrest := ih fun y hy hyv => hcross y hy (hyv.trans (List.suffix_cons x v))
      rw [List.cons_append, splitOnceStr, splitOnceStr, hrest]
      cases hp : stripPrefix (x :: v) pat with
      | some rest =>
          have hlong : stripPrefix (x :: (v ++ w)) pat = some (rest ++ w) := by
            rw [stripPrefix_eq_some, ← List.append_assoc, ← stripPrefix_eq_some.mp hp,
              List.cons_append]
          simp [hlong]
      | none =>
          have hlong : stripPrefix (x :: (v ++ w)) pat = none := by
            rw [stripPrefix_eq_none] at hp ⊢
            exact fun h => hp (hcross _ (by simp) List.suffix_rfl h)
          simp only [hlong, Option.map_map]
          rfl

/-- `pieces`, each preceded by the separator `c`: a path below some root. -/
def below (c : Char) (pieces : List Text) : Text := pieces.flatMap (c :: ·)

theorem splitOn_append_below {c : Char} (p : Text) {pieces : List Text}
    (hc : ∀ s ∈ pieces, c ∉ s) : (p ++ below c pieces).splitOn c = p.splitOn c ++ pieces := by
  induction pieces generalizing p with
  | nil => simp [below]
  | cons s pieces ih =>
      have hs : s.splitOn c = [s] := List.splitOn_eq_singleton (hc s (List.mem_cons_self ..))
      have hrest := ih s fun t ht => hc t (List.mem_cons_of_mem _ ht)
      calc (p ++ below c (s :: pieces)).splitOn c
          = (p ++ c :: (s ++ below c pieces)).splitOn c := by simp [below]
        _ = p.splitOn c ++ (s ++ below c pieces).splitOn c := List.splitOn_append_cons_self ..
        _ = p.splitOn c ++ (s :: pieces) := by rw [hrest, hs, List.singleton_append]

/-- What is written after a text belongs to its last piece. -/
theorem splitOn_append (c : Char) (s : Text) : ∃ base last, s.splitOn c = base ++ [last] ∧
    (last = [] → s = [] ∨ s.getLast? = some c) ∧
      ∀ w, (s ++ w).splitOn c = base ++ (last ++ w).splitOn c := by
  by_cases hc : c ∈ s
  · obtain ⟨b, a, hs, hb⟩ := List.eq_append_cons_of_mem (List.mem_reverse.mpr hc)
    obtain rfl : s = a.reverse ++ c :: b.reverse := by
      rw [← List.reverse_reverse s, hs, List.reverse_append, List.reverse_cons, List.append_assoc,
        List.singleton_append]
    refine ⟨a.reverse.splitOn c, b.reverse, ?_, fun h => Or.inr ?_, fun w => ?_⟩
    · have hlast : c ∉ b.reverse := by simpa using hb
      rw [List.splitOn_append_cons_self, List.splitOn_eq_singleton hlast]
    · rw [h, List.getLast?_concat]
    · rw [List.append_assoc, List.cons_append, List.splitOn_append_cons_self]
  · exact ⟨[], s, List.splitOn_eq_singleton hc, Or.inl, fun w => rfl⟩

theorem cons_join {c : Char} {pieces : List Text} (h : pieces ≠ []) :
    c :: join [c] pieces = below c pieces := by
  induction pieces with
  | nil => exact absurd rfl h
  | cons s pieces ih =>
      cases pieces with
      | nil => simp [join, below]
      | cons t pieces =>
          have := ih (by simp)
          simp only [join, List.intercalate_cons_cons, below, List.flatMap_cons] at this ⊢
          simp [this]

/-- The first `c` divides a text in one way. -/
theorem append_cons_inj_left {c : Char} {a b a' b' : Text} (ha : c ∉ a) (ha' : c ∉ a') :
    a ++ c :: b = a' ++ c :: b' ↔ a = a' ∧ b = b' := by
  constructor
  · intro h
    have hsplit : splitOnce c (a ++ c :: b) = some (a, b) := splitOnce_eq_some.mpr ⟨rfl, ha⟩
    rw [h, splitOnce_eq_some.mpr ⟨rfl, ha'⟩] at hsplit
    cases hsplit
    exact ⟨rfl, rfl⟩
  · rintro ⟨rfl, rfl⟩
    rfl

/-- A beginning up to and past the first `c` fixes what stands before it. -/
theorem prefix_cons_iff {c : Char} {a b a' b' : Text} (ha : c ∉ a) (ha' : c ∉ a') :
    a ++ c :: b <+: a' ++ c :: b' ↔ a' = a ∧ b <+: b' := by
  constructor
  · rintro ⟨rest, hrest⟩
    rw [List.append_assoc, List.cons_append, append_cons_inj_left ha ha'] at hrest
    exact ⟨hrest.1.symm, rest, hrest.2⟩
  · rintro ⟨rfl, rest, rfl⟩
    exact ⟨rest, by rw [List.append_assoc, List.cons_append]⟩

/-- The last `c` divides a text in one way. -/
theorem append_cons_inj_right {c : Char} {a b a' b' : Text} (hb : c ∉ b) (hb' : c ∉ b') :
    a ++ c :: b = a' ++ c :: b' ↔ a = a' ∧ b = b' := by
  rw [← List.reverse_inj, List.reverse_append, List.reverse_append, List.reverse_cons,
    List.reverse_cons, List.append_assoc, List.append_assoc, List.singleton_append,
    List.singleton_append, append_cons_inj_left (by simpa using hb) (by simpa using hb'),
    List.reverse_inj, List.reverse_inj, and_comm]

/-- What is written after a join belongs to its last piece. -/
theorem join_append_last {sep : Text} (pieces : List Text) (last rest : Text) :
    join sep (pieces ++ [last]) ++ rest = join sep (pieces ++ [last ++ rest]) := by
  induction pieces with
  | nil => simp [join]
  | cons piece pieces ih =>
      cases pieces with
      | nil => simp [join]
      | cons next pieces =>
          simp only [join, List.cons_append, List.intercalate_cons_cons] at ih ⊢
          rw [← ih, List.append_assoc, List.append_assoc]

end Text
