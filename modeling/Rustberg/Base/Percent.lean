import Rustberg.Base.Base64

/-!
# Percent escapes

`decode` is a strict reader of percent escapes over bytes, which takes the two
bytes after `%` the way `u8::from_str_radix` reads a number, a plus sign
included. `read` is the lenient one of the URL standard: two hexadecimal
digits after `%` are an escape, and every other byte stands for itself. What
`decode` accepts is what `read` makes of it where no escape carries a sign, and
shorter where one does (`decode_spec`).
-/

namespace Percent

/-- `%` -/
def percent : UInt8 := 37

/-- `+` -/
def plus : UInt8 := 43

def hexDigit (b : UInt8) : Option UInt8 :=
  if 48 ≤ b ∧ b ≤ 57 then some (b - 48)
  else if 65 ≤ b ∧ b ≤ 70 then some (b - 55)
  else if 97 ≤ b ∧ b ≤ 102 then some (b - 87)
  else none

/-- Two hexadecimal digits. -/
def escaped (h l : UInt8) : Option UInt8 :=
  match hexDigit h, hexDigit l with
  | some h, some l => some (16 * h + l)
  | _, _ => none

/-- `u8::from_str_radix(_, 16)` of two bytes. -/
def fromStrRadix (h l : UInt8) : Option UInt8 := if h = plus then hexDigit l else escaped h l

/-- Every `%` must begin an escape. -/
def decode : List UInt8 → Option (List UInt8)
  | [] => some []
  | b :: rest =>
    if b = percent then
      match rest with
      | h :: l :: rest =>
          match fromStrRadix h l with
          | some value => (decode rest).map (value :: ·)
          | none => none
      | _ => none
    else (decode rest).map (b :: ·)

/-- What is not an escape stands for itself. -/
def read : List UInt8 → List UInt8
  | [] => []
  | b :: rest =>
    if b = percent then
      match rest with
      | h :: l :: rest =>
          match escaped h l with
          | some value => value :: read rest
          | none => b :: read (h :: l :: rest)
      | rest => b :: rest
    else b :: read rest

/-! ## One step -/

@[simp] theorem hexDigit_percent : hexDigit percent = none := by decide

@[simp] theorem hexDigit_plus : hexDigit plus = none := by decide

theorem ne_percent_of_hexDigit {b v : UInt8} (h : hexDigit b = some v) : b ≠ percent := by
  rintro rfl
  cases h

theorem escaped_eq_none_left {h l : UInt8} (hh : hexDigit h = none) : escaped h l = none := by
  rw [escaped, hh]

theorem escaped_eq_none_right {h l : UInt8} (hl : hexDigit l = none) : escaped h l = none := by
  rw [escaped, hl]
  split
  · rename_i heq
    cases heq
  · rfl

theorem decode_cons {b : UInt8} (hb : b ≠ percent) (rest : List UInt8) :
    decode (b :: rest) = (decode rest).map (b :: ·) := by
  rw [decode.eq_def]
  exact if_neg hb

theorem decode_percent (h l : UInt8) (rest : List UInt8) :
    decode (percent :: h :: l :: rest) =
      match fromStrRadix h l with
      | some value => (decode rest).map (value :: ·)
      | none => none := by
  rw [decode.eq_def]
  exact if_pos rfl

theorem read_cons {b : UInt8} (hb : b ≠ percent) (rest : List UInt8) :
    read (b :: rest) = b :: read rest := by
  rw [read.eq_def]
  exact if_neg hb

theorem read_percent (h l : UInt8) (rest : List UInt8) :
    read (percent :: h :: l :: rest) =
      match escaped h l with
      | some value => value :: read rest
      | none => percent :: read (h :: l :: rest) := by
  rw [read.eq_def]
  exact if_pos rfl

theorem read_percent_short {rest : List UInt8} (h : rest.length < 2) :
    read (percent :: rest) = percent :: rest := by
  rw [read.eq_def]
  match rest, h with
  | [], _ => rfl
  | [_], _ => rfl

@[simp] theorem read_singleton (b : UInt8) : read [b] = [b] := by
  by_cases hb : b = percent
  · rw [hb, read_percent_short (by decide)]
  · rw [read_cons hb]
    rfl

/-! ## The lenient reader, piece by piece -/

/-- A byte before what is no digit begins no escape. -/
theorem read_cons_of_head {b : UInt8} {ys : List UInt8} (h : ∀ y ∈ ys.head?, hexDigit y = none) :
    read (b :: ys) = b :: read ys := by
  by_cases hb : b = percent
  · subst hb
    match ys with
    | [] => rfl
    | [y] => rw [read_percent_short (by simp), read_singleton]
    | y :: z :: ys => rw [read_percent, escaped_eq_none_left (h y rfl)]
  · exact read_cons hb ys

/-- No escape reaches past a byte that is no digit. -/
theorem read_append {xs ys : List UInt8} (h : ∀ y ∈ ys.head?, hexDigit y = none) :
    read (xs ++ ys) = read xs ++ read ys := by
  induction xs using read.induct with
  | case1 => rfl
  | case2 h' l rest value hvalue ih =>
      change read (percent :: h' :: l :: (rest ++ ys)) = _
      rw [read_percent, read_percent, hvalue]
      exact congrArg (value :: ·) ih
  | case3 h' l rest hnone ih =>
      change read (percent :: h' :: l :: (rest ++ ys)) = _
      rw [read_percent, read_percent, hnone]
      exact congrArg (percent :: ·) ih
  | case4 rest hshort =>
      match rest, hshort with
      | [], _ => exact read_cons_of_head h
      | [x], _ =>
          change read (percent :: x :: ys) = percent :: x :: read ys
          rw [← read_cons_of_head (b := x) h]
          cases ys with
          | nil => rw [read_percent_short (by simp), read_singleton]
          | cons y ys => rw [read_percent, escaped_eq_none_right (h y rfl)]
      | x :: y :: rest, hshort => exact absurd rfl (hshort x y rest)
  | case5 b rest hb ih =>
      change read (b :: (rest ++ ys)) = _
      rw [read_cons hb, read_cons hb, ih]
      rfl

/-! ## What the strict reader accepts -/

theorem infix_cons {a b c : UInt8} {rest : List UInt8} (h : a ≠ c) :
    [c, b] <:+: a :: rest ↔ [c, b] <:+: rest := by
  rw [List.infix_cons_iff]
  refine or_iff_right fun hprefix => ?_
  exact h (List.cons_prefix_cons.mp hprefix).1.symm

theorem infix_percent {h : UInt8} {rest : List UInt8} (hplus : h ≠ plus) :
    [percent, plus] <:+: percent :: h :: rest ↔ [percent, plus] <:+: h :: rest := by
  rw [List.infix_cons_iff]
  refine or_iff_right fun hprefix => ?_
  exact hplus (List.cons_prefix_cons.mp (List.cons_prefix_cons.mp hprefix).2).1.symm

/-- What is accepted is read leniently to the same bytes where no escape has a
sign, and to more where one has. -/
theorem decode_spec {bytes out : List UInt8} (h : decode bytes = some out) :
    (¬ [percent, plus] <:+: bytes → out = read bytes) ∧
      ([percent, plus] <:+: bytes → out.length < (read bytes).length) := by
  induction bytes using decode.induct generalizing out with
  | case1 =>
      cases h
      exact ⟨fun _ => rfl, fun hinfix => by simp at hinfix⟩
  | case2 h' l rest value hvalue ih =>
      rw [decode_percent, hvalue, Option.map_eq_some_iff] at h
      obtain ⟨tail, htail, rfl⟩ := h
      obtain ⟨hsame, hless⟩ := ih htail
      rw [fromStrRadix] at hvalue
      split at hvalue
      · next hplus =>
          -- `%+` and a digit: three bytes leniently, one strictly
          subst hplus
          have hl := ne_percent_of_hexDigit hvalue
          have hread : read (percent :: plus :: l :: rest) = percent :: plus :: l :: read rest := by
            rw [read_percent, escaped_eq_none_left hexDigit_plus]
            change percent :: read (plus :: l :: rest) = _
            rw [read_cons (by decide), read_cons hl]
          have hle : tail.length ≤ (read rest).length := by
            by_cases hinfix : [percent, plus] <:+: rest
            · exact (hless hinfix).le
            · rw [hsame hinfix]
          rw [hread]
          refine ⟨fun hno => absurd ?_ hno, fun _ => by simp only [List.length_cons]; omega⟩
          exact (List.prefix_append [percent, plus] (l :: rest)).isInfix
      · next hplus =>
          rw [read_percent, hvalue]
          obtain ⟨hh, hl⟩ : h' ≠ percent ∧ l ≠ percent := by
            constructor
            · rintro rfl
              rw [escaped_eq_none_left hexDigit_percent] at hvalue
              cases hvalue
            · rintro rfl
              rw [escaped_eq_none_right hexDigit_percent] at hvalue
              cases hvalue
          rw [infix_percent hplus, infix_cons hh, infix_cons hl]
          exact ⟨fun hno => congrArg (value :: ·) (hsame hno),
            fun hinfix => Nat.succ_lt_succ (hless hinfix)⟩
  | case3 h' l rest hnone =>
      rw [decode_percent, hnone] at h
      cases h
  | case4 rest hshort =>
      match rest, hshort with
      | [], _ => cases h
      | [x], _ => cases h
      | x :: y :: rest, hshort => exact absurd rfl (hshort x y rest)
  | case5 b rest hb ih =>
      rw [decode_cons hb, Option.map_eq_some_iff] at h
      obtain ⟨tail, htail, rfl⟩ := h
      obtain ⟨hsame, hless⟩ := ih htail
      rw [read_cons hb, infix_cons hb]
      exact ⟨fun hno => congrArg (b :: ·) (hsame hno),
        fun hinfix => Nat.succ_lt_succ (hless hinfix)⟩

/-! ## Which texts the strict reader accepts -/

/-- Every `%` is followed by two hexadecimal digits. -/
def WellFormed (bytes : List UInt8) : Prop :=
  ∀ before after, bytes = before ++ percent :: after →
    ∃ h l rest, after = h :: l :: rest ∧ (escaped h l).isSome

theorem wellFormed_nil : WellFormed [] := by
  intro before after h
  cases before <;> cases h

theorem wellFormed_cons {b : UInt8} (hb : b ≠ percent) {rest : List UInt8} :
    WellFormed (b :: rest) ↔ WellFormed rest := by
  constructor
  · intro h before after heq
    exact h (b :: before) after (by rw [heq]; rfl)
  · intro h before after heq
    cases before with
    | nil => exact absurd (List.cons.inj heq).1 hb
    | cons b' before => exact h before after (List.cons.inj heq).2

theorem escaped_isSome {h l : UInt8} (hsome : (escaped h l).isSome) :
    h ≠ percent ∧ l ≠ percent := by
  constructor
  · rintro rfl
    rw [escaped_eq_none_left hexDigit_percent] at hsome
    cases hsome
  · rintro rfl
    rw [escaped_eq_none_right hexDigit_percent] at hsome
    cases hsome

theorem wellFormed_percent {h l : UInt8} {rest : List UInt8} :
    WellFormed (percent :: h :: l :: rest) ↔ (escaped h l).isSome ∧ WellFormed rest := by
  have hskip : (escaped h l).isSome → (WellFormed (h :: l :: rest) ↔ WellFormed rest) := by
    intro hsome
    obtain ⟨hh, hl⟩ := escaped_isSome hsome
    rw [wellFormed_cons hh, wellFormed_cons hl]
  constructor
  · intro hwell
    obtain ⟨h', l', rest', heq, hsome⟩ := hwell [] _ rfl
    cases heq
    refine ⟨hsome, (hskip hsome).mp fun before after heq => ?_⟩
    exact hwell (percent :: before) after (by rw [heq]; rfl)
  · rintro ⟨hsome, hrest⟩ before after heq
    cases before with
    | nil =>
        cases heq
        exact ⟨h, l, rest, rfl, hsome⟩
    | cons b before => exact (hskip hsome).mpr hrest before after (List.cons.inj heq).2

theorem not_wellFormed_short {rest : List UInt8} (h : rest.length < 2) :
    ¬ WellFormed (percent :: rest) := by
  intro hwell
  obtain ⟨h', l', rest', rfl, -⟩ := hwell [] rest rfl
  simp at h

/-- The digit 0 in place of a plus sign after `%`, which is how it is read. -/
def unsigned : List UInt8 → List UInt8
  | b :: c :: rest =>
    if b = percent ∧ c = plus then percent :: 48 :: unsigned rest else b :: unsigned (c :: rest)
  | rest => rest

theorem unsigned_plus (rest : List UInt8) :
    unsigned (percent :: plus :: rest) = percent :: 48 :: unsigned rest := by
  rw [unsigned, if_pos ⟨rfl, rfl⟩]

theorem unsigned_cons {b : UInt8} (hb : b ≠ percent) (rest : List UInt8) :
    unsigned (b :: rest) = b :: unsigned rest := by
  cases rest with
  | nil => rfl
  | cons c rest => rw [unsigned, if_neg fun h => hb h.1]

theorem unsigned_percent {h : UInt8} (hh : h ≠ plus) (rest : List UInt8) :
    unsigned (percent :: h :: rest) = percent :: unsigned (h :: rest) := by
  rw [unsigned, if_neg fun heq => hh heq.2]

/-- The first byte stays. -/
theorem unsigned_head (b : UInt8) (rest : List UInt8) :
    ∃ rest', unsigned (b :: rest) = b :: rest' := by
  cases rest with
  | nil => exact ⟨[], rfl⟩
  | cons c rest =>
      rw [unsigned]
      split
      · next h => exact ⟨_, by rw [h.1]⟩
      · exact ⟨_, rfl⟩

theorem escaped_zero (l : UInt8) : escaped 48 l = hexDigit l := by
  rw [escaped, show hexDigit 48 = some 0 from rfl]
  cases hexDigit l with
  | none => rfl
  | some v =>
      show some (16 * 0 + v) = some v
      rw [UInt8.mul_zero, UInt8.zero_add]

/-- What is accepted, and what it is read to. -/
theorem decode_eq_some {bytes out : List UInt8} :
    decode bytes = some out ↔ WellFormed (unsigned bytes) ∧ out = read (unsigned bytes) := by
  induction bytes using decode.induct generalizing out with
  | case1 =>
      rw [show unsigned [] = [] from rfl]
      exact ⟨fun h => ⟨wellFormed_nil, (Option.some.inj h).symm⟩, fun h => h.2 ▸ rfl⟩
  | case2 h l rest value hvalue ih =>
      obtain ⟨h', hunsigned, hescaped⟩ : ∃ h', unsigned (percent :: h :: l :: rest) =
          percent :: h' :: l :: unsigned rest ∧ escaped h' l = some value := by
        rw [fromStrRadix] at hvalue
        split at hvalue
        · next hplus =>
            subst hplus
            rw [unsigned_plus, unsigned_cons (ne_percent_of_hexDigit hvalue)]
            exact ⟨48, rfl, (escaped_zero l).trans hvalue⟩
        · next hplus =>
            obtain ⟨hh, hl⟩ := escaped_isSome (Option.isSome_of_eq_some hvalue)
            rw [unsigned_percent hplus, unsigned_cons hh, unsigned_cons hl]
            exact ⟨h, rfl, hvalue⟩
      rw [decode_percent, hvalue, hunsigned, wellFormed_percent, read_percent, hescaped,
        Option.map_eq_some_iff]
      constructor
      · rintro ⟨tail, htail, rfl⟩
        obtain ⟨hwell, rfl⟩ := ih.mp htail
        exact ⟨⟨rfl, hwell⟩, rfl⟩
      · rintro ⟨⟨-, hwell⟩, rfl⟩
        exact ⟨_, ih.mpr ⟨hwell, rfl⟩, rfl⟩
  | case3 h l rest hnone =>
      rw [decode_percent, hnone]
      refine iff_of_false (fun h => by cases h) fun ⟨hwell, _⟩ => ?_
      rw [fromStrRadix] at hnone
      split at hnone
      · next hplus =>
          subst hplus
          obtain ⟨rest', hrest⟩ := unsigned_head l rest
          rw [unsigned_plus, hrest, wellFormed_percent, escaped_zero, hnone] at hwell
          cases hwell.1
      · next hplus =>
          rw [unsigned_percent hplus] at hwell
          by_cases hh : h = percent
          · subst hh
            obtain ⟨h', l', rest', heq, hsome⟩ := hwell [] _ rfl
            obtain ⟨rest'', hrest⟩ := unsigned_head percent (l :: rest)
            rw [hrest] at heq
            cases heq
            exact (escaped_isSome hsome).1 rfl
          · obtain ⟨rest', hrest⟩ := unsigned_head l rest
            rw [unsigned_cons hh, hrest, wellFormed_percent, hnone] at hwell
            cases hwell.1
  | case4 rest hshort =>
      refine iff_of_false (fun h => ?_) fun ⟨hwell, _⟩ => ?_
      · match rest, hshort with
        | [], _ => cases h
        | [x], _ => cases h
        | x :: y :: rest, hshort => exact absurd rfl (hshort x y rest)
      · match rest, hshort with
        | [], _ => exact not_wellFormed_short (by decide) hwell
        | [x], _ =>
            by_cases hx : x = plus
            · subst hx
              exact not_wellFormed_short (by decide) hwell
            · rw [unsigned_percent hx, show unsigned [x] = [x] from rfl] at hwell
              exact not_wellFormed_short (show [x].length < 2 from Nat.lt_succ_self 1) hwell
        | x :: y :: rest, hshort => exact absurd rfl (hshort x y rest)
  | case5 b rest hb ih =>
      rw [decode_cons hb, unsigned_cons hb, wellFormed_cons hb, read_cons hb,
        Option.map_eq_some_iff]
      constructor
      · rintro ⟨tail, htail, rfl⟩
        obtain ⟨hwell, rfl⟩ := ih.mp htail
        exact ⟨hwell, rfl⟩
      · rintro ⟨hwell, rfl⟩
        exact ⟨_, ih.mpr ⟨hwell, rfl⟩, rfl⟩

/-- Where no escape has a sign there is nothing to replace. -/
theorem unsigned_eq_self {bytes : List UInt8} (h : ¬ [percent, plus] <:+: bytes) :
    unsigned bytes = bytes := by
  induction bytes with
  | nil => rfl
  | cons b bytes ih =>
      have hrest : ¬ [percent, plus] <:+: bytes := fun hinfix => h (List.infix_cons hinfix)
      by_cases hb : b = percent
      · subst hb
        cases bytes with
        | nil => rfl
        | cons c bytes =>
            rw [unsigned_percent, ih hrest]
            rintro rfl
            exact h (List.prefix_append [percent, plus] bytes).isInfix
      · rw [unsigned_cons hb, ih hrest]

/-- A sign is no hexadecimal digit. -/
theorem not_wellFormed_of_signed {bytes : List UInt8} (h : [percent, plus] <:+: bytes) :
    ¬ WellFormed bytes := by
  intro hwell
  obtain ⟨before, after, rfl⟩ := h
  obtain ⟨h, l, rest, heq, hsome⟩ := hwell before (plus :: after) (by simp)
  cases heq
  rw [escaped_eq_none_left hexDigit_plus] at hsome
  cases hsome

end Percent
