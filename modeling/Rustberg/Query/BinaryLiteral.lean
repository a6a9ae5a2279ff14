import Rustberg.Query.Predicate

/-!
# Binary literals of a filter

`from_hex` of `predicate.rs` slices a string two bytes at a time and reads each
slice with `u8::from_str_radix`. That admits a plus sign for the first digit,
and a slice that ends inside a character panics.

`fromHex_exact`: a literal is read as an even number of hexadecimal digits, or
refused, exactly where no sign is read and no character is cut.
-/

namespace Rustberg.Query

/-- The bytes an even number of hexadecimal digits stands for. -/
def bytesOfDigits : Text → Option (List UInt8)
  | [] => some []
  | high :: low :: rest => do
      let byte := UInt8.ofNat ((← hexDigit high) * 16 + (← hexDigit low))
      return byte :: (← bytesOfDigits rest)
  | [_] => none

/-- An even number of hexadecimal digits. -/
def Digits (text : Text) : Prop := text.length % 2 = 0 ∧ ∀ c ∈ text, (hexDigit c).isSome

/-- A literal is read as its bytes, or refused as no binary literal. -/
def ParsesHex (text : Text) : Prop :=
  (Digits text → ∃ bytes, bytesOfDigits text = some bytes ∧ fromHex text = .ok bytes) ∧
    (¬ Digits text → ∃ message, fromHex text = .error (invalid message))

/-- Pairs of characters, each read as a byte. -/
def Pairs : Text → Prop
  | [] => True
  | high :: low :: rest => (byteOfHex high low).isSome ∧ Pairs rest
  | [_] => False

/-- Every pair is read as a byte, one of them with a sign. -/
def SignedPair (text : Text) : Prop := Pairs text ∧ '+' ∈ text

/-- After pairs that are each read as a byte, the next slice ends inside a character. -/
def CutsCharacter : Text → Prop
  | [] => False
  | [c] => 3 ≤ c.utf8Size
  | c :: d :: rest => 3 ≤ c.utf8Size ∨ c.utf8Size = 1 ∧
      (2 ≤ d.utf8Size ∨ (byteOfHex c d).isSome ∧ CutsCharacter rest)

/-- What `hexBytes` fails with where a slice cuts a character. -/
def panicked : Error := ⟨.unexpected, "panicked at a char boundary".toList⟩

def notHex : Error := invalid "a binary literal is not hex".toList

/-! ## One pair -/

theorem hexDigit_eq_some {c : Char} {n : Nat} (h : hexDigit c = some n) :
    c.utf8Size = 1 ∧ c ≠ '+' := by
  have hle : c ≤ 'f' ∧ '0' ≤ c := by
    unfold hexDigit at h
    split at h
    · next hc => exact ⟨hc.2.trans (by decide), hc.1⟩
    split at h
    · next hc => exact ⟨hc.2, (show '0' ≤ 'a' by decide).trans hc.1⟩
    split at h
    · next hc => exact ⟨hc.2.trans (by decide), (show '0' ≤ 'A' by decide).trans hc.1⟩
    · cases h
  constructor
  · have hlast : 'f'.val ≤ 127 := by decide
    exact Char.utf8Size_eq_one_iff.mpr (UInt32.le_trans (show c.val ≤ 'f'.val from hle.1) hlast)
  · rintro rfl
    exact absurd hle.2 (by decide)

theorem byteOfHex_eq_some {high low : Char} {byte : UInt8} (h : byteOfHex high low = some byte) :
    high.utf8Size = 1 ∧ low.utf8Size = 1 ∧ low ≠ '+' := by
  unfold byteOfHex at h
  split at h
  · next hplus =>
      subst hplus
      obtain ⟨n, hlow, -⟩ := Option.map_eq_some_iff.mp h
      exact ⟨by decide, hexDigit_eq_some hlow⟩
  · obtain ⟨m, hhigh, h⟩ := Option.bind_eq_some_iff.mp h
    obtain ⟨n, hlow, -⟩ := Option.bind_eq_some_iff.mp h
    exact ⟨(hexDigit_eq_some hhigh).1, hexDigit_eq_some hlow⟩

theorem hexBytes_pair {high low : Char} {rest : Text} {byte : UInt8}
    (h : byteOfHex high low = some byte) :
    hexBytes (high :: low :: rest) = (byte :: ·) <$> hexBytes rest := by
  obtain ⟨hhigh, hlow, -⟩ := byteOfHex_eq_some h
  rw [hexBytes.eq_def]
  simp only [hhigh, hlow, h, if_pos, OfNat.one_ne_ofNat, if_false]
  cases hexBytes rest <;> rfl

theorem hexBytes_refused {c d : Char} {rest : Text} (h : byteOfHex c d = none) :
    hexBytes (c :: d :: rest) =
      .error (if c.utf8Size = 2 ∨ c.utf8Size = 1 ∧ d.utf8Size = 1 then notHex else panicked) := by
  rw [hexBytes.eq_def]
  dsimp only
  by_cases htwo : c.utf8Size = 2
  · rw [if_pos htwo, if_pos (Or.inl htwo)]
    rfl
  rw [if_neg htwo]
  by_cases hone : c.utf8Size = 1
  · simp only [hone, h]
    by_cases hd : d.utf8Size = 1
    · simp [hd, notHex]
    · simp [hd, panicked]
  · rw [if_neg (by simp [htwo, hone])]
    split
    · next hsize heq => exact absurd hsize hone
    · rfl

theorem hexBytes_single (c : Char) :
    hexBytes [c] = .error (if c.utf8Size = 2 then notHex else panicked) := by
  rw [hexBytes.eq_def]
  dsimp only
  by_cases htwo : c.utf8Size = 2
  · rw [if_pos htwo, if_pos htwo]
    rfl
  · rw [if_neg htwo, if_neg htwo]
    split
    · next heq => cases heq
    · rfl

/-! ## All of them -/

theorem hexBytes_pairs {text : Text} (h : Pairs text) : ∃ bytes, hexBytes text = .ok bytes := by
  induction text using bytesOfDigits.induct with
  | case1 => exact ⟨[], rfl⟩
  | case2 high low rest ih =>
      obtain ⟨byte, hbyte⟩ := Option.isSome_iff_exists.mp h.1
      obtain ⟨bytes, hbytes⟩ := ih h.2
      exact ⟨byte :: bytes, by rw [hexBytes_pair hbyte, hbytes]; rfl⟩
  | case3 c => exact h.elim

theorem pairs_of_hexBytes {text : Text} {bytes : List UInt8} (h : hexBytes text = .ok bytes) :
    Pairs text := by
  induction text using bytesOfDigits.induct generalizing bytes with
  | case1 => trivial
  | case2 high low rest ih =>
      cases hbyte : byteOfHex high low with
      | none =>
          rw [hexBytes_refused hbyte] at h
          cases h
      | some byte =>
          rw [hexBytes_pair hbyte] at h
          cases hrest : hexBytes rest with
          | error e =>
              rw [hrest] at h
              cases h
          | ok bytes' => exact ⟨Option.isSome_of_eq_some hbyte, ih hrest⟩
  | case3 c =>
      rw [hexBytes_single] at h
      cases h

theorem len_pairs {text : Text} (h : Pairs text) : text.len % 2 = 0 := by
  induction text using bytesOfDigits.induct with
  | case1 => rfl
  | case2 high low rest ih =>
      obtain ⟨byte, hbyte⟩ := Option.isSome_iff_exists.mp h.1
      obtain ⟨hhigh, hlow, -⟩ := byteOfHex_eq_some hbyte
      have hrest := ih h.2
      show (high.utf8Size + (low.utf8Size + Text.len rest)) % 2 = 0
      rw [hhigh, hlow]
      omega
  | case3 c => exact h.elim

/-- What is refused where no character is cut is no binary literal. -/
theorem hexBytes_error {text : Text} (heven : text.len % 2 = 0) {e : Error}
    (h : hexBytes text = .error e) :
    CutsCharacter text ∧ e = panicked ∨ ¬ CutsCharacter text ∧ e = notHex := by
  induction text using bytesOfDigits.induct with
  | case1 => cases h
  | case2 c d rest ih =>
      have hc := Char.utf8Size_pos c
      have hd := Char.utf8Size_pos d
      have hc' := Char.utf8Size_le_four c
      cases hbyte : byteOfHex c d with
      | some byte =>
          obtain ⟨hhigh, hlow, -⟩ := byteOfHex_eq_some hbyte
          rw [hexBytes_pair hbyte] at h
          have hrest : hexBytes rest = .error e := by
            cases hbytes : hexBytes rest with
            | error e' =>
                rw [hbytes] at h
                cases h
                rfl
            | ok bytes =>
                rw [hbytes] at h
                cases h
          have hlen : Text.len rest % 2 = 0 := by
            have hsum : (c.utf8Size + (d.utf8Size + Text.len rest)) % 2 = 0 := heven
            rw [hhigh, hlow] at hsum
            omega
          have hcut : CutsCharacter (c :: d :: rest) ↔ CutsCharacter rest := by
            simp [CutsCharacter, hhigh, hlow, hbyte]
          rw [hcut]
          exact ih hlen hrest
      | none =>
          rw [hexBytes_refused hbyte] at h
          cases h
          have hcut : CutsCharacter (c :: d :: rest) ↔
              ¬ (c.utf8Size = 2 ∨ c.utf8Size = 1 ∧ d.utf8Size = 1) := by
            simp only [CutsCharacter, hbyte, Option.isSome_none, Bool.false_eq_true,
              false_and, or_false]
            omega
          rw [hcut]
          split
          · next hrefused => exact Or.inr ⟨not_not.mpr hrefused, rfl⟩
          · next hcuts => exact Or.inl ⟨hcuts, rfl⟩
  | case3 c =>
      have hsum : (c.utf8Size + 0) % 2 = 0 := heven
      have hc := Char.utf8Size_pos c
      have hc' := Char.utf8Size_le_four c
      rw [hexBytes_single] at h
      cases h
      split
      · next htwo => exact Or.inr ⟨by rw [CutsCharacter]; omega, rfl⟩
      · next htwo => exact Or.inl ⟨by rw [CutsCharacter]; omega, rfl⟩

theorem bytesOfDigits_pair (high low : Char) (rest : Text) :
    bytesOfDigits (high :: low :: rest) =
      if high = '+' then none
      else (byteOfHex high low).bind fun byte => (bytesOfDigits rest).map (byte :: ·) := by
  rw [bytesOfDigits]
  split
  · next hplus =>
      subst hplus
      rfl
  · next hplus =>
      rw [byteOfHex, if_neg hplus]
      cases hexDigit high with
      | none => rfl
      | some m =>
          cases hexDigit low with
          | none => rfl
          | some n => cases bytesOfDigits rest <;> rfl

/-- Pairs without a sign are pairs of digits. -/
theorem bytesOfDigits_eq_some {text : Text} {bytes : List UInt8} :
    bytesOfDigits text = some bytes ↔ hexBytes text = .ok bytes ∧ '+' ∉ text := by
  induction text using bytesOfDigits.induct generalizing bytes with
  | case1 =>
      constructor
      · intro h
        cases h
        exact ⟨rfl, List.not_mem_nil⟩
      · rintro ⟨h, -⟩
        cases h
        rfl
  | case2 high low rest ih =>
      rw [bytesOfDigits_pair]
      split
      · next hplus =>
          subst hplus
          exact iff_of_false (fun h => by cases h) fun h => h.2 List.mem_cons_self
      · next hplus =>
          cases hbyte : byteOfHex high low with
          | none =>
              rw [hexBytes_refused hbyte]
              exact iff_of_false (fun h => by cases h) fun h => by cases h.1
          | some byte =>
              obtain ⟨-, -, hlow⟩ := byteOfHex_eq_some hbyte
              have hmem : '+' ∉ high :: low :: rest ↔ '+' ∉ rest := by
                simp [Ne.symm hplus, Ne.symm hlow]
              rw [hexBytes_pair hbyte, Option.bind_some, Option.map_eq_some_iff, hmem]
              constructor
              · rintro ⟨tail, htail, rfl⟩
                obtain ⟨hok, hnone⟩ := ih.mp htail
                exact ⟨by rw [hok]; rfl, hnone⟩
              · rintro ⟨hok, hnone⟩
                cases hrest : hexBytes rest with
                | error e =>
                    rw [hrest] at hok
                    cases hok
                | ok tail =>
                    rw [hrest] at hok
                    cases hok
                    exact ⟨tail, ih.mpr ⟨hrest, hnone⟩, rfl⟩
  | case3 c =>
      rw [hexBytes_single]
      exact iff_of_false (fun h => by cases h) fun h => by cases h.1

theorem fromHex_even {text : Text} (h : text.len % 2 = 0) : fromHex text = hexBytes text := by
  rw [fromHex, if_neg (not_not.mpr h)]

theorem bytesOfDigits_isSome {text : Text} : (bytesOfDigits text).isSome ↔ Digits text := by
  induction text using bytesOfDigits.induct with
  | case1 => exact iff_of_true rfl ⟨rfl, fun c hc => by cases hc⟩
  | case2 high low rest ih =>
      have hdigits : Digits (high :: low :: rest) ↔
          (hexDigit high).isSome ∧ (hexDigit low).isSome ∧ Digits rest := by
        have hlen : (high :: low :: rest).length % 2 = rest.length % 2 := Nat.add_mod_right _ 2
        rw [Digits, hlen, List.forall_mem_cons, List.forall_mem_cons, Digits]
        tauto
      rw [hdigits, ← ih, bytesOfDigits]
      cases hexDigit high with
      | none => simp
      | some m =>
          cases hexDigit low with
          | none => simp
          | some n => cases bytesOfDigits rest <;> simp
  | case3 c =>
      exact iff_of_false (fun h => by cases h) fun h => absurd (show 1 % 2 = 0 from h.1) (by decide)

theorem not_cutsCharacter {text : Text} (h : Pairs text) : ¬ CutsCharacter text := by
  induction text using bytesOfDigits.induct with
  | case1 => exact id
  | case2 high low rest ih =>
      obtain ⟨byte, hbyte⟩ := Option.isSome_iff_exists.mp h.1
      obtain ⟨hhigh, hlow, -⟩ := byteOfHex_eq_some hbyte
      rintro (hcut | ⟨-, hcut | ⟨-, hcut⟩⟩)
      · omega
      · omega
      · exact ih h.2 hcut
  | case3 c => exact h.elim

/-- What is refused is no digits and, where a slice cuts a character, panics. -/
theorem refused_iff {text : Text} (h : bytesOfDigits text = none) :
    (∃ message, fromHex text = .error (invalid message)) ↔
      ¬ SignedPair text ∧ (text.len % 2 = 0 → ¬ CutsCharacter text) := by
  by_cases heven : text.len % 2 = 0
  · rw [fromHex_even heven]
    cases hbytes : hexBytes text with
    | ok bytes =>
        refine iff_of_false (fun hrefused => ?_) fun hno => hno.1 ⟨pairs_of_hexBytes hbytes, ?_⟩
        · obtain ⟨message, herror⟩ := hrefused
          cases herror
        · by_contra hplus
          rw [bytesOfDigits_eq_some.mpr ⟨hbytes, hplus⟩] at h
          cases h
    | error e =>
        rcases hexBytes_error heven hbytes with ⟨hcut, rfl⟩ | ⟨hcut, rfl⟩
        · refine iff_of_false (fun hrefused => ?_) fun hno => hno.2 heven hcut
          obtain ⟨message, herror⟩ := hrefused
          cases herror
        · refine iff_of_true ⟨_, rfl⟩ ⟨fun hsigned => ?_, fun _ => hcut⟩
          obtain ⟨bytes, hok⟩ := hexBytes_pairs hsigned.1
          rw [hbytes] at hok
          cases hok
  · refine iff_of_true ⟨"a binary literal must have an even number of hex digits".toList, ?_⟩
      ⟨fun hsigned => heven (len_pairs hsigned.1), fun hlen => absurd hlen heven⟩
    rw [fromHex, if_pos heven]

/-- A literal is read as its bytes or refused, unless every pair of it is read
with a sign among them, or a slice of it cuts a character. -/
theorem fromHex_exact (text : Text) :
    ParsesHex text ↔ ¬ SignedPair text ∧ (text.len % 2 = 0 → ¬ CutsCharacter text) := by
  rw [ParsesHex, ← bytesOfDigits_isSome]
  cases h : bytesOfDigits text with
  | none =>
      rw [← refused_iff h]
      exact ⟨fun hparses => hparses.2 nofun, fun hrefused => ⟨nofun, fun _ => hrefused⟩⟩
  | some bytes =>
      obtain ⟨hok, hplus⟩ := bytesOfDigits_eq_some.mp h
      have hpairs := pairs_of_hexBytes hok
      refine iff_of_true ⟨fun _ => ⟨bytes, rfl, ?_⟩, fun hno => absurd rfl hno⟩
        ⟨fun hsigned => hplus hsigned.2, fun _ => not_cutsCharacter hpairs⟩
      rw [fromHex_even (len_pairs hpairs), hok]

/-- A slice inside a character, and a sign read as a digit. -/
theorem fromHex_cut_and_signed : ¬ ParsesHex "aéb".toList ∧ ¬ ParsesHex "+a".toList := by
  have hcut : fromHex "aéb".toList = .error panicked := by rfl
  have hsigned : fromHex "+a".toList = .ok [10] := by rfl
  constructor
  · rintro ⟨-, hrefused⟩
    obtain ⟨message, herror⟩ := hrefused fun hdigits => absurd hdigits.1 (by decide)
    rw [hcut] at herror
    cases herror
  · rintro ⟨-, hrefused⟩
    obtain ⟨message, herror⟩ :=
      hrefused fun hdigits => absurd (hdigits.2 '+' (by decide)) (by decide)
    rw [hsigned] at herror
    cases herror

end Rustberg.Query
