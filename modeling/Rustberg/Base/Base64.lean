import Mathlib

/-!
# Base64 and UTF-8

`Base64` is what a base64 engine promises: what it encodes it decodes.
`urlSafeNoPad` is the engine over the URL-safe alphabet without padding,
three bytes to four digits; a rest of one or two bytes becomes two or
three digits whose unused bits are zero. `Utf8` is the byte form of a
text.
-/

namespace Utf8

/-- `str::as_bytes`. -/
def bytes (s : List Char) : List UInt8 := (String.ofList s).toByteArray.data.toList

/-- `String::from_utf8`. -/
def text (bytes : List UInt8) : Option (List Char) :=
  (ByteArray.mk bytes.toArray).utf8Decode?.map Array.toList

@[simp] theorem text_bytes (s : List Char) : text (bytes s) = some s := by
  have hbytes : ByteArray.mk (bytes s).toArray = s.utf8Encode := by simp [bytes]
  rw [text, hbytes, List.utf8Decode?_utf8Encode]
  rfl

theorem bytes_injective : Function.Injective bytes := fun s t h => by
  have hread := congrArg text h
  rwa [text_bytes, text_bytes, Option.some_inj] at hread

theorem bytes_eq (s : List Char) : bytes s = s.flatMap String.utf8EncodeChar := by
  simp [bytes, List.utf8Encode]

/-- A byte of a character is the character itself, or past the ASCII range. -/
theorem mem_encodeChar {c : Char} {b : UInt8} (h : b ∈ String.utf8EncodeChar c) :
    b.toNat = c.toNat ∨ 128 ≤ b.toNat := by
  have hc : c.toNat = c.val.toNat := rfl
  rw [hc]
  unfold String.utf8EncodeChar at h
  simp only at h
  split at h
  · next hle =>
      left
      rw [List.mem_singleton.mp h, UInt8.toNat_ofNat']
      omega
  · right
    split at h
    · simp only [List.mem_cons, List.not_mem_nil, or_false] at h
      rcases h with rfl | rfl <;> rw [UInt8.toNat_ofNat'] <;> omega
    · split at h <;> simp only [List.mem_cons, List.not_mem_nil, or_false] at h
      · rcases h with rfl | rfl | rfl <;> rw [UInt8.toNat_ofNat'] <;> omega
      · rcases h with rfl | rfl | rfl | rfl <;> rw [UInt8.toNat_ofNat'] <;> omega

/-- An ASCII byte of a text is a character of it. -/
theorem mem_bytes {s : List Char} {b : UInt8} (h : b ∈ bytes s) (hascii : b.toNat < 128) :
    ∃ c ∈ s, c.toNat = b.toNat := by
  rw [bytes_eq] at h
  obtain ⟨c, hc, hb⟩ := List.mem_flatMap.mp h
  refine ⟨c, hc, ?_⟩
  rcases mem_encodeChar hb with heq | hpast
  · exact heq.symm
  · omega

theorem bytes_append (s t : List Char) : bytes (s ++ t) = bytes s ++ bytes t := by
  rw [bytes_eq, bytes_eq, bytes_eq, List.flatMap_append]

/-- What is read as text has the bytes it was read from. -/
theorem bytes_of_text {b : List UInt8} {s : List Char} (h : text b = some s) : bytes s = b := by
  rw [text, Option.map_eq_some_iff] at h
  obtain ⟨chars, hchars, rfl⟩ := h
  have hencode := ByteArray.utf8Encode_get_utf8Decode? (b := ⟨b.toArray⟩) (h := by rw [hchars]; rfl)
  simp only [hchars, Option.get_some] at hencode
  have hbytes : bytes chars.toList = chars.toList.utf8Encode.data.toList := by simp [bytes]
  rw [hbytes, hencode]

end Utf8

/-- An engine that reads back what it wrote. -/
structure Base64 where
  encode : List UInt8 → List Char
  decode : List Char → Option (List UInt8)
  decode_encode : ∀ bytes, decode (encode bytes) = some bytes

namespace Base64

/-- The URL-safe alphabet. -/
def digits : List Char :=
  "ABCDEFGHIJKLMNOPQRSTUVWXYZabcdefghijklmnopqrstuvwxyz0123456789-_".toList

def digit (n : Nat) : Char := digits.getD n 'A'

def value (c : Char) : Option Nat := digits.idxOf? c

/-- The groups of six bits of a string of bytes. -/
def sextets : List Nat → List Nat
  | a :: b :: c :: rest =>
      a / 4 :: (a % 4 * 16 + b / 16) :: (b % 16 * 4 + c / 64) :: c % 64 :: sextets rest
  | [a, b] => [a / 4, a % 4 * 16 + b / 16, b % 16 * 4]
  | [a] => [a / 4, a % 4 * 16]
  | [] => []

/-- The bytes of a string of groups of six bits, if it is that of some. -/
def octets : List Nat → Option (List Nat)
  | w :: x :: y :: z :: rest =>
      (octets rest).map fun bytes =>
        (w * 4 + x / 16) :: (x % 16 * 16 + y / 4) :: (y % 4 * 64 + z) :: bytes
  | [w, x, y] => if y % 4 = 0 then some [w * 4 + x / 16, x % 16 * 16 + y / 4] else none
  | [w, x] => if x % 16 = 0 then some [w * 4 + x / 16] else none
  | [_] => none
  | [] => some []

theorem value_digit {n : Nat} (hn : n < 64) : value (digit n) = some n := by
  have hall : ∀ n < 64, value (digit n) = some n := by
    have hdigits : digits = _ := String.toList_ofList
    unfold value digit
    rw [hdigits]
    decide
  exact hall n hn

theorem sextets_lt {bytes : List Nat} (hbytes : ∀ b ∈ bytes, b < 256) :
    ∀ n ∈ sextets bytes, n < 64 := by
  induction bytes using sextets.induct with
  | case1 a b c rest ih =>
      simp only [List.forall_mem_cons] at hbytes
      obtain ⟨ha, hb, hc, hrest⟩ := hbytes
      simp only [sextets, List.forall_mem_cons]
      exact ⟨by omega, by omega, by omega, by omega, ih hrest⟩
  | case2 a b =>
      simp only [List.forall_mem_cons] at hbytes
      obtain ⟨ha, hb, -⟩ := hbytes
      simp only [sextets, List.forall_mem_cons]
      exact ⟨by omega, by omega, by omega, by simp⟩
  | case3 a =>
      simp only [List.forall_mem_cons] at hbytes
      simp only [sextets, List.forall_mem_cons]
      exact ⟨by omega, by omega, by simp⟩
  | case4 => simp [sextets]

/-- The digits of some bytes give these bytes. -/
theorem octets_sextets {bytes : List Nat} (hbytes : ∀ b ∈ bytes, b < 256) :
    octets (sextets bytes) = some bytes := by
  induction bytes using sextets.induct with
  | case1 a b c rest ih =>
      simp only [List.forall_mem_cons] at hbytes
      obtain ⟨ha, hb, hc, hrest⟩ := hbytes
      have hfirst : a / 4 * 4 + (a % 4 * 16 + b / 16) / 16 = a := by omega
      have hsecond : (a % 4 * 16 + b / 16) % 16 * 16 + (b % 16 * 4 + c / 64) / 4 = b := by omega
      have hthird : (b % 16 * 4 + c / 64) % 4 * 64 + c % 64 = c := by omega
      rw [sextets, octets, ih hrest, Option.map_some, hfirst, hsecond, hthird]
  | case2 a b =>
      simp only [List.forall_mem_cons] at hbytes
      obtain ⟨ha, hb, -⟩ := hbytes
      have hfirst : a / 4 * 4 + (a % 4 * 16 + b / 16) / 16 = a := by omega
      have hsecond : (a % 4 * 16 + b / 16) % 16 * 16 + b % 16 * 4 / 4 = b := by omega
      have hunused : b % 16 * 4 % 4 = 0 := by omega
      rw [sextets, octets, if_pos hunused, hfirst, hsecond]
  | case3 a =>
      simp only [List.forall_mem_cons] at hbytes
      have hfirst : a / 4 * 4 + a % 4 * 16 / 16 = a := by omega
      have hunused : a % 4 * 16 % 16 = 0 := by omega
      rw [sextets, octets, if_pos hunused, hfirst]
  | case4 => rfl

theorem mapM_value_digit {ns : List Nat} (hns : ∀ n ∈ ns, n < 64) :
    (ns.map digit).mapM value = some ns := by
  induction ns with
  | nil => rfl
  | cons n ns ih =>
      obtain ⟨hn, hns⟩ := List.forall_mem_cons.mp hns
      simp [value_digit hn, ih hns]

/-- `general_purpose::URL_SAFE_NO_PAD`. -/
def urlSafeNoPad : Base64 where
  encode bytes := (sextets (bytes.map UInt8.toNat)).map digit
  decode s := ((s.mapM value).bind octets).map (List.map UInt8.ofNat)
  decode_encode bytes := by
    have hbytes : ∀ b ∈ bytes.map UInt8.toNat, b < 256 := by
      intro b hb
      obtain ⟨byte, -, rfl⟩ := List.mem_map.mp hb
      exact byte.toNat_lt
    have hback : UInt8.ofNat ∘ UInt8.toNat = id := funext fun _ => UInt8.ofNat_toNat
    simp [mapM_value_digit (sextets_lt hbytes), octets_sextets hbytes, hback]

example : urlSafeNoPad.encode (Utf8.bytes "ns\u001Ftable".toList) = "bnMfdGFibGU".toList := by
  decide

end Base64
