import Rustberg.Base.Text

/-!
# Network addresses

`std::net`: an address is its octets, most significant first, and
`FromStr` reads the four decimal octets of an IPv4 address or the
colon-separated groups of an IPv6 one. A reader answers what it read and
the rest of the text, or nothing, and then nothing is consumed. `bits`
spells out octets; two addresses share a network when they begin with
the same bits.
-/

namespace Net

structure Ipv4Addr where
  octets : Vector UInt8 4
  deriving DecidableEq

structure Ipv6Addr where
  octets : Vector UInt8 16
  deriving DecidableEq

inductive IpAddr where
  | v4 (addr : Ipv4Addr)
  | v6 (addr : Ipv6Addr)
  deriving DecidableEq

/-! ## Reading addresses -/

abbrev Reader (α : Type) := Text → Option (α × Text)

/-- `char::to_digit` -/
def toDigit (radix : Nat) (c : Char) : Option Nat :=
  let value :=
    if c.isDigit then c.toNat - '0'.toNat
    else if 'a' ≤ c ∧ c ≤ 'z' then c.toNat - 'a'.toNat + 10
    else if 'A' ≤ c ∧ c ≤ 'Z' then c.toNat - 'A'.toNat + 10
    else radix
  if value < radix then some value else none

/-- `read_number`: a number below `bound` in at most `maxDigits` digits. -/
def readNumber (radix maxDigits bound : Nat) (allowZeroPrefix : Bool) : Reader Nat := fun s =>
  let digits := s.takeWhile fun c => (toDigit radix c).isSome
  let value := digits.foldl (fun value c => value * radix + (toDigit radix c).getD 0) 0
  if digits = [] ∨ maxDigits < digits.length then none
  else if allowZeroPrefix = false ∧ s.head? = some '0' ∧ 1 < digits.length then none
  else if value < bound then some (value, s.drop digits.length)
  else none

def readGivenChar (c : Char) : Reader Unit
  | x :: s => if x = c then some ((), s) else none
  | [] => none

/-- `read_separator`: a separator stands before every element but the first. -/
def readSeparator {α : Type} (sep : Char) (index : Nat) (inner : Reader α) : Reader α := fun s =>
  if index = 0 then inner s
  else (readGivenChar sep s).bind fun (_, s) => inner s

def readIpv4Addr : Reader Ipv4Addr := fun s => do
  let octet := readNumber 10 3 256 false
  let (a, s) ← readSeparator '.' 0 octet s
  let (b, s) ← readSeparator '.' 1 octet s
  let (c, s) ← readSeparator '.' 2 octet s
  let (d, s) ← readSeparator '.' 3 octet s
  return (⟨#v[.ofNat a, .ofNat b, .ofNat c, .ofNat d]⟩, s)

/-- `read_groups`: the groups of sixteen bits at the front, `limit` at most, and
whether an embedded IPv4 address ended them. `remaining` of them are to come. -/
def readGroups (limit : Nat) : Nat → Text → List Nat × Bool × Text
  | 0, s => ([], false, s)
  | remaining + 1, s =>
      let index := limit - (remaining + 1)
      -- An embedded address takes the place of two groups.
      match if remaining = 0 then none else readSeparator ':' index readIpv4Addr s with
      | some (v4, s) =>
          let octets := v4.octets.toList.map UInt8.toNat
          ([octets.getD 0 0 * 256 + octets.getD 1 0, octets.getD 2 0 * 256 + octets.getD 3 0],
            true, s)
      | none =>
          match readSeparator ':' index (readNumber 16 4 65536 true) s with
          | some (group, s) =>
              let (groups, ipv4, s) := readGroups limit remaining s
              (group :: groups, ipv4, s)
          | none => ([], false, s)

/-- The address of eight groups. -/
def Ipv6Addr.ofGroups (groups : List Nat) : Ipv6Addr where
  octets := Vector.ofFn fun i =>
    let group := groups.getD (i.val / 2) 0
    .ofNat (if i.val % 2 = 0 then group / 256 else group % 256)

def readIpv6Addr : Reader Ipv6Addr := fun s => do
  let (front, ipv4, s) := readGroups 8 8 s
  if front.length = 8 then return (.ofGroups front, s)
  -- An embedded address is not allowed before `::`.
  if ipv4 then none
  let (_, s) ← readGivenChar ':' s
  let (_, s) ← readGivenChar ':' s
  let limit := 8 - (front.length + 1)
  let (back, _, s) := readGroups limit limit s
  return (.ofGroups (front ++ List.replicate (8 - front.length - back.length) 0 ++ back), s)

/-- `parse_with`: the reader must read all of the text. -/
def parseWith {α : Type} (inner : Reader α) (s : Text) : Option α :=
  match inner s with
  | some (value, []) => some value
  | _ => none

/-- `Ipv4Addr::from_str` -/
def Ipv4Addr.fromStr (s : Text) : Option Ipv4Addr :=
  if 15 < s.len then none else parseWith readIpv4Addr s

/-- `Ipv6Addr::from_str` -/
def Ipv6Addr.fromStr (s : Text) : Option Ipv6Addr := parseWith readIpv6Addr s

/-- `IpAddr::from_str` -/
def IpAddr.fromStr (s : Text) : Option IpAddr :=
  parseWith (fun s =>
    match readIpv4Addr s with
    | some (addr, s) => some (.v4 addr, s)
    | none => (readIpv6Addr s).map fun (addr, s) => (.v6 addr, s)) s

/-- `Ipv6Addr::to_ipv4_mapped`: the address in `::ffff:a.b.c.d`. -/
def Ipv6Addr.toIpv4Mapped (addr : Ipv6Addr) : Option Ipv4Addr :=
  if addr.octets.toList.take 12 = List.replicate 10 0 ++ [255, 255] then
    some ⟨#v[addr.octets[12], addr.octets[13], addr.octets[14], addr.octets[15]]⟩
  else none

/-! ## Networks -/

/-- The bits of an octet, the highest first. -/
def octetBits (octet : UInt8) : List Bool :=
  (List.range 8).map fun i => octet.toNat.testBit (7 - i)

def bits (octets : List UInt8) : List Bool := octets.flatMap octetBits

theorem take_octetBits (octet : UInt8) {n : Nat} (h : n ≤ 8) :
    (octetBits octet).take n = (List.range n).map fun i => octet.toNat.testBit (7 - i) := by
  rw [octetBits, ← List.map_take, List.take_range, Nat.min_eq_left h]

theorem testBit_octet {octet : UInt8} {i : Nat} (h : 8 ≤ i) : octet.toNat.testBit i = false :=
  Nat.testBit_lt_two_pow (lt_of_lt_of_le octet.toNat_lt (Nat.pow_le_pow_right (by decide) h))

theorem octetBits_inj {a b : UInt8} : octetBits a = octetBits b ↔ a = b := by
  refine ⟨fun h => UInt8.toNat_inj.mp (Nat.eq_of_testBit_eq fun i => ?_), congrArg octetBits⟩
  by_cases hi : i < 8
  · have hbits := List.map_inj_left.mp h (7 - i) (List.mem_range.mpr (by omega))
    rwa [Nat.sub_sub_self (by omega)] at hbits
  · rw [testBit_octet (by omega), testBit_octet (by omega)]

/-- The mask of the `n` high bits. -/
theorem testBit_mask : ∀ n, 0 < n → n < 8 → ∀ i, i < 8 →
    (0xFF <<< (8 - UInt8.ofNat n) : UInt8).toNat.testBit i = decide (8 - n ≤ i) := by
  have hmask : ∀ n, n < 8 → 0 < n → ∀ i, i < 8 →
      (0xFF <<< (8 - UInt8.ofNat n) : UInt8).toNat.testBit i = decide (8 - n ≤ i) := by decide
  exact fun n hpos h => hmask n h hpos

/-- Octets agree under the mask of the `n` high bits when these are the same. -/
theorem mask_eq_iff (a b : UInt8) {n : Nat} (hpos : 0 < n) (h : n < 8) :
    a &&& (0xFF <<< (8 - UInt8.ofNat n)) = b &&& (0xFF <<< (8 - UInt8.ofNat n)) ↔
      (octetBits a).take n = (octetBits b).take n := by
  rw [take_octetBits a h.le, take_octetBits b h.le, List.map_inj_left, ← UInt8.toNat_inj,
    UInt8.toNat_and, UInt8.toNat_and]
  constructor
  · intro heq i hi
    have hhigh : 8 - n ≤ 7 - i := by
      have := List.mem_range.mp hi
      omega
    have hbit := congrArg (Nat.testBit · (7 - i)) heq
    rw [Nat.testBit_and, Nat.testBit_and, testBit_mask n hpos h _ (by omega)] at hbit
    simpa only [hhigh, decide_true, Bool.and_true] using hbit
  · refine fun hbits => Nat.eq_of_testBit_eq fun i => ?_
    rw [Nat.testBit_and, Nat.testBit_and]
    by_cases hi : i < 8
    · by_cases hhigh : 8 - n ≤ i
      · have hbit := hbits (7 - i) (List.mem_range.mpr (by omega))
        rw [Nat.sub_sub_self (by omega)] at hbit
        rw [hbit]
      · rw [testBit_mask n hpos h i hi]
        simp only [hhigh, decide_false, Bool.and_false]
    · simp only [testBit_octet (Nat.not_lt.mp hi), Bool.and_false]

/-! ## Mapped addresses -/

theorem bits_append (left right : List UInt8) : bits (left ++ right) = bits left ++ bits right :=
  List.flatMap_append

theorem length_bits (octets : List UInt8) : (bits octets).length = 8 * octets.length := by
  induction octets with
  | nil => rfl
  | cons octet octets ih =>
      have hoctet : (octetBits octet).length = 8 := by simp [octetBits]
      rw [bits, List.flatMap_cons, List.length_append, hoctet, ← bits, ih, List.length_cons]
      omega

theorem bits_inj {left right : List UInt8} (hlen : left.length = right.length) :
    bits left = bits right ↔ left = right := by
  refine ⟨fun h => ?_, congrArg bits⟩
  induction left generalizing right with
  | nil => exact (List.length_eq_zero_iff.mp hlen.symm).symm
  | cons octet left ih =>
      cases right with
      | nil => cases hlen
      | cons octet' right =>
          rw [bits, List.flatMap_cons, bits, List.flatMap_cons] at h
          obtain ⟨hoctet, hrest⟩ := List.append_inj h (by simp [octetBits])
          rw [octetBits_inj.mp hoctet, ih (Nat.succ.inj hlen) hrest]

/-- The octets before the address in `::ffff:a.b.c.d`. -/
def mappedPrefix : List UInt8 := List.replicate 10 0 ++ [255, 255]

theorem length_mappedPrefix : (bits mappedPrefix).length = 96 := by
  simp [length_bits, mappedPrefix]

theorem take_mappedPrefix (rest : List Bool) (n : Nat) :
    (bits mappedPrefix ++ rest).take (96 + n) = bits mappedPrefix ++ rest.take n := by
  rw [List.take_append, length_mappedPrefix, Nat.add_sub_cancel_left,
    List.take_of_length_le (by rw [length_mappedPrefix]; omega)]

/-- An address as sixteen octets: an IPv4 address as the IPv6 address that carries it. -/
def IpAddr.mapped : IpAddr → List UInt8
  | .v4 addr => mappedPrefix ++ addr.octets.toList
  | .v6 addr => addr.octets.toList

theorem Ipv6Addr.toIpv4Mapped_eq_some {addr : Ipv6Addr} {v4 : Ipv4Addr}
    (h : addr.toIpv4Mapped = some v4) : addr.octets.toList = mappedPrefix ++ v4.octets.toList := by
  unfold toIpv4Mapped at h
  split at h
  · obtain rfl := Option.some.inj h
    rename_i htake
    rw [← List.take_append_drop 12 addr.octets.toList, htake]
    refine congrArg (mappedPrefix ++ ·) (List.ext_getElem (by simp) fun i hi _ => ?_)
    have : i < 4 := by simpa using hi
    interval_cases i <;> simp
  · cases h

theorem Ipv6Addr.toIpv4Mapped_eq_none {addr : Ipv6Addr} :
    addr.toIpv4Mapped = none ↔ addr.octets.toList.take 12 ≠ mappedPrefix := by
  simp [toIpv4Mapped, mappedPrefix]

end Net
