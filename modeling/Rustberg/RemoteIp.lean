import Rustberg.Base.Net
import Rustberg.Error

/-!
# Which address a request came from

`remote_ip.rs`: the forwarding chain is the entries of the
`X-Forwarded-For` lines with the peer at the end, and the caller is the
first hop from the right that is not a trusted proxy. An entry that does
not read stays in the chain, as a hop that is no trusted proxy. What is
left of the hop the walk stops at has no part in the answer
(`resolve_unforgeable`). A range takes an IPv4 address in either of its
spellings only where it is written as an IPv4 one
(`contains_written_iff`).
-/

namespace Rustberg

open Net

/-! ## Ranges -/

def isIpv4 : IpAddr → Bool
  | .v4 _ => true
  | .v6 _ => false

def octets : IpAddr → List UInt8
  | .v4 addr => addr.octets.toList
  | .v6 addr => addr.octets.toList

/-- The bits of an address of the network's kind. -/
def width (network : IpAddr) : Nat := if isIpv4 network then 32 else 128

/-- An address range, in `addr/prefix` form. -/
structure Cidr where
  network : IpAddr
  prefixLen : Nat
  inWidth : prefixLen ≤ width network

namespace Cidr

def parse (value : Text) : Except AppError Cidr :=
  let value := value.trim
  let (addr, prefixLen) := match Text.splitOnce '/' value with
    | some (addr, prefixLen) => (addr, some prefixLen)
    | none => (value, none)
  match IpAddr.fromStr addr with
  | none => .error (.internal (['\''] ++ value ++
      ("' is not a trusted-proxy range: expected an address, optionally followed by '/' and a " ++
        "prefix length (for example '10.0.0.0/8').").toList))
  | some network =>
      match prefixLen with
      | none => .ok ⟨network, width network, Nat.le_refl _⟩
      | some text =>
          let refused : AppError := .internal (['\''] ++ value ++
            ("' is not a trusted-proxy range: the prefix length must be a number between " ++
              "0 and ").toList ++ Text.decimal (width network) ++ ['.'])
          match Text.parseUnsigned 8 text.trim with
          | none => .error refused
          | some n => if h : n ≤ width network then .ok ⟨network, n, h⟩ else .error refused

end Cidr

/-- Unwraps an IPv4-mapped IPv6 address to the IPv4 address it carries. -/
def normalize : IpAddr → IpAddr
  | .v6 v6 =>
      match v6.toIpv4Mapped with
      | some v4 => .v4 v4
      | none => .v6 v6
  | .v4 v4 => .v4 v4

def matchesPrefix (network candidate : List UInt8) (prefixLen : Nat) : Bool :=
  let whole := prefixLen / 8
  if network.take whole ≠ candidate.take whole then false
  else
    let remainder := prefixLen % 8
    if remainder = 0 then true
    else
      let mask : UInt8 := 0xFF <<< (8 - UInt8.ofNat remainder)
      network.getD whole 0 &&& mask == candidate.getD whole 0 &&& mask

def Cidr.contains (range : Cidr) (candidate : IpAddr) : Bool :=
  match range.network, normalize candidate with
  | .v4 network, .v4 candidate =>
      matchesPrefix network.octets.toList candidate.octets.toList range.prefixLen
  | .v6 network, .v6 candidate =>
      matchesPrefix network.octets.toList candidate.octets.toList range.prefixLen
  | _, _ => false

/-! ## The caller -/

/-- Reads one forwarding-chain entry. -/
def parseForwardedEntry (entry : Text) : Option IpAddr :=
  match IpAddr.fromStr entry with
  | some address => some (normalize address)
  | none =>
      match (Text.stripPrefix entry ['[']).bind (Text.splitOnce ']') with
      | some (inner, _) => (Ipv6Addr.fromStr inner).map fun address => normalize (.v6 address)
      | none =>
          -- Only with exactly one colon, so a bare IPv6 address is not taken for one.
          if entry.count ':' = 1 then
            (Text.splitOnce ':' entry).bind fun (address, _) =>
              (Ipv4Addr.fromStr address).map .v4
          else none

/-- `slice::rposition` -/
def rposition {α : Type} (p : α → Bool) (xs : List α) : Option Nat :=
  (xs.reverse.findIdx? p).map (xs.length - 1 - ·)

/-- How a deployment decides which address a request came from. -/
structure RemoteIp where
  trusted : List Cidr

namespace RemoteIp

def direct : RemoteIp := ⟨[]⟩

def behind (ranges : List Text) : Except AppError RemoteIp := do
  let trusted ← ranges.mapM Cidr.parse
  return ⟨trusted⟩

def isTrusted (r : RemoteIp) (address : IpAddr) : Bool :=
  r.trusted.any fun range => range.contains address

/-- The entries of the `X-Forwarded-For` lines. -/
def entries (forwarded : List Text) : List Text :=
  forwarded.flatMap fun value => value.splitOn ','

def resolve (r : RemoteIp) (peer : Option IpAddr) (forwarded : List Text)
    (realIp : Option Text) : Option IpAddr :=
  if r.trusted = [] then peer
  else
    match peer with
    | none => none
    | some peer =>
        let chain := (entries forwarded).map fun entry => parseForwardedEntry entry.trim
        let claimed :=
          if chain = [] ∧ r.isTrusted peer then
            realIp.bind fun value => parseForwardedEntry value.trim
          else none
        match claimed with
        -- One hop, one header, no chain to walk.
        | some claimed => some claimed
        | none =>
            let chain := chain ++ [some peer]
            match rposition (fun address => !address.any r.isTrusted) chain with
            -- Every hop is a trusted proxy, the peer too.
            | none => chain.head?.join
            | some index => chain[index]?.join

end RemoteIp

/-! ## What a range covers -/

/-- The address is of the range's kind and begins with the range's bits. -/
def Cidr.Covers (range : Cidr) (candidate : IpAddr) : Prop :=
  isIpv4 range.network = isIpv4 (normalize candidate) ∧
    (bits (octets range.network)).take range.prefixLen =
      (bits (octets (normalize candidate))).take range.prefixLen

theorem matchesPrefix_zero (network candidate : List UInt8) :
    matchesPrefix network candidate 0 = true := by
  simp [matchesPrefix]

theorem matchesPrefix_octet {a b : UInt8} {network candidate : List UInt8} {n : Nat}
    (hpos : 0 < n) (h : n < 8) :
    matchesPrefix (a :: network) (b :: candidate) n = true ↔
      (octetBits a).take n = (octetBits b).take n := by
  rw [← mask_eq_iff a b hpos h]
  simp [matchesPrefix, Nat.div_eq_of_lt h, Nat.mod_eq_of_lt h, hpos.ne']

theorem matchesPrefix_cons {a b : UInt8} {network candidate : List UInt8} {n : Nat} :
    matchesPrefix (a :: network) (b :: candidate) (n + 8) =
      (a == b && matchesPrefix network candidate n) := by
  have hwhole : (n + 8) / 8 = n / 8 + 1 := Nat.add_div_right n (by decide)
  have hrest : (n + 8) % 8 = n % 8 := Nat.add_mod_right n 8
  simp only [matchesPrefix, hwhole, hrest, List.take_succ_cons, List.getD_cons_succ]
  by_cases hab : a = b
  · simp [hab]
  · simp [hab]

/-- The comparison by octets and a mask compares the first `n` bits. -/
theorem matchesPrefix_iff {network candidate : List UInt8} {n : Nat}
    (hlen : network.length = candidate.length) (hn : n ≤ 8 * network.length) :
    matchesPrefix network candidate n = true ↔
      (bits network).take n = (bits candidate).take n := by
  induction network generalizing candidate n with
  | nil =>
      obtain rfl : candidate = [] := List.length_eq_zero_iff.mp hlen.symm
      obtain rfl : n = 0 := by simpa using hn
      simp [matchesPrefix_zero]
  | cons a network ih =>
      cases candidate with
      | nil => cases hlen
      | cons b candidate =>
          have hbits : ∀ (c : UInt8) (cs : List UInt8), bits (c :: cs) = octetBits c ++ bits cs :=
            fun _ _ => List.flatMap_cons
          have hoctet : ∀ c : UInt8, (octetBits c).length = 8 := fun _ => rfl
          rw [hbits, hbits]
          by_cases hlow : n < 8
          · rw [List.take_append_of_le_length (by rw [hoctet]; omega),
              List.take_append_of_le_length (by rw [hoctet]; omega)]
            rcases Nat.eq_zero_or_pos n with rfl | hpos
            · simp [matchesPrefix_zero]
            · exact matchesPrefix_octet hpos hlow
          · obtain ⟨m, rfl⟩ := Nat.exists_eq_add_of_le' (Nat.not_lt.mp hlow)
            have htake : ∀ (c : UInt8) (cs : List Bool),
                (octetBits c ++ cs).take (m + 8) = octetBits c ++ cs.take m := fun c cs => by
              rw [List.take_append, hoctet, Nat.add_sub_cancel,
                List.take_of_length_le (by rw [hoctet]; omega)]
            rw [matchesPrefix_cons, htake, htake, Bool.and_eq_true, beq_iff_eq,
              ih (by simpa using hlen) (by simp only [List.length_cons] at hn; omega)]
            constructor
            · rintro ⟨rfl, hrest⟩
              rw [hrest]
            · intro h
              obtain ⟨ha, hrest⟩ := List.append_inj h (by rw [hoctet, hoctet])
              exact ⟨octetBits_inj.mp ha, hrest⟩

theorem Cidr.contains_iff {range : Cidr} {candidate : IpAddr} :
    range.contains candidate = true ↔ range.Covers candidate := by
  obtain ⟨network, n, hn⟩ := range
  unfold contains Covers
  generalize normalize candidate = candidate
  cases network with
  | v4 network =>
      cases candidate with
      | v4 candidate =>
          have hbits : n ≤ 8 * network.octets.toList.length := by simpa [width, isIpv4] using hn
          simpa [isIpv4, octets] using matchesPrefix_iff (by simp) hbits
      | v6 candidate => simp [isIpv4]
  | v6 network =>
      cases candidate with
      | v4 candidate => simp [isIpv4]
      | v6 candidate =>
          have hbits : n ≤ 8 * network.octets.toList.length := by simpa [width, isIpv4] using hn
          simpa [isIpv4, octets] using matchesPrefix_iff (by simp) hbits

/-! ## The two spellings of an IPv4 address -/

theorem mapped_normalize (address : IpAddr) : (normalize address).mapped = address.mapped := by
  cases address with
  | v4 v4 => rfl
  | v6 v6 =>
      cases hmapped : v6.toIpv4Mapped with
      | none => simp only [normalize, hmapped]
      | some v4 =>
          simp only [normalize, hmapped]
          exact (Ipv6Addr.toIpv4Mapped_eq_some hmapped).symm

theorem normalize_eq_v6 {address : IpAddr} {v6 : Ipv6Addr} (h : normalize address = .v6 v6) :
    address = .v6 v6 ∧ v6.toIpv4Mapped = none := by
  cases address with
  | v4 v4 => cases h
  | v6 addr =>
      cases hmapped : addr.toIpv4Mapped with
      | some v4 => simp [normalize, hmapped] at h
      | none =>
          simp only [normalize, hmapped, IpAddr.v6.injEq] at h
          subst h
          exact ⟨rfl, hmapped⟩

/-- What stays an IPv6 address carries no IPv4 address. -/
theorem take_of_normalize {address : IpAddr} {v6 : Ipv6Addr} (h : normalize address = .v6 v6) :
    (bits v6.octets.toList).take 96 ≠ bits mappedPrefix := by
  intro htake
  refine Ipv6Addr.toIpv4Mapped_eq_none.mp (normalize_eq_v6 h).2 ?_
  have hlen : (bits (v6.octets.toList.take 12)).length = 96 := by simp [length_bits]
  have hsplit : bits v6.octets.toList =
      bits (v6.octets.toList.take 12) ++ bits (v6.octets.toList.drop 12) := by
    rw [← bits_append, List.take_append_drop]
  rw [← bits_inj (by simp [mappedPrefix]), ← htake, hsplit,
    List.take_append_of_le_length hlen.ge, List.take_of_length_le hlen.le]

namespace Cidr

/-- The address and the prefix length that a text spells. -/
def Spells (range : Cidr) (value : Text) : Prop :=
  match Text.splitOnce '/' value.trim with
  | some (addr, text) =>
      IpAddr.fromStr addr = some range.network ∧
        Text.parseUnsigned 8 text.trim = some range.prefixLen
  | none => IpAddr.fromStr value.trim = some range.network ∧ range.prefixLen = width range.network

/-- The address and the network begin with the same bits, an IPv4 address
taken for the IPv6 address that carries it. -/
def Agrees (range : Cidr) (candidate : IpAddr) : Prop :=
  let len := if isIpv4 range.network then 96 + range.prefixLen else range.prefixLen
  (bits range.network.mapped).take len = (bits candidate.mapped).take len

/-- An IPv6 range with a place for IPv4 addresses. -/
def MeetsMapped (range : Cidr) : Prop :=
  isIpv4 range.network = false ∧
    (bits (octets range.network)).take (min range.prefixLen 96) =
      (bits mappedPrefix).take (min range.prefixLen 96)

theorem spells_of_parse {value : Text} {range : Cidr} (h : parse value = .ok range) :
    range.Spells value := by
  rw [parse] at h
  unfold Spells
  cases hsplit : Text.splitOnce '/' value.trim with
  | none =>
      rw [hsplit] at h
      dsimp only at h ⊢
      cases haddr : IpAddr.fromStr value.trim with
      | none =>
          rw [haddr] at h
          cases h
      | some network =>
          rw [haddr] at h
          cases h
          exact ⟨rfl, rfl⟩
  | some parts =>
      obtain ⟨addr, text⟩ := parts
      rw [hsplit] at h
      dsimp only at h ⊢
      cases haddr : IpAddr.fromStr addr with
      | none =>
          rw [haddr] at h
          cases h
      | some network =>
          rw [haddr] at h
          dsimp only at h
          cases hnumber : Text.parseUnsigned 8 text.trim with
          | none =>
              rw [hnumber] at h
              cases h
          | some n =>
              rw [hnumber] at h
              dsimp only at h
              split at h
              · cases h
                exact ⟨rfl, rfl⟩
              · cases h

theorem agrees_v4 {range : Cidr} {network : Ipv4Addr} {candidate : IpAddr}
    (h : range.network = .v4 network) :
    range.Agrees candidate ↔
      bits mappedPrefix ++ (bits network.octets.toList).take range.prefixLen =
        (bits candidate.mapped).take (96 + range.prefixLen) := by
  rw [Agrees, h]
  simp only [isIpv4, if_true, IpAddr.mapped, bits_append]
  rw [take_mappedPrefix]

theorem agrees_v6 {range : Cidr} {network : Ipv6Addr} {candidate : IpAddr}
    (h : range.network = .v6 network) :
    range.Agrees candidate ↔
      (bits network.octets.toList).take range.prefixLen =
        (bits candidate.mapped).take range.prefixLen := by
  rw [Agrees, h]
  rfl

/-- Candidates are compared as they should be, IPv4 ones in an IPv6 range apart. -/
theorem contains_agrees {range : Cidr} {candidate : IpAddr}
    (h : isIpv4 range.network = true ∨ isIpv4 (normalize candidate) = false) :
    range.contains candidate = true ↔ range.Agrees candidate := by
  rw [contains_iff, Covers]
  cases hnetwork : range.network with
  | v4 network =>
      rw [agrees_v4 hnetwork, ← mapped_normalize candidate]
      cases hcandidate : normalize candidate with
      | v4 candidate =>
          simp only [isIpv4, octets, IpAddr.mapped, bits_append, true_and]
          rw [take_mappedPrefix, List.append_cancel_left_eq]
      | v6 candidate =>
          simp only [isIpv4, IpAddr.mapped, Bool.true_eq_false, false_and, false_iff]
          intro htake
          refine take_of_normalize hcandidate ?_
          have hfirst := congrArg (List.take 96) htake
          rw [List.take_take, Nat.min_eq_left (Nat.le_add_right ..),
            List.take_append_of_le_length length_mappedPrefix.ge,
            List.take_of_length_le length_mappedPrefix.le] at hfirst
          exact hfirst.symm
  | v6 network =>
      rw [agrees_v6 hnetwork, ← mapped_normalize candidate]
      cases hcandidate : normalize candidate with
      | v4 candidate => simp [hnetwork, hcandidate, isIpv4] at h
      | v6 candidate => simp [isIpv4, octets, IpAddr.mapped]

theorem contains_v4 {range : Cidr} {candidate : IpAddr} (hnetwork : isIpv4 range.network = false)
    (hcandidate : isIpv4 (normalize candidate) = true) : range.contains candidate = false := by
  rw [Bool.eq_false_iff]
  intro h
  have hkind := (contains_iff.mp h).1
  rw [hnetwork, hcandidate] at hkind
  cases hkind

theorem contains_network (range : Cidr) :
    range.contains range.network = true ↔ normalize range.network = range.network := by
  rw [contains_iff, Covers]
  refine ⟨fun h => ?_, fun h => by rw [h]; exact ⟨rfl, rfl⟩⟩
  cases hnetwork : range.network with
  | v4 network => rfl
  | v6 network =>
      rw [hnetwork] at h
      cases hnorm : normalize (.v6 network) with
      | v4 v4 => simp [hnorm, isIpv4] at h
      | v6 v6 => exact (normalize_eq_v6 hnorm).1.symm

/-- A range with a place for IPv4 addresses agrees with one of them, and no other does. -/
theorem meetsMapped_iff {range : Cidr} (hnetwork : isIpv4 range.network = false) :
    range.MeetsMapped ↔
      ∃ candidate, isIpv4 (normalize candidate) = true ∧ range.Agrees candidate := by
  obtain ⟨network, hrange⟩ : ∃ network, range.network = .v6 network := by
    cases hrange : range.network with
    | v4 network =>
        rw [hrange] at hnetwork
        cases hnetwork
    | v6 network => exact ⟨network, rfl⟩
  rw [MeetsMapped, and_iff_right hnetwork, hrange]
  constructor
  · intro htake
    by_cases hn : range.prefixLen ≤ 96
    · refine ⟨.v4 ⟨Vector.replicate 4 0⟩, rfl, (agrees_v6 hrange).mpr ?_⟩
      rw [Nat.min_eq_left hn] at htake
      rw [IpAddr.mapped, bits_append,
        List.take_append_of_le_length (hn.trans length_mappedPrefix.ge)]
      exact htake
    · -- The network itself carries an IPv4 address.
      refine ⟨.v6 network, ?_, (agrees_v6 hrange).mpr rfl⟩
      cases hnorm : normalize (.v6 network) with
      | v4 _ => rfl
      | v6 v6 =>
          refine absurd ?_ (take_of_normalize hnorm)
          obtain ⟨hv6, -⟩ := normalize_eq_v6 hnorm
          cases hv6
          rw [Nat.min_eq_right (by omega)] at htake
          exact htake.trans (List.take_of_length_le length_mappedPrefix.le)
  · rintro ⟨candidate, hcandidate, h⟩
    rw [agrees_v6 hrange, ← mapped_normalize candidate] at h
    cases hnorm : normalize candidate with
    | v6 candidate =>
        rw [hnorm] at hcandidate
        cases hcandidate
    | v4 candidate =>
        rw [hnorm, IpAddr.mapped, bits_append] at h
        have hfirst := congrArg (List.take (min range.prefixLen 96)) h
        rwa [List.take_take, List.take_take, Nat.min_eq_left (Nat.min_le_left ..),
          List.take_append_of_le_length
            ((Nat.min_le_right ..).trans length_mappedPrefix.ge)] at hfirst

end Cidr

/-- A range covers what it names exactly when no IPv4 address has a place in
it as an IPv6 range, and its own address when that carries no IPv4 address. -/
theorem contains_written_iff (value : Text) (range : Cidr) (h : Cidr.parse value = .ok range) :
    range.Spells value ∧
    ((∀ candidate, range.contains candidate = true ↔ range.Agrees candidate) ∧
        range.contains range.network = true ↔ ¬ range.MeetsMapped) ∧
    (range.contains range.network = true ↔ normalize range.network = range.network) := by
  refine ⟨Cidr.spells_of_parse h, ⟨fun hlaw hmeets => ?_, fun hmeets => ?_⟩, range.contains_network⟩
  · obtain ⟨candidate, hcandidate, hagrees⟩ := (Cidr.meetsMapped_iff hmeets.1).mp hmeets
    have hnot := Cidr.contains_v4 hmeets.1 hcandidate
    rw [(hlaw.1 candidate).mpr hagrees] at hnot
    cases hnot
  · have hlaw : ∀ candidate, range.contains candidate = true ↔ range.Agrees candidate := by
      intro candidate
      cases hnetwork : isIpv4 range.network with
      | true => exact Cidr.contains_agrees (.inl hnetwork)
      | false =>
          cases hcandidate : isIpv4 (normalize candidate) with
          | false => exact Cidr.contains_agrees (.inr hcandidate)
          | true =>
              rw [Cidr.contains_v4 hnetwork hcandidate]
              refine iff_of_false Bool.false_ne_true fun hagrees => hmeets ?_
              exact (Cidr.meetsMapped_iff hnetwork).mpr ⟨candidate, hcandidate, hagrees⟩
    exact ⟨hlaw, (hlaw range.network).mpr rfl⟩

theorem contains_written_host :
    ∃ range, Cidr.parse "10.1.0.0/16".toList = .ok range ∧
      range.contains range.network = true := by
  refine ⟨⟨.v4 ⟨#v[10, 1, 0, 0]⟩, 16, by decide⟩, by rfl, ?_⟩
  refine ((contains_written_iff "10.1.0.0/16".toList _ (by rfl)).2.1.mpr ?_).2
  exact fun hmeets => Bool.noConfusion hmeets.1

/-- A range in the mapped spelling matches nothing, not even its own address. -/
theorem contains_mapped_range :
    ∃ range, Cidr.parse "::ffff:10.0.0.0/104".toList = .ok range ∧
      range.Agrees range.network ∧ range.contains range.network = false := by
  refine ⟨⟨.v6 ⟨#v[0, 0, 0, 0, 0, 0, 0, 0, 0, 0, 255, 255, 10, 0, 0, 0]⟩, 104, by decide⟩,
    by rfl, rfl, by rfl⟩

/-! ## The chain -/

theorem rposition_eq_none {α : Type} {p : α → Bool} {xs : List α} :
    rposition p xs = none ↔ ∀ x ∈ xs, p x = false := by
  simp [rposition, List.findIdx?_eq_none_iff]

theorem rposition_append {α : Type} {p : α → Bool} {left right : List α} {x : α} (hx : p x = true)
    (hright : ∀ y ∈ right, p y = false) :
    rposition p (left ++ x :: right) = some left.length := by
  have hnone : right.reverse.findIdx? p = none :=
    List.findIdx?_eq_none_iff.mpr fun y hy => hright y (List.mem_reverse.mp hy)
  have hfind : (left ++ x :: right).reverse.findIdx? p = some right.length := by
    simp [List.findIdx?_append, hnone, List.findIdx?_cons, hx]
  rw [rposition, hfind, Option.map_some, List.length_append, List.length_cons]
  exact congrArg some (by omega)

/-- There is a last element that satisfies `P`. -/
theorem exists_last {α : Type} {P : α → Prop} {xs : List α} (h : ∃ x ∈ xs, P x) :
    ∃ left x right, xs = left ++ x :: right ∧ P x ∧ ∀ y ∈ right, ¬ P y := by
  induction xs with
  | nil =>
      obtain ⟨x, hx, -⟩ := h
      cases hx
  | cons first xs ih =>
      by_cases hrest : ∃ x ∈ xs, P x
      · obtain ⟨left, x, right, rfl, hx, hright⟩ := ih hrest
        exact ⟨first :: left, x, right, rfl, hx, hright⟩
      · obtain ⟨x, hx, hP⟩ := h
        rcases List.mem_cons.mp hx with rfl | hx
        · exact ⟨[], x, xs, rfl, hP, fun y hy hPy => hrest ⟨y, hy, hPy⟩⟩
        · exact absurd ⟨x, hx, hP⟩ hrest

namespace RemoteIp

variable (r : RemoteIp)

/-- A hop that is infrastructure: it reads, and a range covers it. -/
def Proxy (hop : Option IpAddr) : Prop :=
  ∃ address, hop = some address ∧ ∃ range ∈ r.trusted, range.Covers address

/-- The chain of the given entries, with the peer at its end. -/
def hops (kept : List Text) (peer : IpAddr) : List (Option IpAddr) :=
  (kept.map fun entry => parseForwardedEntry entry.trim) ++ [some peer]

theorem isTrusted_iff {address : IpAddr} :
    r.isTrusted address = true ↔ ∃ range ∈ r.trusted, range.Covers address := by
  simp only [isTrusted, List.any_eq_true, Cidr.contains_iff]

theorem any_isTrusted_iff {hop : Option IpAddr} : hop.any r.isTrusted = true ↔ r.Proxy hop := by
  cases hop with
  | none => simp [Proxy]
  | some address => simp [Proxy, isTrusted_iff]

/-- The walk from the right, once no claim is taken. -/
theorem resolve_walk {peer : IpAddr} {forwarded : List Text} {realIp : Option Text}
    (htrusted : r.trusted ≠ []) (hclaim : entries forwarded ≠ [] ∨ ¬ r.Proxy (some peer)) :
    r.resolve (some peer) forwarded realIp =
      match rposition (fun address => !address.any r.isTrusted) (hops (entries forwarded) peer) with
      | none => (hops (entries forwarded) peer).head?.join
      | some index => (hops (entries forwarded) peer)[index]?.join := by
  have hnone : ¬ ((entries forwarded).map (fun entry => parseForwardedEntry entry.trim) = [] ∧
      r.isTrusted peer = true) := by
    rintro ⟨hnil, htrust⟩
    rcases hclaim with hne | hout
    · exact hne (List.map_eq_nil_iff.mp hnil)
    · exact hout (r.any_isTrusted_iff.mp htrust)
  rw [resolve, if_neg htrusted]
  simp only [if_neg hnone]
  rfl

/-- Without trusted ranges only the peer counts. -/
theorem resolve_direct {peer : Option IpAddr} {forwarded : List Text} {realIp : Option Text}
    (htrusted : r.trusted = []) : r.resolve peer forwarded realIp = peer :=
  if_pos htrusted

/-- The caller is the last hop that is no proxy, whatever stands before it. -/
theorem resolve_eq {peer : IpAddr} {forwarded : List Text} {realIp : Option Text}
    {left right : List (Option IpAddr)} {hop : Option IpAddr}
    (hhops : hops (entries forwarded) peer = left ++ hop :: right) (hhop : ¬ r.Proxy hop)
    (hright : ∀ later ∈ right, r.Proxy later) : r.resolve (some peer) forwarded realIp = hop := by
  by_cases htrusted : r.trusted = []
  · rw [r.resolve_direct htrusted]
    have hnil : right = [] := List.eq_nil_iff_forall_not_mem.mpr fun later hlater => by
      obtain ⟨-, -, range, hrange, -⟩ := hright later hlater
      rw [htrusted] at hrange
      cases hrange
    subst hnil
    obtain ⟨-, hpeer⟩ := List.append_inj' hhops rfl
    exact List.singleton_inj.mp hpeer
  · have hclaim : entries forwarded ≠ [] ∨ ¬ r.Proxy (some peer) := by
      refine or_iff_not_imp_left.mpr fun hnil => ?_
      rw [not_not.mp hnil] at hhops
      obtain ⟨-, hrest⟩ | ⟨-, hrest⟩ := List.singleton_eq_append_iff.mp hhops
      · obtain ⟨rfl, -⟩ := List.cons.inj hrest
        exact hhop
      · cases hrest
    have hlast : (!hop.any r.isTrusted) = true := by
      rw [Bool.not_eq_true', Bool.eq_false_iff]
      exact mt r.any_isTrusted_iff.mp hhop
    have hposition : rposition (fun address => !address.any r.isTrusted) (left ++ hop :: right) =
        some left.length :=
      rposition_append hlast fun later hlater => by
        rw [Bool.not_eq_false', r.any_isTrusted_iff]
        exact hright later hlater
    rw [r.resolve_walk htrusted hclaim, hhops, hposition]
    simp

/-! ## Header lines -/

theorem entries_append (texts kept : List Text) :
    entries (texts ++ kept) = entries texts ++ entries kept :=
  List.flatMap_append

/-- Lines of one entry each are these entries. -/
theorem entries_of_entry {kept : List Text} (h : ∀ entry ∈ kept, ',' ∉ entry) :
    entries kept = kept := by
  induction kept with
  | nil => rfl
  | cons entry kept ih =>
      have hone : entry.splitOn ',' = [entry] :=
        List.splitOn_eq_singleton (h entry (List.mem_cons_self ..))
      rw [entries, List.flatMap_cons, hone]
      exact congrArg (entry :: ·) (ih fun later hlater => h later (List.mem_cons_of_mem _ hlater))

theorem comma_notMem_entry {forwarded : List Text} {entry : Text} (h : entry ∈ entries forwarded) :
    ',' ∉ entry := by
  obtain ⟨value, -, hentry⟩ := List.mem_flatMap.mp h
  exact Text.notMem_of_mem_splitOn hentry

/-- Header lines are one list, however it is cut at its commas. -/
theorem entries_join {forwarded : List Text} (h : forwarded ≠ []) :
    entries forwarded = (Text.join [','] forwarded).splitOn ',' := by
  induction forwarded with
  | nil => exact absurd rfl h
  | cons value forwarded ih =>
      cases forwarded with
      | nil => simp [entries, Text.join]
      | cons next forwarded =>
          have hjoin : Text.join [','] (value :: next :: forwarded) =
              value ++ ',' :: Text.join [','] (next :: forwarded) := by
            simp [Text.join, List.intercalate_cons_cons]
          rw [hjoin, List.splitOn_append_cons_self, ← ih (by simp)]
          rfl

theorem entries_ne_nil {forwarded : List Text} (h : forwarded ≠ []) : entries forwarded ≠ [] := by
  rw [entries_join h]
  exact List.splitOn_ne_nil ',' _

theorem hops_append (gone kept : List Text) (peer : IpAddr) :
    hops (gone ++ kept) peer =
      (gone.map fun entry => parseForwardedEntry entry.trim) ++ hops kept peer := by
  rw [hops, hops, List.map_append, List.append_assoc]

/-- The lines count only through their entries. -/
theorem resolve_congr {peer : Option IpAddr} {forwarded forwarded' : List Text}
    {realIp : Option Text} (h : entries forwarded' = entries forwarded) :
    r.resolve peer forwarded' realIp = r.resolve peer forwarded realIp := by
  simp only [resolve, h]

/-- From a hop on, the chain is made of the entries from that hop on. -/
theorem hops_split {forwarded : List Text} {peer : IpAddr} {left right : List (Option IpAddr)}
    {hop : Option IpAddr} (h : hops (entries forwarded) peer = left ++ hop :: right) :
    ∃ gone kept, entries forwarded = gone ++ kept ∧ hops kept peer = hop :: right := by
  refine ⟨(entries forwarded).take left.length, (entries forwarded).drop left.length,
    (List.take_append_drop ..).symm, ?_⟩
  have hlen : left.length ≤ (entries forwarded).length := by
    have := congrArg List.length h
    simp only [hops, List.length_append, List.length_map, List.length_cons, List.length_nil] at this
    omega
  have hall := hops_append ((entries forwarded).take left.length)
    ((entries forwarded).drop left.length) peer
  rw [List.take_append_drop, h] at hall
  exact (List.append_inj hall (by simp [hlen])).2.symm

end RemoteIp

/-- The caller is the last hop of the chain that is no proxy: nothing before
it, no cut of the header lines and no claim beside them changes the answer. -/
theorem resolve_unforgeable (r : RemoteIp) (peer : IpAddr) (forwarded : List Text)
    (realIp : Option Text) :
    ((∃ hop ∈ RemoteIp.hops (RemoteIp.entries forwarded) peer, ¬ r.Proxy hop) →
      ∃ gone kept hop right, RemoteIp.entries forwarded = gone ++ kept ∧
        RemoteIp.hops kept peer = hop :: right ∧ ¬ r.Proxy hop ∧ (∀ later ∈ right, r.Proxy later) ∧
        r.resolve (some peer) forwarded realIp = hop ∧
        ∀ (texts : List Text) (realIp' : Option Text),
          r.resolve (some peer) (texts ++ kept) realIp' = hop) ∧
    (∀ forwarded' : List Text, forwarded' ≠ [] → forwarded ≠ [] →
      Text.join [','] forwarded' = Text.join [','] forwarded →
        r.resolve (some peer) forwarded' realIp = r.resolve (some peer) forwarded realIp) ∧
    (∀ realIp' : Option Text, forwarded ≠ [] ∨ ¬ r.Proxy (some peer) →
      r.resolve (some peer) forwarded realIp' = r.resolve (some peer) forwarded realIp) ∧
    r.resolve none forwarded realIp = none := by
  refine ⟨fun hexists => ?_, fun forwarded' hne' hne hjoin => ?_, fun realIp' hclaim => ?_, ?_⟩
  · obtain ⟨left, hop, right, hhops, hhop, hlater⟩ := exists_last hexists
    have hright : ∀ later ∈ right, r.Proxy later := fun later h => not_not.mp (hlater later h)
    obtain ⟨gone, kept, hentries, hkept⟩ := RemoteIp.hops_split hhops
    refine ⟨gone, kept, hop, right, hentries, hkept, hhop, hright, r.resolve_eq hhops hhop hright,
      fun texts realIp' => ?_⟩
    have hlines : RemoteIp.entries kept = kept := RemoteIp.entries_of_entry fun entry hentry =>
      RemoteIp.comma_notMem_entry (hentries ▸ List.mem_append_right gone hentry)
    have hnew : RemoteIp.hops (RemoteIp.entries (texts ++ kept)) peer =
        ((RemoteIp.entries texts).map fun entry => parseForwardedEntry entry.trim) ++
          hop :: right := by
      rw [RemoteIp.entries_append, hlines, RemoteIp.hops_append, hkept]
    exact r.resolve_eq hnew hhop hright
  · refine r.resolve_congr ?_
    rw [RemoteIp.entries_join hne', RemoteIp.entries_join hne, hjoin]
  · by_cases htrusted : r.trusted = []
    · rw [r.resolve_direct htrusted, r.resolve_direct htrusted]
    · have hclaim' := hclaim.imp_left RemoteIp.entries_ne_nil
      rw [r.resolve_walk htrusted hclaim', r.resolve_walk htrusted hclaim']
  · cases hempty : r.trusted with
    | nil => exact r.resolve_direct hempty
    | cons range ranges => simp [RemoteIp.resolve, hempty]

/-- What a client wrote before its own address is not believed. -/
example : ((RemoteIp.behind ["10.0.0.0/8".toList]).map fun r =>
      r.resolve (IpAddr.fromStr "10.0.0.9".toList) ["192.168.0.1, 203.0.113.7,10.0.0.4:443".toList]
        none) = .ok (IpAddr.fromStr "203.0.113.7".toList) := by
  decide +kernel

end Rustberg
